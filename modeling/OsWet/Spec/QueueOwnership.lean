import OsWet.Native.Server
import OsWet.Spec.QueueHistory
import OsWet.Spec.QueueSafety
import OsWet.Spec.QueueWakeup
import Mathlib.Algebra.BigOperators.Group.Multiset.Basic
import Mathlib.Algebra.Order.Group.Multiset

/-!
# What the queue does with the resources of its messages

A message carries a connection descriptor and a metadata block. A segment of `MQPut` or
`MQGet` moves both between the queue, the thread and its caller: no descriptor is lost or
made up, and a block is freed exactly when its message is dropped.
-/

namespace OsWet

/-- The descriptors a thread inside `MQPut` is responsible for: the message it wants to
    put, and the drops it has yet to report. -/
def kontFds {ν : Type} : Option (Kont ν Int) → Multiset (Option Int)
  | some (.put _ _ message out) => some message.content ::ₘ (out.reported : Multiset (Option Int))
  | _ => 0

/-- The metadata block a thread inside `MQPut` is responsible for. -/
def kontMetas {ν : Type} : Option (Kont ν Int) → Multiset Nat
  | some (.put _ _ message _) => {message.metaData}
  | _ => 0

/-- The descriptors that pass to the caller with a return value. -/
def retFds : Ret Int → Multiset (Option Int)
  | .put _ out => (out.reported : Multiset (Option Int))
  | .get _ (some message) => {some message.content}
  | .get _ none => 0

/-- The metadata block that passes to the caller with a return value. -/
def retMetas : Ret Int → Multiset Nat
  | .get _ (some message) => {message.metaData}
  | _ => 0

namespace Queue

/-- The metadata blocks of the messages in the queue. -/
def metas (q : Queue Int) : Multiset Nat := (q.items.map Message.metaData : Multiset Nat)

/-- The descriptors in the queue. -/
def fds (q : Queue Int) : Multiset (Option Int) := ((contents q).map some : Multiset (Option Int))

/-- What a thread is responsible for after a segment. -/
def End.fds (g : End Int) : Multiset (Option Int) :=
  match g.ret with
  | some r => retFds r
  | none => kontFds g.kont

/-- The metadata block in the hands of a call that has ended. -/
def End.metas (g : End Int) : Multiset Nat :=
  match g.ret with
  | some r => retMetas r
  | none => kontMetas g.kont

/-- A putter goes on with the same message or returns it. -/
theorem Move.put_cases {q : Queue Int} {point : PutPoint} {message : Message Int} {out : PutOut Int}
    {g : End Int} (h : Move q (.put point () message out) g) :
    (∃ point' out', g.ret = none ∧ g.kont = some (.put point' () message out')) ∨
      ∃ out', g.ret = some (.put (some message) out') ∧ g.kont = none := by
  cases h with
  | put | putAfterBlock | dropTail | dropRandom => exact .inr ⟨_, rfl, rfl⟩
  | block | dropHead | randomBlock | spin => exact .inl ⟨_, _, rfl, rfl⟩

/-- A getter waits, or takes the first message. -/
theorem Move.get_cases {q : Queue Int} {g : End Int} (h : Move q .get g) :
    (End.ret g = none ∧ g.kont = some .get ∧ g.data = q) ∨
      ∃ m items, q.items = m :: items ∧ g.data = { q with items := items } ∧
        End.ret g = some (.get .success (some m)) ∧ g.kont = none := by
  cases h with
  | getWait => exact .inl ⟨rfl, rfl, rfl⟩
  | get hitems => exact .inr ⟨_, _, hitems, rfl, rfl, rfl⟩

/-- A put that returns has completed. -/
theorem Move.completes_ret {q : Queue Int} {k : Kont Unit Int} {g : End Int} (h : Move q k g)
    (hk : k.Completes) {message : Option (Message Int)} {out : PutOut Int}
    (hret : g.ret = some (.put message out)) : out.result = .success ∨ out.result = .drop := by
  cases h with
  | put | putAfterBlock => cases hret; exact hk
  | dropTail | dropRandom => cases hret; exact .inr rfl
  | get => cases hret
  | block | dropHead | randomBlock | spin | getWait => cases hret

/-- A segment moves descriptors, and loses or invents none. -/
theorem Settles.fds_eq {q : Queue Int} {k : Kont Unit Int} {g : End Int} (hs : Settles q k g)
    (h : Move q k g) (hk : k.Completes) :
    q.fds + kontFds (some k) = g.data.fds + End.fds g := by
  -- The equation is `Settles.conserved` with the message of the putter added on both sides.
  have hconserved := hs.conserved
  rw [← Multiset.coe_eq_coe] at hconserved
  cases k with
  | get =>
    rcases h.get_cases with ⟨hret, hkont, hdata⟩ | ⟨m, items, hitems, hdata, hret, -⟩
    · simp [End.fds, hret, hkont, hdata]
    · simp only [End.fds, hret, hdata, fds, contents, hitems, kontFds, retFds, List.map_cons,
        ← Multiset.cons_coe, ← Multiset.singleton_add, add_zero]
      exact add_comm _ _
  | put point newNode message out =>
    simp only [End.fds, fds, kontFds]
    rcases h.put_cases with ⟨point', out', hret, hkont⟩ | ⟨out', hret, hkont⟩
    · -- The putter keeps its message, so the equation is about the drops alone.
      simp only [End.puts, End.gets, End.reports, hret, hkont, Option.bind_none,
        Option.toList_none, List.append_nil, List.nil_append, Option.map_some, Option.getD_some,
        Kont.reported, ← Multiset.coe_add] at hconserved
      simp only [hret, hkont, Multiset.add_cons, hconserved]
    · -- The put returns: its message is now in the queue or among the drops.
      have hputs : Ret.putContent (.put (some message) out') = some message.content :=
        if_pos (h.completes_ret hk hret)
      have hgets : Ret.getContent (.put (some message) out') = none := rfl
      simp only [End.puts, End.gets, End.reports, hret, Option.bind_some, hputs, hgets,
        Option.toList_none, Option.toList_some, List.nil_append, Ret.reported, Kont.reported,
        List.map_append, List.map_cons, List.map_nil, ← Multiset.coe_add] at hconserved
      simp only [hret, retFds, ← hconserved, Multiset.coe_singleton, ← Multiset.singleton_add]
      abel

/-- A segment frees the blocks of the messages it drops, and keeps the others. -/
theorem Move.metas_eq {q : Queue Int} {k : Kont Unit Int} {g : End Int} (h : Move q k g) :
    ∃ frees, g.data.metaFrees = q.metaFrees ++ frees ∧
      q.metas + kontMetas (some k) = g.data.metas + End.metas g + (frees : Multiset Nat) := by
  cases h with
  | put | putAfterBlock =>
    -- No block is freed: the block of the new message moves into the queue.
    refine ⟨[], by simp [Segment.data, putEnd], ?_⟩
    simp [metas, kontMetas, End.metas, End.ret, retMetas, Segment.data, putEnd, ← Multiset.coe_add]
  | block | randomBlock | spin | getWait =>
    refine ⟨[], by simp [Segment.data], ?_⟩
    simp [End.metas, End.ret, Segment.data, Segment.kont, kontMetas]
  | @dropTail message =>
    -- The block of the refused message is freed, the queue keeps its own.
    exact ⟨[message.metaData], rfl, by simp [metas, kontMetas, End.metas, End.ret, retMetas,
      Segment.data]⟩
  | @dropHead message m out items _ _ hitems =>
    -- The block of the head is freed while the putter keeps its message.
    refine ⟨[m.metaData], rfl, ?_⟩
    simp only [metas, hitems, kontMetas, End.metas, End.ret, Segment.data, Segment.kont,
      dropTo_items, List.map_cons, ← Multiset.cons_coe, ← Multiset.singleton_add]
    abel
  | @dropRandom message out mask _ _ _ hlen =>
    -- The blocks of the selected messages are freed, and the new one moves in.
    refine ⟨(MessageQueue.gone mask q.items).map Message.metaData, rfl, ?_⟩
    have hperm := (pick_perm (p := isClear) hlen).map Message.metaData
    rw [← Multiset.coe_eq_coe, List.map_append, ← Multiset.coe_add] at hperm
    simp only [metas, kontMetas, End.metas, End.ret, retMetas, Segment.data, putEnd, append_items,
      dropTo_items, List.map_append, List.map_cons, List.map_nil, ← Multiset.coe_add, ← hperm,
      Multiset.coe_singleton, MessageQueue.stay, MessageQueue.gone]
    abel
  | get hitems =>
    refine ⟨[], by simp [Segment.data], ?_⟩
    simp only [metas, hitems, kontMetas, End.metas, End.ret, Segment.data, retMetas,
      List.map_cons, ← Multiset.cons_coe, ← Multiset.singleton_add, Multiset.coe_nil, add_zero]
    exact add_comm _ _

/-- A drop that a thread has to report, or reports, fills as many entries of the dropped
    array as the server has provided for. -/
def AmountOk (dropSize : Int) (out : PutOut Int) : Prop :=
  out.result = .drop → out.droppedAmount = dropSize

/-- The amounts of dropped entries are those the server has provided for. -/
theorem Move.amount {q : Queue Int} {k : Kont Unit Int} {g : End Int} (h : Move q k g)
    (hcap : 1 ≤ q.capacity) (hk : ∀ point node message out, k = .put point node message out →
      AmountOk (Server.dropSizeOf q.capacity q.schedPolicy) out) :
    (∀ point node message out, g.kont = some (.put point node message out) →
      AmountOk (Server.dropSizeOf q.capacity q.schedPolicy) out) ∧
    ∀ message out, g.ret = some (.put message out) →
      AmountOk (Server.dropSizeOf q.capacity q.schedPolicy) out := by
  cases h with
  | put | putAfterBlock =>
    refine ⟨fun _ _ _ _ h => (by cases h), ?_⟩
    intro _ _ h
    obtain ⟨⟩ := h
    exact hk _ _ _ _ rfl
  | block | spin =>
    refine ⟨?_, fun _ _ h => (by cases h)⟩
    intro _ _ _ _ h
    obtain ⟨⟩ := h
    exact hk _ _ _ _ rfl
  | dropTail _ hpol =>
    refine ⟨fun _ _ _ _ h => (by cases h), ?_⟩
    rintro _ _ ⟨⟩ -
    simp [report, Server.dropSizeOf, hpol]
  | dropHead _ hpol =>
    refine ⟨?_, fun _ _ h => (by cases h)⟩
    rintro _ _ _ _ ⟨⟩ -
    simp [report, Server.dropSizeOf, hpol]
  | randomBlock _ hpol hsmall =>
    refine ⟨?_, fun _ _ h => (by cases h)⟩
    rintro _ _ _ _ ⟨⟩ -
    -- Below four places a quarter is zero, which is the amount that is reported.
    rw [Server.dropSizeOf, if_pos hpol, Int.tdiv_eq_ediv_of_nonneg (by omega)]
    show (0 : Int) = _
    omega
  | dropRandom _ hpol =>
    refine ⟨fun _ _ _ _ h => (by cases h), ?_⟩
    rintro _ _ ⟨⟩ -
    simp [report, Server.dropSizeOf, hpol]
  | getWait | get => exact ⟨fun _ _ _ _ h => (by cases h), fun _ _ h => (by cases h)⟩

end Queue

end OsWet
