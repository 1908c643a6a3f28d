import OsWet.Spec.QueueRefinement
import Mathlib.Data.Multiset.AddSub
import Mathlib.Tactic.Abel

/-!
# Where the messages are

The return values of a run are its history: what was put, what was delivered, and
what was reported as dropped. In every state in which the mutex is free, the messages
put so far are exactly the delivered ones, the queued ones and the reported ones, and
the delivered and the queued ones follow each other in the order of the puts.

While a putter goes round the overload loop under the drop-head policy it holds the
mutex and has one drop to report; `pending` keeps account of it.
-/

namespace OsWet

variable {α : Type}

/-- What a call of `MQPut` reports as dropped: the entries of the dropped array below
    `droppedAmount`, if it returns `MQ_DROP`. An entry it did not write is `none`. -/
def PutOut.reported (out : PutOut α) : List (Option α) :=
  if out.result = .drop then (List.range out.droppedAmount.toNat).map out.dropped else []

/-- The message of a completed `MQPut`. -/
def Ret.putContent : Ret α → Option α
  | .put (some message) out =>
    if out.result = .success ∨ out.result = .drop then some message.content else none
  | _ => none

/-- The message a `MQGet` delivered. -/
def Ret.getContent : Ret α → Option α
  | .get .success (some message) => some message.content
  | _ => none

/-- What a call reported as dropped. -/
def Ret.reported : Ret α → List (Option α)
  | .put _ out => out.reported
  | .get _ _ => []

/-- What a thread has yet to report. -/
def Kont.reported {ν : Type} : Kont ν α → List (Option α)
  | .put _ _ _ out => out.reported
  | .get => []

/-- The call can only complete with `MQ_SUCCESS` or `MQ_DROP`. -/
def Kont.Completes {ν : Type} : Kont ν α → Prop
  | .put _ _ _ out => out.result = .success ∨ out.result = .drop
  | .get => True

section Histories

variable {Tid : Type}

/-- The messages put so far, in order of completion. -/
def puts (out : List (Tid × Ret α)) : List α := out.filterMap fun x => x.2.putContent

/-- The messages delivered so far, in order. -/
def delivered (out : List (Tid × Ret α)) : List α := out.filterMap fun x => x.2.getContent

/-- Everything reported as dropped so far. -/
def reportedDrops (out : List (Tid × Ret α)) : List (Option α) := out.flatMap fun x => x.2.reported

/-- What is put with one more return. -/
@[simp] theorem puts_snoc (out : List (Tid × Ret α)) (t : Tid) (r : Ret α) :
    puts (out ++ [(t, r)]) = puts out ++ r.putContent.toList := by
  unfold puts
  cases h : r.putContent <;> simp [h]

/-- What is delivered with one more return. -/
@[simp] theorem delivered_snoc (out : List (Tid × Ret α)) (t : Tid) (r : Ret α) :
    delivered (out ++ [(t, r)]) = delivered out ++ r.getContent.toList := by
  unfold delivered
  cases h : r.getContent <;> simp [h]

/-- What is reported with one more return. -/
@[simp] theorem reportedDrops_snoc (out : List (Tid × Ret α)) (t : Tid) (r : Ret α) :
    reportedDrops (out ++ [(t, r)]) = reportedDrops out ++ r.reported := by
  simp [reportedDrops]

end Histories

/-- Entries behind the last one written are kept. -/
private theorem writeAll_dropped_of_lt (out : PutOut α) {i n : Nat} (contents : List α)
    (h : n < i) : (out.writeAll i contents).dropped n = out.dropped n := by
  induction contents generalizing out i with
  | nil => rfl
  | cons content contents ih =>
    rw [PutOut.writeAll, ih _ (by omega)]
    exact Function.update_of_ne (by omega) _ _

/-- The entries written from `i` on are the contents. -/
private theorem writeAll_dropped (out : PutOut α) (i : Nat) (contents : List α) :
    (List.range contents.length).map (fun n => (out.writeAll i contents).dropped (i + n)) =
      contents.map some := by
  induction contents generalizing out i with
  | nil => rfl
  | cons content contents ih =>
    rw [List.length_cons, List.range_succ_eq_map, List.map_cons, List.map_cons, List.map_map]
    congr 1
    · show ((out.writeDropped i content).writeAll (i + 1) contents).dropped i = some content
      rw [writeAll_dropped_of_lt _ _ (Nat.lt_succ_self i)]
      exact Function.update_self _ _ _
    · rw [← ih (out.writeDropped i content) (i + 1)]
      refine List.map_congr_left fun n _ => ?_
      simp only [Function.comp, PutOut.writeAll]
      congr 1
      omega

namespace Queue

/-- A drop reports exactly the dropped messages. -/
theorem report_reported (out : PutOut α) {amount : Int} {dropped : List (Message α)}
    (hamount : amount = dropped.length) :
    (report out amount dropped).reported = dropped.map fun m => some m.content := by
  have hall := writeAll_dropped out 0 (dropped.map Message.content)
  simp only [Nat.zero_add, List.length_map, List.map_map] at hall
  simp only [PutOut.reported, report, hamount, if_true, Int.toNat_natCast]
  exact hall

/-! ## One segment -/

/-- The contents of the queue, from head to tail. -/
def contents (q : Queue α) : List α := q.items.map Message.content

/-- The value a segment returns. -/
def End.ret : End α → Option (Ret α)
  | .leave _ _ r | .escape _ r => some r
  | .again _ _ | .wait _ _ _ => none

/-- What a segment puts, gets, and reports or has yet to report. -/
def End.puts (g : End α) : List α := (g.ret.bind Ret.putContent).toList

/-- What the end of a call delivers. -/
def End.gets (g : End α) : List α := (g.ret.bind Ret.getContent).toList

/-- What the end of a call reports as dropped. -/
def End.reports (g : End α) : List (Option α) :=
  match g.ret with
  | some r => r.reported
  | none => (g.kont.map Kont.reported).getD []

/-- A segment accounts for every message it touches. -/
structure Settles (q : Queue α) (k : Kont Unit α) (g : End α) : Prop where
  conserved : ((contents q ++ End.puts g).map some ++ k.reported).Perm
    ((End.gets g ++ contents g.data).map some ++ End.reports g)
  -- A segment takes from the front and adds at the end, so the order is kept.
  fifo : (End.gets g ++ contents g.data).Sublist (contents q ++ End.puts g)
  block : q.schedPolicy = .block →
    End.gets g ++ contents g.data = contents q ++ End.puts g ∧ End.reports g = k.reported
  completes : ∀ k', g.kont = some k' → k'.Completes
  -- A drop to report means that the segment made room.
  room : ∀ k', g.kont = some k' → k'.reported ≠ [] → ¬ g.data.Full
  -- A putter that releases the mutex to wait has nothing to report.
  waits : ∀ d c k', g = .wait d c k' → k'.reported = []

/-- A segment that only waits or goes round the loop. -/
private theorem Settles.of_idle {q : Queue α} {k k' : Kont Unit α} {g : End α}
    (hdata : g.data = q) (hret : End.ret g = none) (hkont : g.kont = some k')
    (hcompletes : k'.Completes) (hk : k.reported = []) (hk' : k'.reported = []) :
    Settles q k g where
  conserved := by simp [End.puts, End.gets, End.reports, hret, hkont, hdata, hk, hk']
  fifo := by simp [End.puts, End.gets, hret, hdata]
  block _ := by simp [End.puts, End.gets, End.reports, hret, hkont, hdata, hk, hk']
  completes k'' h := by
    cases hkont.symm.trans h
    exact hcompletes
  room k'' h hne := by
    cases hkont.symm.trans h
    exact absurd hk' hne
  waits d c k'' h := by
    subst h
    cases hkont
    exact hk'

/-- Putting the message at the end. -/
private theorem Settles.of_putEnd {q : Queue α} {point : PutPoint} {message : Message α}
    {out : PutOut α} (hcompletes : out.result = .success ∨ out.result = .drop) :
    Settles q (.put point () message out) (putEnd q message out) where
  conserved := by
    simp [End.puts, End.gets, End.reports, End.ret, putEnd, Ret.putContent, Ret.getContent,
      hcompletes, contents, Segment.data, Kont.reported, Ret.reported]
  fifo := by
    simp [End.puts, End.gets, End.ret, putEnd, Ret.putContent, Ret.getContent, hcompletes,
      contents, Segment.data]
  block _ := by
    simp [End.puts, End.gets, End.reports, End.ret, putEnd, Ret.putContent, Ret.getContent,
      hcompletes, contents, Segment.data, Kont.reported, Ret.reported]
  completes k' h := nomatch h
  room k' h := nomatch h
  waits d c k' h := nomatch h

/-- Leaving `MQPut` with `MQ_DROP`: one message was put, and `drops` were reported. -/
private theorem Settles.of_drop {q q' : Queue α} {message : Message α} {out out' : PutOut α}
    (drops : List α) (hresult : out'.result = .drop) (hreported : out'.reported = drops.map some)
    (hout : out.reported = []) (hpol : q.schedPolicy ≠ .block)
    (hperm : (contents q ++ [message.content]).Perm (contents q' ++ drops))
    (hfifo : (contents q').Sublist (contents q ++ [message.content])) :
    Settles q (.put .loop () message out) (.leave q' .condPut (.put (some message) out')) := by
  have hputs : End.puts (.leave q' .condPut (.put (some message) out')) = [message.content] := by
    simp [End.puts, End.ret, Ret.putContent, hresult]
  have hreports : End.reports (.leave q' .condPut (.put (some message) out')) = drops.map some :=
    hreported
  refine ⟨?_, ?_, fun hblock => absurd hblock hpol, fun _ h => (by cases h),
    fun _ h => (by cases h), fun _ _ _ h => (by cases h)⟩
  · rw [hputs, hreports, show (Kont.put PutPoint.loop () message out).reported = [] from hout,
      List.append_nil, ← List.map_append]
    exact hperm.map some
  · rw [hputs]
    exact hfifo

/-- Dropping the first message leaves it to be reported, and there is room. -/
private theorem Settles.of_dropHead {q : Queue α} {message m : Message α} {out : PutOut α}
    {items : List (Message α)} (hfull : q.Full) (hpol : q.schedPolicy = .dropHead)
    (hitems : q.items = m :: items) (hout : out.reported = []) :
    Settles q (.put .loop () message out)
      (.again (q.dropTo items [m]) (.put .loop () message (report out 1 [m]))) := by
  have hreported : (report out 1 [m]).reported = [some m.content] := report_reported out (by rfl)
  refine ⟨?_, ?_, ?_, ?_, ?_, fun _ _ _ h => (by cases h)⟩
  · simp only [End.puts, End.gets, End.reports, End.ret, contents, Segment.data, Segment.kont,
      Kont.reported, hreported, hout, hitems, dropTo_items, Option.bind_none, Option.toList_none,
      List.append_nil, List.nil_append, List.map_cons, Option.map_some, Option.getD_some]
    -- The dropped message moves from the head of the queue to what is to be reported.
    exact (List.perm_append_singleton _ _).symm
  · simp [End.puts, End.gets, End.ret, contents, Segment.data, hitems]
  · intro hblock
    rw [hpol] at hblock
    cases hblock
  · intro k' h
    obtain ⟨⟩ := h
    exact .inr rfl
  · rintro k' ⟨⟩ -
    simp only [Full, hitems, List.length_cons] at hfull
    simp only [Full, Segment.data, dropTo_items, dropTo_capacity]
    omega

/-- What a move of the queue does with the messages of a call that completes. -/
theorem Move.settles {q : Queue α} {k : Kont Unit α} {g : End α} (h : Move q k g)
    (hcompletes : k.Completes) (hroom : k.reported ≠ [] → ¬ q.Full) : Settles q k g := by
  -- On a full queue nothing is left to report: a drop would have made room.
  have hnone : q.Full → k.reported = [] := fun hfull => by
    by_contra hne
    exact hroom hne hfull
  cases h with
  | put | putAfterBlock => exact .of_putEnd hcompletes
  | block hfull => exact .of_idle rfl rfl rfl hcompletes (hnone hfull) (hnone hfull)
  | spin hfull => exact .of_idle rfl rfl rfl hcompletes (hnone hfull) (hnone hfull)
  | randomBlock hfull =>
    refine .of_idle rfl rfl rfl hcompletes (hnone hfull) ?_
    simp [Kont.reported, PutOut.reported]
  | getWait => exact .of_idle rfl rfl rfl trivial rfl rfl
  | @dropTail message out hfull hpol =>
    -- The new message itself is dropped: it is put and reported.
    refine .of_drop [message.content] rfl ?_ (hnone hfull) (by simp [hpol])
      (List.Perm.refl _) (List.sublist_append_left _ _)
    exact report_reported out (by rfl)
  | dropHead hfull hpol hitems => exact .of_dropHead hfull hpol hitems (hnone hfull)
  | @dropRandom message out mask hfull hpol hcap hlen hcount =>
    -- The mask splits the queue: what goes is reported, what stays keeps its order.
    refine .of_drop ((MessageQueue.gone mask q.items).map Message.content) rfl ?_
      (hnone hfull) (by simp [hpol]) ?_ ?_
    · rw [List.map_map]
      exact report_reported out (by rw [length_gone hlen, hcount])
    · have hperm := (pick_perm (p := isClear) hlen).map Message.content
      rw [List.map_append] at hperm
      simp only [contents, append_items, dropTo_items, List.map_append, List.map_cons,
        List.map_nil]
      refine (hperm.symm.append_right _).trans ?_
      rw [List.append_assoc]
      exact List.perm_append_comm
    · simp only [contents, append_items, dropTo_items, List.map_append, List.map_cons,
        List.map_nil]
      exact ((pick_sublist mask q.items).map Message.content).append (List.Sublist.refl _)
  | get hitems =>
    refine ⟨?_, ?_, fun _ => ?_, fun _ h => (by cases h), fun _ h => (by cases h),
      fun _ _ _ h => (by cases h)⟩ <;>
    simp [End.puts, End.gets, End.reports, End.ret, Ret.putContent, Ret.getContent, contents,
      Segment.data, Kont.reported, Ret.reported, hitems]

/-! ## Runs -/

variable {Tid : Type}

/-- The abstract states. -/
abbrev QState (Tid α : Type) : Type := Monitor.State Tid (Queue α) (Kont Unit α) CondVar

/-- The drops that the owner of the mutex has yet to report. -/
def pending (s : QState Tid α) : List (Option α) :=
  match s.lock with
  | none => []
  | some t => ((s.threads t).kont.map Kont.reported).getD []

/-- The history invariant. -/
structure HistoryInv (s : QState Tid α) (out : List (Tid × Ret α)) : Prop where
  /-- Only the owner of the mutex may have drops to report. -/
  settled : ∀ t k, (s.threads t).kont = some k → s.lock ≠ some t → k.reported = []
  completes : ∀ t k, (s.threads t).kont = some k → k.Completes
  /-- With a drop to report there is room. -/
  room : pending s ≠ [] → ¬ s.data.Full
  conserved : ((puts out).map some).Perm
    ((delivered out ++ contents s.data).map some ++ (reportedDrops out ++ pending s))
  fifo : (delivered out ++ contents s.data).Sublist (puts out)
  /-- The blocking policy drops nothing. -/
  block : s.data.schedPolicy = .block →
    delivered out ++ contents s.data = puts out ∧ reportedDrops out ++ pending s = []

variable [DecidableEq Tid]

/-- The thread that can run is the owner of the mutex, if there is one. -/
private theorem lock_of_runnable {s : QState Tid α} {t u : Tid} {k : Kont Unit α}
    (hrun : s.runnable t = some k) (hlock : s.lock = some u) : t = u := by
  unfold Monitor.State.runnable at hrun
  rw [hlock] at hrun
  split at hrun <;> grind

/-- The drops of a thread that can run are the pending ones. -/
theorem HistoryInv.pending_of_runnable {s : QState Tid α} {out : List (Tid × Ret α)} {t : Tid}
    {k : Kont Unit α} (h : HistoryInv s out) (hrun : s.runnable t = some k) :
    pending s = k.reported := by
  have hkont := Monitor.State.kont_of_runnable hrun
  -- With the mutex free nobody has anything to report, otherwise only its owner `t`.
  cases hlock : s.lock with
  | none =>
    rw [h.settled t k hkont (by rw [hlock]; exact fun h => by cases h)]
    simp [pending, hlock]
  | some u =>
    cases lock_of_runnable hrun hlock
    simp [pending, hlock, hkont]

/-- Conservation along a run and conservation in one segment add up. -/
private theorem perm_account {P D C p g C' : List α} {Rep kr gr : List (Option α)}
    (hrun : (P.map some).Perm ((D ++ C).map some ++ (Rep ++ kr)))
    (hseg : ((C ++ p).map some ++ kr).Perm ((g ++ C').map some ++ gr)) :
    ((P ++ p).map some).Perm ((D ++ g ++ C').map some ++ (Rep ++ gr)) := by
  rw [← Multiset.coe_eq_coe] at hrun hseg ⊢
  simp only [List.map_append, ← Multiset.coe_add] at hrun hseg ⊢
  rw [hrun]
  -- Bring what the segment starts with together, replace it, and sort it back.
  calc _ = (D.map some : Multiset (Option α)) + Rep + (C.map some + p.map some + kr) := by abel
    _ = D.map some + Rep + (g.map some + C'.map some + gr) := by rw [hseg]
    _ = _ := by abel

/-- What a segment of a run accounts for. -/
theorem HistoryInv.settles {s : QState Tid α} {out : List (Tid × Ret α)} {t : Tid}
    {k : Kont Unit α} {g : End α} (h : HistoryInv s out) (hrun : s.runnable t = some k)
    (hg : Move s.data k g) : Settles s.data k g :=
  hg.settles (h.completes t k (Monitor.State.kont_of_runnable hrun))
    (h.pending_of_runnable hrun ▸ h.room)

omit [DecidableEq Tid] in
/-- A step that leaves the queue alone and returns nothing of interest. -/
private theorem HistoryInv.of_same {s s' : QState Tid α} {out out' : List (Tid × Ret α)}
    (h : HistoryInv s out) (hdata : s'.data = s.data) (hlock : s'.lock = s.lock)
    (hkont : ∀ u k, (s'.threads u).kont = some k →
      (s.threads u).kont = some k ∨ k.reported = [] ∧ k.Completes)
    (hpend : pending s' = pending s) (hputs : puts out' = puts out)
    (hgets : delivered out' = delivered out) (hdrops : reportedDrops out' = reportedDrops out) :
    HistoryInv s' out' where
  settled u k hu hl := (hkont u k hu).elim (fun hu' => h.settled u k hu' (hlock ▸ hl)) And.left
  completes u k hu := (hkont u k hu).elim (h.completes u k) And.right
  room := hpend ▸ hdata ▸ h.room
  conserved := by rw [hputs, hgets, hdrops, hdata, hpend]; exact h.conserved
  fifo := by rw [hputs, hgets, hdata]; exact h.fifo
  block := by rw [hputs, hgets, hdrops, hdata, hpend]; exact h.block

/-- A segment of thread `t` keeps the history, whatever the new state of `t` is. -/
theorem HistoryInv.run {s s' : QState Tid α} {out o : List (Tid × Ret α)} {t : Tid}
    {k : Kont Unit α} {g : End α} (h : HistoryInv s out) (hrun : s.runnable t = some k)
    (hg : Move s.data k g) (hdata : s'.data = g.data)
    (hkont : ∀ u, (s'.threads u).kont = Function.update (fun u => (s.threads u).kont) t g.kont u)
    (hlock : s'.lock = some t ∨ s'.lock = none ∧ ∀ k', g.kont = some k' → k'.reported = [])
    (hout : o = (End.ret g).toList.map fun r => (t, r)) : HistoryInv s' (out ++ o) := by
  -- If the segment releases the mutex, it has nothing left to report.
  have hpend := h.pending_of_runnable hrun
  have hs := h.settles hrun hg
  have hpend' : pending s' = (g.kont.map Kont.reported).getD [] := by
    rcases hlock with hl | ⟨hl, hnone⟩
    · simp only [pending, hl, hkont, Function.update_self]
    · simp only [pending, hl]
      cases hgk : g.kont with
      | none => rfl
      | some k' => exact (hnone k' hgk).symm
  have hputs : puts (out ++ o) = puts out ++ End.puts g := by
    cases g <;> simp [hout, End.ret, End.puts]
  have hgets : delivered (out ++ o) = delivered out ++ End.gets g := by
    cases g <;> simp [hout, End.ret, End.gets]
  have hreports : reportedDrops (out ++ o) ++ pending s' =
      reportedDrops out ++ End.reports g := by
    rw [hpend']
    cases g <;> simp [hout, End.ret, End.reports, Segment.kont]
  -- The fields of the invariant in order; `conserved` and `fifo` add up the two accounts.
  refine ⟨fun u k' hu hl => ?_, fun u k' hu => ?_, fun hne => ?_, ?_, ?_, fun hblock => ?_⟩
  · rw [hkont] at hu
    by_cases hut : u = t
    · subst hut
      rw [Function.update_self] at hu
      rcases hlock with hl' | ⟨-, hnone⟩
      · exact absurd hl' hl
      · exact hnone k' hu
    · rw [Function.update_of_ne hut] at hu
      exact h.settled u k' hu fun hl' => hut (lock_of_runnable hrun hl').symm
  · rw [hkont] at hu
    by_cases hut : u = t
    · subst hut
      rw [Function.update_self] at hu
      exact hs.completes k' hu
    · rw [Function.update_of_ne hut] at hu
      exact h.completes u k' hu
  · rw [hdata]
    rw [hpend'] at hne
    cases hgk : g.kont with
    | none => exact absurd (by rw [hgk]; rfl) hne
    | some k' => exact hs.room k' hgk (by simpa [hgk] using hne)
  · rw [hputs, hgets, hreports, hdata]
    exact perm_account (hpend ▸ h.conserved) hs.conserved
  · rw [hputs, hgets, hdata, List.append_assoc]
    refine (hs.fifo.append_left _).trans ?_
    rw [← List.append_assoc]
    exact h.fifo.append_right _
  · rw [hdata, hg.params.2] at hblock
    obtain ⟨hfifo, hrep⟩ := h.block hblock
    obtain ⟨hfifo', hrep'⟩ := hs.block hblock
    rw [hputs, hgets, hreports, hdata, hrep', List.append_assoc, hfifo', ← List.append_assoc,
      hfifo, ← hpend]
    exact ⟨rfl, hrep⟩

variable [Fintype Tid]

omit [Fintype Tid] in
/-- Moving one thread changes the continuation of that thread only. -/
private theorem kont_setThread (s : QState Tid α) (t : Tid) (st : Status (Kont Unit α) CondVar)
    (u : Tid) : (s.setThread t st u).kont =
      Function.update (fun u => (s.threads u).kont) t st.kont u := by
  by_cases hut : u = t
  · subst hut
    simp [Monitor.State.setThread]
  · simp [Monitor.State.setThread, Function.update_of_ne hut]

/-- A segment of the abstract queue, whichever way it ends: the queue and the
    continuation of the thread are as the segment says, and it returns what the segment
    returns. The mutex is kept or released. -/
theorem run_cases {s s' : QState Tid α} {o : List (Tid × Ret α)} {t : Tid} {rands : List Nat}
    {woken : Option Tid} (hstep : (monitor α).machine.step s (.run t rands woken) = .ok (s', o)) :
    ∃ k g, s.runnable t = some k ∧ Move s.data k g ∧ s'.data = g.data ∧
      (∀ u, (s'.threads u).kont = Function.update (fun u => (s.threads u).kont) t g.kont u) ∧
      o = (End.ret g).toList.map (fun r => (t, r)) ∧
      (s'.lock = some t ∨ s'.lock = none ∧ ∀ k', g.kont = some k' → ∃ d c, g = .wait d c k') := by
  cases Monitor.step_iff.mp hstep with
  | @again _ _ _ k k' d hrun hg =>
    exact ⟨k, _, hrun, segment_eq_ok hg, rfl, kont_setThread s t (.holding k'), rfl, .inl rfl⟩
  | @wait _ _ _ k k' d c hrun hg =>
    refine ⟨k, _, hrun, segment_eq_ok hg, rfl, kont_setThread s t (.waiting c .asleep k'), rfl,
      .inr ⟨rfl, ?_⟩⟩
    intro _ h
    obtain ⟨⟩ := h
    exact ⟨d, c, rfl⟩
  | @leave _ _ _ k d c r threads hrun hg hsig =>
    refine ⟨k, _, hrun, segment_eq_ok hg, rfl, fun u => ?_, rfl, .inr ⟨rfl, fun _ h => by cases h⟩⟩
    rw [Monitor.signal_kont hsig]
    exact kont_setThread s t .outside u
  | escape hrun hg => cases segment_eq_ok hg

/-- A call of the abstract queue enters with a continuation or returns at once. -/
theorem call_cases {s s' : QState Tid α} {o : List (Tid × Ret α)} {t : Tid} {c : Call α}
    (hstep : (monitor α).machine.step s (.call t c) = .ok (s', o)) :
    (s.threads t).kont = none ∧ s'.data = s.data ∧ s'.lock = s.lock ∧
      ((∃ k, call c s.data = .ok (s.data, .inl k) ∧ o = [] ∧
        ∀ u, (s'.threads u).kont = Function.update (fun u => (s.threads u).kont) t (some k) u) ∨
      ∃ r, call c s.data = .ok (s.data, .inr r) ∧ o = [(t, r)] ∧ s'.threads = s.threads) := by
  cases Monitor.step_iff.mp hstep with
  | @call _ _ d k hout hc =>
    cases call_eq_ok hc
    exact ⟨by rw [hout]; rfl, rfl, rfl, .inl ⟨k, hc, rfl, kont_setThread s t (.ready k)⟩⟩
  | @refuse _ _ d r hout hc =>
    cases call_eq_ok hc
    exact ⟨by rw [hout]; rfl, rfl, rfl, .inr ⟨r, hc, rfl, rfl⟩⟩

/-- Waking up spuriously changes no continuation. -/
theorem spurious_cases {s s' : QState Tid α} {o : List (Tid × Ret α)} {t : Tid}
    (hstep : (monitor α).machine.step s (.spurious t) = .ok (s', o)) :
    s'.data = s.data ∧ s'.lock = s.lock ∧ o = [] ∧
      ∀ u, (s'.threads u).kont = (s.threads u).kont := by
  cases Monitor.step_iff.mp hstep with
  | @spurious _ c k hw =>
    refine ⟨rfl, rfl, rfl, fun u => ?_⟩
    rw [kont_setThread]
    by_cases hut : u = t
    · subst hut
      rw [Function.update_self, hw]
      rfl
    · rw [Function.update_of_ne hut]

/-- A call enters with nothing to report. -/
private theorem call_kont {q q' : Queue α} {c : Call α} {k : Kont Unit α}
    (h : call c q = .ok (q', .inl k)) : k.reported = [] ∧ k.Completes := by
  cases c with
  | get => cases h; exact ⟨rfl, trivial⟩
  | put message =>
    cases message with
    | none => cases h
    | some message => cases h; exact ⟨rfl, .inl rfl⟩

/-- The history invariant is kept by every step. -/
theorem HistoryInv.step {s s' : QState Tid α} {out o : List (Tid × Ret α)}
    {a : Monitor.Action Tid (List Nat) (Call α)} (h : HistoryInv s out)
    (hstep : (monitor α).machine.step s a = .ok (s', o)) : HistoryInv s' (out ++ o) := by
  cases a with
  | call t c =>
    obtain ⟨hout, hdata, hlock, ⟨k, hc, rfl, hkont⟩ | ⟨r, hc, rfl, hthreads⟩⟩ := call_cases hstep
    · obtain ⟨hk, hcompletes⟩ := call_kont hc
      refine h.of_same hdata hlock (fun u k' hu => ?_) ?_ (by simp) (by simp) (by simp)
      · rw [hkont] at hu
        by_cases hut : u = t
        · subst hut
          rw [Function.update_self] at hu
          cases hu
          exact .inr ⟨hk, hcompletes⟩
        · rw [Function.update_of_ne hut] at hu
          exact .inl hu
      · -- The owner of the mutex is inside the monitor, so it is not the thread that calls.
        unfold pending
        rw [hlock]
        cases s.lock with
        | none => rfl
        | some u =>
          simp only [hkont]
          by_cases hut : u = t
          · subst hut
            simp [hout, hk]
          · rw [Function.update_of_ne hut]
    · -- Only a null message is refused at once, and that puts and drops nothing.
      have hr : r.putContent = none ∧ r.getContent = none ∧ r.reported = [] := by
        cases c with
        | get => cases hc
        | put message =>
          cases message with
          | none => cases hc; exact ⟨rfl, rfl, rfl⟩
          | some message => cases hc
      refine h.of_same hdata hlock (fun u k hu => .inl (hthreads ▸ hu)) ?_ (by simp [hr.1])
        (by simp [hr.2.1]) (by simp [hr.2.2])
      simp only [pending, hlock, hthreads]
  | run t rands woken =>
    -- A segment that ends in a wait leaves nothing pending behind.
    obtain ⟨k, g, hrun, hmove, hdata, hkont, hout, hlock⟩ := run_cases hstep
    refine h.run hrun hmove hdata hkont
      (hlock.imp id fun ⟨hl, hwait⟩ => ⟨hl, fun k' hk' => ?_⟩) hout
    obtain ⟨d, c, hg⟩ := hwait k' hk'
    exact (h.settles hrun hmove).waits d c k' hg
  | spurious t =>
    obtain ⟨hdata, hlock, rfl, hkont⟩ := spurious_cases hstep
    refine h.of_same hdata hlock (fun u k' hu => .inl (hkont u ▸ hu)) ?_ (by simp) (by simp)
      (by simp)
    simp only [pending, hlock, hkont]

/-- The history invariant holds along every run. -/
theorem exec_history {capacity : Int} {schedPolicy : MQSchedPolicy}
    {acts : List (Monitor.Action Tid (List Nat) (Call α))} {s : QState Tid α}
    {out : List (Tid × Ret α)}
    (h : (monitor α).machine.exec (Monitor.initial (initial capacity schedPolicy)) acts =
      .ok (s, out)) : HistoryInv s out := by
  refine Machine.exec_invariant (I := HistoryInv) ?_ (fun _ _ _ _ _ hs hstep => hs.step hstep) h
  exact ⟨fun _ _ h => (by cases h), fun _ _ h => (by cases h), fun h => absurd rfl h,
    List.Perm.refl _, List.Sublist.refl _, fun _ => ⟨rfl, rfl⟩⟩

end Queue

namespace MessageQueue

variable {Tid : Type} [DecidableEq Tid] [Fintype Tid]

/-- The contents of the queue in memory. -/
def contents (s : QueueMem α) : List α := (messages s).map Message.content

/-- Where the messages of a history are, with the queue as it is in memory. Contents
    stand for the messages that carry them, so distinct messages are modelled by
    distinct contents. -/
structure Accounted (schedPolicy : MQSchedPolicy) (s : QueueMem α)
    (out : List (Tid × Ret α)) : Prop where
  /-- What was put was delivered, is in the queue, or was reported, once each. -/
  conserved : ((puts out).map some).Perm
    ((delivered out ++ contents s).map some ++ reportedDrops out)
  /-- Distinct messages are in one place each. -/
  unique : (puts out).Nodup → ((delivered out ++ contents s).map some ++ reportedDrops out).Nodup
  fifo : (delivered out ++ contents s).Sublist (puts out)
  block : schedPolicy = .block → delivered out ++ contents s = puts out ∧ reportedDrops out = []

/-- In every run, whenever the mutex is free, every message put is accounted for. -/
theorem queue_history (capacity : Int) (schedPolicy : MQSchedPolicy)
    (acts : List (Monitor.Action Tid (List Nat) (Call α)))
    (s : Monitor.State Tid (QueueMem α) (Kont Ptr α) CondVar) (out : List (Tid × Ret α))
    (h : (monitor α .succeed).machine.exec (Monitor.initial (initialMem capacity schedPolicy))
      acts = .ok (s, out)) (hfree : s.lock = none) : Accounted schedPolicy s.data out := by
  obtain ⟨t, ht, hR⟩ := exec_abstract h
  obtain ⟨l, hrep⟩ := hR.1
  have hcontents : contents s.data = Queue.contents t.data := by
    rw [contents, hrep.list.messages_eq, hrep.items]
    rfl
  have hpend : Queue.pending t = [] := by
    rw [Queue.pending, hR.2.1, hfree]
  have hinv := Queue.exec_history ht
  have hconserved := hinv.conserved
  rw [hpend, List.append_nil, ← hcontents] at hconserved
  refine ⟨hconserved, fun hnodup => ?_, hcontents ▸ hinv.fifo, fun hblock => ?_⟩
  · exact hconserved.nodup (hnodup.map (Option.some_injective α))
  · have hfifo := hinv.block ((Queue.exec_params ht).2.trans hblock)
    rwa [hpend, List.append_nil, ← hcontents] at hfifo

/-- Two puts into a drop-head queue of capacity 1, and a get. -/
def dropHeadRun : List (Monitor.Action (Fin 2) (List Nat) (Call Nat)) :=
  [.call 0 (.put (some ⟨10, 0⟩)), .run 0 [] none, .call 0 (.put (some ⟨20, 1⟩)), .run 0 [] none,
   .run 0 [] none, .call 1 .get, .run 1 [] none]

theorem queue_history_dropHeadRun :
    ∃ s out, (monitor Nat .succeed).machine.exec (Monitor.initial (initialMem 1 .dropHead))
        dropHeadRun = .ok (s, out) ∧
      puts out = [10, 20] ∧ delivered out = [20] ∧ reportedDrops out = [some 10] ∧
      Accounted .dropHead s.data out :=
  ⟨_, _, rfl, rfl, rfl, rfl, queue_history 1 .dropHead dropHeadRun _ _ rfl rfl⟩

end MessageQueue

end OsWet
