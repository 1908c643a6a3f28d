import OsWet.Spec.RandomDrop
import OsWet.Spec.RandomIndexes

/-!
# The queue as a list

The purpose of `message_queue.c`, without memory: a bounded sequence of messages.
A full queue makes a putter wait, refuses the new message, or drops messages that
are already in it, as the policy says. `Queue.monitor` is a monitor with the same
calls, the same condition variables and the same return values as the code; that the
code refines it is shown in `QueueRefinement`.

Putters under the random policy with a capacity below 4 wait once and then append
without another look at the size. The model keeps this, because the code does it.
-/

namespace OsWet

/-- The abstract queue. `metaFrees` lists the metadata blocks of dropped messages. -/
structure Queue (α : Type) where
  capacity : Int
  schedPolicy : MQSchedPolicy
  items : List (Message α)
  metaFrees : List Nat

namespace Queue

variable {α : Type}

/-- The queue holds as many messages as it may. -/
def Full (q : Queue α) : Prop := (q.items.length : Int) = q.capacity

instance (q : Queue α) : Decidable q.Full := inferInstanceAs (Decidable (_ = _))

/-- Under these parameters a full queue makes putters wait. -/
def Blocking (q : Queue α) : Prop :=
  q.schedPolicy = .block ∨ q.schedPolicy = .dropRandom ∧ q.capacity < 4

instance (q : Queue α) : Decidable q.Blocking := inferInstanceAs (Decidable (_ ∨ _))

/-- Add a message at the end. -/
def append (q : Queue α) (m : Message α) : Queue α := { q with items := q.items ++ [m] }

/-- Drop messages: `kept` stay, `dropped` go and give up their metadata. -/
def dropTo (q : Queue α) (kept dropped : List (Message α)) : Queue α :=
  { q with items := kept, metaFrees := q.metaFrees ++ dropped.map Message.metaData }

/-- A new message comes last, and the parameters stay. -/
@[simp] theorem append_items (q : Queue α) (m : Message α) :
    (q.append m).items = q.items ++ [m] := rfl

@[simp] theorem append_capacity (q : Queue α) (m : Message α) :
    (q.append m).capacity = q.capacity := rfl

@[simp] theorem append_schedPolicy (q : Queue α) (m : Message α) :
    (q.append m).schedPolicy = q.schedPolicy := rfl

@[simp] theorem append_metaFrees (q : Queue α) (m : Message α) :
    (q.append m).metaFrees = q.metaFrees := rfl

/-- What is dropped is gone and freed, and the parameters stay. -/
@[simp] theorem dropTo_items (q : Queue α) (kept dropped : List (Message α)) :
    (q.dropTo kept dropped).items = kept := rfl

@[simp] theorem dropTo_capacity (q : Queue α) (kept dropped : List (Message α)) :
    (q.dropTo kept dropped).capacity = q.capacity := rfl

@[simp] theorem dropTo_schedPolicy (q : Queue α) (kept dropped : List (Message α)) :
    (q.dropTo kept dropped).schedPolicy = q.schedPolicy := rfl

@[simp] theorem dropTo_metaFrees (q : Queue α) (kept dropped : List (Message α)) :
    (q.dropTo kept dropped).metaFrees = q.metaFrees ++ dropped.map Message.metaData := rfl

/-- What a drop of these messages reports to the caller. -/
def report (out : PutOut α) (amount : Int) (dropped : List (Message α)) : PutOut α :=
  { out.writeAll 0 (dropped.map Message.content) with droppedAmount := amount, result := .drop }

/-- The end of a segment of the abstract monitor. -/
abbrev End (α : Type) : Type := Segment (Queue α) (Kont Unit α) CondVar (Ret α)

/-- Put the message and leave. -/
def putEnd (q : Queue α) (message : Message α) (out : PutOut α) : End α :=
  .leave (q.append message) .condPut (.put (some message) out)

/-- A putter that finds the queue full. -/
def putFull (q : Queue α) (rands : List Nat) (message : Message α) (out : PutOut α) :
    Outcome MemFault (End α) :=
  match q.schedPolicy with
  | .block => .ok (.wait q .condGet (.put .loop () message out))
  | .dropTail =>
    .ok (.leave (q.dropTo q.items [message]) .condPut
      (.put (some message) { report out 1 [message] with isPutting := false }))
  | .dropHead =>
    match q.items with
    | [] => .fault .nullPointer
    | m :: items =>
      .ok (.again (q.dropTo items [m]) (.put .loop () message (report out 1 [m])))
  | .dropRandom =>
    if q.capacity < 4 then
      .ok (.wait q .condGet (.put .afterBlock () message { out with droppedAmount := 0 }))
    else
      match getRandomMask q rands with
      | .stuck => .stuck
      | .fault e => .fault e
      | .ok mask =>
        .ok (putEnd (q.dropTo (MessageQueue.stay mask q.items) (MessageQueue.gone mask q.items))
          message (report out (q.capacity.tdiv 4) (MessageQueue.gone mask q.items)))
  | .invalid => .ok (.again q (.put .loop () message out))
where
  getRandomMask (q : Queue α) (rands : List Nat) : Outcome MemFault (List Int) :=
    MessageQueue.fillRandIndexes q.capacity (q.capacity.tdiv 4) 0
      (List.replicate q.capacity.toNat 0) rands

/-- What a thread does when it gets the mutex. -/
def segment (rands : List Nat) (k : Kont Unit α) (q : Queue α) : Outcome MemFault (End α) :=
  match k with
  | .put .loop () message out =>
    if q.Full then putFull q rands message out else .ok (putEnd q message out)
  | .put .afterBlock () message out => .ok (putEnd q message out)
  | .get =>
    match q.items with
    | [] => .ok (.wait q .condPut .get)
    | m :: items => .ok (.leave { q with items := items } .condGet (.get .success (some m)))

/-- What a call does before it takes the mutex. -/
def call (c : Call α) (q : Queue α) : Outcome MemFault (Queue α × (Kont Unit α ⊕ Ret α)) :=
  match c with
  | .put none => .ok (q, .inr (.put none { PutOut.start 0 with result := .errNullArgs }))
  | .put (some message) => .ok (q, .inl (.put .loop () message (PutOut.start 0)))
  | .get => .ok (q, .inl .get)

/-- The abstract queue as a monitor. -/
def monitor (α : Type) :
    Monitor (Queue α) (Kont Unit α) CondVar (List Nat) (Call α) (Ret α) MemFault where
  call := call
  segment := segment

/-- The empty queue. -/
def initial (capacity : Int) (schedPolicy : MQSchedPolicy) : Queue α :=
  ⟨capacity, schedPolicy, [], []⟩

/-! ## What a segment can do -/

/-- The possible ends of a segment, one constructor for each branch. -/
inductive Move (q : Queue α) : Kont Unit α → End α → Prop
  | put {message : Message α} {out : PutOut α} (hroom : ¬ q.Full) :
      Move q (.put .loop () message out) (putEnd q message out)
  | putAfterBlock {message : Message α} {out : PutOut α} :
      Move q (.put .afterBlock () message out) (putEnd q message out)
  | block {message : Message α} {out : PutOut α} (hfull : q.Full)
      (hpol : q.schedPolicy = .block) :
      Move q (.put .loop () message out) (.wait q .condGet (.put .loop () message out))
  | dropTail {message : Message α} {out : PutOut α} (hfull : q.Full)
      (hpol : q.schedPolicy = .dropTail) :
      Move q (.put .loop () message out) (.leave (q.dropTo q.items [message]) .condPut
        (.put (some message) { report out 1 [message] with isPutting := false }))
  | dropHead {message m : Message α} {out : PutOut α} {items : List (Message α)} (hfull : q.Full)
      (hpol : q.schedPolicy = .dropHead) (hitems : q.items = m :: items) :
      Move q (.put .loop () message out)
        (.again (q.dropTo items [m]) (.put .loop () message (report out 1 [m])))
  | randomBlock {message : Message α} {out : PutOut α} (hfull : q.Full)
      (hpol : q.schedPolicy = .dropRandom) (hcap : q.capacity < 4) :
      Move q (.put .loop () message out)
        (.wait q .condGet (.put .afterBlock () message { out with droppedAmount := 0 }))
  | dropRandom {message : Message α} {out : PutOut α} {mask : List Int} (hfull : q.Full)
      (hpol : q.schedPolicy = .dropRandom) (hcap : 4 ≤ q.capacity)
      (hlen : mask.length = q.items.length)
      (hcount : (mask.countP (· ≠ 0) : Int) = q.capacity.tdiv 4) :
      Move q (.put .loop () message out)
        (putEnd (q.dropTo (MessageQueue.stay mask q.items) (MessageQueue.gone mask q.items))
          message (report out (q.capacity.tdiv 4) (MessageQueue.gone mask q.items)))
  | spin {message : Message α} {out : PutOut α} (hfull : q.Full)
      (hpol : q.schedPolicy = .invalid) :
      Move q (.put .loop () message out) (.again q (.put .loop () message out))
  | getWait (hitems : q.items = []) : Move q .get (.wait q .condPut .get)
  | get {m : Message α} {items : List (Message α)} (hitems : q.items = m :: items) :
      Move q .get (.leave { q with items := items } .condGet (.get .success (some m)))

/-- A random drop selects a quarter of the places. -/
private theorem mask_spec {q : Queue α} {rands : List Nat} {mask : List Int} (hfull : q.Full)
    (hcap : 4 ≤ q.capacity) (h : putFull.getRandomMask q rands = .ok mask) :
    mask.length = q.items.length ∧ (mask.countP (· ≠ 0) : Int) = q.capacity.tdiv 4 := by
  have hamount : 0 ≤ q.capacity.tdiv 4 := Int.tdiv_nonneg (by omega) (by omega)
  obtain ⟨hlen, hcount⟩ := MessageQueue.fillRandIndexes_spec (by simp) hamount h
  rw [List.length_replicate] at hlen
  simp only [Full] at hfull
  exact ⟨by omega, hcount⟩

/-- A segment of the abstract queue is one of the listed moves. -/
theorem segment_eq_ok {q : Queue α} {rands : List Nat} {k : Kont Unit α} {g : End α}
    (h : (monitor α).segment rands k q = .ok g) : Move q k g := by
  -- The case split follows the branches of `segment` and `putFull`.
  replace h : segment rands k q = .ok g := h
  cases k with
  | get =>
    simp only [segment] at h
    split at h
    · cases h; exact .getWait ‹_›
    · cases h; exact .get ‹_›
  | put point newNode message out =>
    cases point with
    | afterBlock => cases h; exact .putAfterBlock
    | loop =>
      simp only [segment] at h
      split at h
      · rename_i hfull
        simp only [putFull] at h
        split at h
        · cases h; exact .block hfull ‹_›
        · cases h; exact .dropTail hfull ‹_›
        · split at h
          · cases h
          · cases h; exact .dropHead hfull ‹_› ‹_›
        · rename_i hpol
          split at h
          · cases h; exact .randomBlock hfull hpol ‹_›
          · rename_i hcap
            split at h
            · cases h
            · cases h
            · rename_i mask hmask
              cases h
              -- Later proofs need the length and the count of a mask, not how it was drawn.
              obtain ⟨hlen, hcount⟩ := mask_spec hfull (by omega) hmask
              exact .dropRandom hfull hpol (by omega) hlen hcount
        · cases h; exact .spin hfull ‹_›
      · cases h; exact .put ‹_›

/-- A random drop keeps and drops as many messages as there were. -/
theorem length_stay_add_gone {mask : List Int} {items : List (Message α)}
    (hlen : mask.length = items.length) :
    (MessageQueue.stay mask items).length + (MessageQueue.gone mask items).length =
      items.length := by
  have hperm := (pick_perm (p := isClear) hlen).length_eq
  rw [List.length_append] at hperm
  simp only [MessageQueue.stay, MessageQueue.gone]
  omega

/-- The number of messages a mask drops. -/
theorem length_gone {mask : List Int} {items : List (Message α)}
    (hlen : mask.length = items.length) :
    (MessageQueue.gone mask items).length = mask.countP (· ≠ 0) := by
  rw [MessageQueue.gone, length_pick hlen]
  simp [isClear]

/-- A segment never changes the parameters. -/
theorem Move.params {q : Queue α} {k : Kont Unit α} {g : End α} (h : Move q k g) :
    g.data.capacity = q.capacity ∧ g.data.schedPolicy = q.schedPolicy := by
  cases h <;> exact ⟨rfl, rfl⟩

/-- A call never changes the queue. -/
theorem call_eq_ok {q q' : Queue α} {c : Call α} {r : Kont Unit α ⊕ Ret α}
    (h : call c q = .ok (q', r)) : q' = q := by
  unfold call at h
  split at h <;> cases h <;> rfl

/-- Nothing goes wrong, unless the drop-head policy has a queue without any room. -/
theorem segment_ne_fault {q : Queue α} (hcap : q.schedPolicy = .dropHead → q.capacity ≠ 0)
    (rands : List Nat) (k : Kont Unit α) (e : MemFault) : segment rands k q ≠ .fault e := by
  intro h
  cases k with
  | get =>
    simp only [segment] at h
    split at h <;> cases h
  | put point newNode message out =>
    cases point with
    | afterBlock => cases h
    | loop =>
      -- Only a full queue of no capacity or a draw from an empty array could go wrong.
      simp only [segment] at h
      split at h
      · rename_i hfull
        simp only [putFull] at h
        split at h
        · cases h
        · cases h
        · rename_i hpol
          split at h
          · rename_i hitems
            simp only [Full, hitems, List.length_nil] at hfull
            have := hcap hpol
            omega
          · cases h
        · split at h
          · cases h
          · split at h
            · cases h
            · rename_i e' hmask
              exact MessageQueue.fillRandIndexes_ne_fault (by omega) (by simp; omega) e' hmask
            · cases h
        · cases h
      · cases h

variable {Tid : Type} [DecidableEq Tid] [Fintype Tid]

/-- The parameters are the same in every state. -/
theorem exec_params {capacity : Int} {schedPolicy : MQSchedPolicy}
    {acts : List (Monitor.Action Tid (List Nat) (Call α))}
    {s : Monitor.State Tid (Queue α) (Kont Unit α) CondVar} {out : List (Tid × Ret α)}
    (h : (monitor α).machine.exec (Monitor.initial (initial capacity schedPolicy)) acts =
      .ok (s, out)) : s.data.capacity = capacity ∧ s.data.schedPolicy = schedPolicy := by
  refine Monitor.exec_data_invariant
    (P := fun q => q.capacity = capacity ∧ q.schedPolicy = schedPolicy) ?_ ?_ ⟨rfl, rfl⟩ h
  · intro c q q' r hq hc
    rw [call_eq_ok hc]
    exact hq
  · intro rands k q g hq hg
    obtain ⟨hcap, hpol⟩ := (segment_eq_ok hg).params
    exact ⟨hcap.trans hq.1, hpol.trans hq.2⟩

end Queue

end OsWet
