import OsWet.Spec.QueueHistory
import OsWet.Spec.QueueWakeup
import OsWet.ForStd.MonitorProgress

/-!
# The queue can always move on

What a segment of the queue costs and pays: dropping messages pays for the rounds in which
the caller closes them, and a message that is put pays for its way through a worker. With
the right values of `rand()` every segment ends.

- `Queue.exists_segment`: a thread that has the mutex can run its segment
- `Queue.Move.put_work`, `Queue.Move.get_work`: the account of a segment
- `Queue.not_someAsleep_of_message`, `Queue.not_someAsleep_of_room`: with nobody awake, a
  message or a free place means that nobody sleeps who waits for it
-/

namespace OsWet

/-- The rounds of the loop that closes what a call has reported so far, with the test that
    ends it. -/
def PutOut.work {α : Type} (out : PutOut α) : Nat :=
  if out.result = .drop then out.droppedAmount.toNat + 1 else 0

/-- The steps that a call still has to make for what it reports. -/
def Kont.work {ν α : Type} : Kont ν α → Nat
  | .put _ _ _ out => out.work
  | .get => 0

namespace Queue

variable {α : Type}

/-- The draws for a random drop can end. -/
private theorem exists_getRandomMask {q : Queue α} (hcap : 4 ≤ q.capacity) :
    ∃ rands mask, putFull.getRandomMask q rands = .ok mask := by
  -- The first quarter of the places is one of the selections that can be drawn.
  obtain ⟨amount, hamount⟩ : ∃ amount : Nat, q.capacity.tdiv 4 = amount :=
    ⟨(q.capacity.tdiv 4).toNat, (Int.toNat_of_nonneg (Int.tdiv_nonneg (by omega) (by omega))).symm⟩
  have hle : (amount : Int) ≤ q.capacity := hamount ▸ Int.tdiv_le_self _ (by omega)
  let mask : List Int := List.replicate amount 1 ++ List.replicate (q.capacity.toNat - amount) 0
  have hlen : (mask.length : Int) = q.capacity := by
    rw [List.length_append, List.length_replicate, List.length_replicate]
    omega
  -- The selection has as many ones as places to drop.
  have hbits : ∀ bit ∈ mask, bit = 0 ∨ bit = 1 := by
    intro bit hbit
    rcases List.mem_append.mp hbit with h | h
    · exact .inr (List.eq_of_mem_replicate h)
    · exact .inl (List.eq_of_mem_replicate h)
  have hcount : mask.countP (· ≠ 0) = amount := by
    rw [List.countP_append, List.countP_replicate, List.countP_replicate]
    simp
  obtain ⟨rands, hrands⟩ := MessageQueue.getRandomIndexes_reaches hlen hbits
  rw [hcount] at hrands
  simp only [MessageQueue.getRandomIndexes, if_true] at hrands
  obtain ⟨filled, hfilled, -⟩ := Outcome.bind_eq_ok.mp hrands
  exact ⟨rands, filled, by rw [putFull.getRandomMask, hamount]; exact hfilled⟩

/-- Every segment ends for some values of `rand()`. -/
theorem exists_segment {q : Queue α} (hcap : 1 ≤ q.capacity) (k : Kont Unit α) :
    ∃ rands g, (monitor α).segment rands k q = .ok g := by
  -- A segment that is not stuck ends, since the abstract queue has no faults.
  have hterminates : ∀ rands, segment rands k q ≠ .stuck →
      ∃ rands g, (monitor α).segment rands k q = .ok g := by
    intro rands hstuck
    cases hseg : segment rands k q with
    | stuck => exact absurd hseg hstuck
    | fault e => exact absurd hseg (segment_ne_fault (fun _ => by omega) rands k e)
    | ok g => exact ⟨rands, g, hseg⟩
  -- `MQGet` and the put after a block draw nothing.
  cases k with
  | get => exact hterminates [] (by simp only [segment]; split <;> simp)
  | put point newNode message out =>
    cases point with
    | afterBlock => exact hterminates [] (by simp [segment])
    | loop =>
      by_cases hdraw : q.schedPolicy = .dropRandom ∧ 4 ≤ q.capacity
      · obtain ⟨hpol, hfour⟩ := hdraw
        -- Some selection can be drawn.
        obtain ⟨rands, mask, hmask⟩ := exists_getRandomMask hfour
        refine hterminates rands ?_
        simp only [segment]
        split
        · simp only [putFull, hpol, if_neg (show ¬ q.capacity < 4 by omega), hmask]
          simp
        · simp
      · -- Only the random policy draws, and only with a capacity of at least 4.
        refine hterminates [] ?_
        simp only [segment]
        split
        · unfold putFull
          split
          · simp
          · simp
          · split <;> simp
          · rename_i hpol
            rw [if_pos (by by_contra hnot; exact hdraw ⟨hpol, by omega⟩)]
            simp
          · simp
        · simp

/-- What a segment returns with. -/
theorem ret_eq (g : End α) : Segment.ret g = End.ret g := by
  cases g <;> rfl

/-! ## The account of a segment -/

/-- A report is one step more than it has dropped messages. -/
theorem work_report {out : PutOut α} {amount : Int} {dropped : List (Message α)} :
    (report out amount dropped).work = amount.toNat + 1 := rfl

/-- A putter that stays inside has paid for what it did unless it sleeps, and one that returns
    has paid for its message, which is worth 11, and for what it has reported. -/
theorem Move.put_work {q : Queue α} {point : PutPoint} {message : Message α} {out : PutOut α}
    {g : End α} (h : Move q (.put point () message out) g) (hpol : q.schedPolicy ≠ .invalid) :
    (∃ point' out', End.ret g = none ∧ g.kont = some (.put point' () message out') ∧
      8 * g.data.items.length + out'.work + (if g.waits then 0 else 1) ≤
        8 * q.items.length + out.work) ∨
    ∃ out', End.ret g = some (.put (some message) out') ∧ g.kont = none ∧ g.waits = false ∧
      8 * g.data.items.length + out'.work < 8 * q.items.length + out.work + 11 := by
  cases h with
  -- The message moves from the put to the queue.
  | put | putAfterBlock =>
    refine .inr ⟨_, rfl, rfl, rfl, ?_⟩
    simp only [putEnd, Segment.data, append_items, List.length_append, List.length_singleton]
    omega
  -- The put sleeps; its work is still to do.
  | block =>
    refine .inl ⟨_, _, rfl, rfl, ?_⟩
    simp [Segment.data, Segment.waits]
  -- The put drops its own message.
  | dropTail =>
    refine .inr ⟨_, rfl, rfl, rfl, ?_⟩
    have hwork : ({ report out 1 [message] with isPutting := false } : PutOut α).work = 2 := rfl
    simp only [hwork, Segment.data, dropTo_items]
    omega
  -- The oldest message goes, and its connection is one to close.
  | dropHead hfull hpol hitems =>
    refine .inl ⟨_, _, rfl, rfl, ?_⟩
    simp only [work_report, Segment.data, dropTo_items, hitems, List.length_cons, Segment.waits]
    simp
    omega
  -- Nothing can be selected, so the put waits.
  | randomBlock =>
    refine .inl ⟨_, _, rfl, rfl, ?_⟩
    have hwork : ({ out with droppedAmount := 0 } : PutOut α).work ≤ out.work := by
      unfold PutOut.work
      split <;> simp_all
    simp only [Segment.data, Segment.waits, if_true]
    omega
  | @dropRandom _ _ mask hfull hpol hcap hlen hcount =>
    -- A quarter of the messages goes, and each of them pays for its own round.
    refine .inr ⟨_, rfl, rfl, rfl, ?_⟩
    have hsplit := length_stay_add_gone hlen
    have hgone := length_gone hlen
    simp only [work_report, putEnd, Segment.data, append_items, dropTo_items, List.length_append,
      List.length_singleton]
    omega
  | spin hfull hinvalid => exact absurd hinvalid hpol

/-- A getter sleeps, or takes a message. -/
theorem Move.get_work {q : Queue α} {g : End α} (h : Move q .get g) :
    (End.ret g = none ∧ g.kont = some .get ∧ g.waits = true ∧ g.data = q) ∨
      ∃ m, End.ret g = some (.get .success (some m)) ∧ g.kont = none ∧ g.waits = false ∧
        g.data.items.length + 1 = q.items.length := by
  cases h with
  | getWait hitems => exact .inl ⟨rfl, rfl, rfl, rfl⟩
  | @get m items hitems =>
    refine .inr ⟨m, rfl, rfl, rfl, ?_⟩
    rw [hitems]
    rfl

/-! ## When nobody is awake -/

section Runs

variable {Tid : Type} [DecidableEq Tid] [Fintype Tid] {capacity : Int} {schedPolicy : MQSchedPolicy}
  {acts : List (Monitor.Action Tid (List Nat) (Call α))} {t : QState Tid α}
  {out : List (Tid × Ret α)}

/-- The mutex is with the thread that holds it. -/
theorem locked (h : (monitor α).machine.exec
      (Monitor.initial (initial capacity schedPolicy)) acts = .ok (t, out)) :
    t.LockHeld ∧ t.LockOwned := by
  refine Machine.exec_invariant_state
    (I := fun t : QState Tid α => t.LockHeld ∧ t.LockOwned) ⟨?_, ?_⟩ ?_ h
  · intro i hi
    cases hi
  · intro i k hi
    cases hi
  · intro t a t' o ht hstep
    refine ⟨ht.1.step hstep ?_, ht.2.step hstep⟩
    intro i rands woken k q r _ _ hseg
    cases segment_eq_ok hseg

/-- While a message is there and nobody is awake, nobody waits for one. -/
theorem not_someAsleep_of_message (h : (monitor α).machine.exec
      (Monitor.initial (initial capacity schedPolicy)) acts = .ok (t, out))
    (hawake : ∀ i, (t.threads i).isAwake = false) (hitems : t.data.items ≠ []) :
    ¬ Monitor.SomeAsleep .condPut t.threads := by
  intro hasleep
  obtain ⟨i, k, hi⟩ := getRule.signalled_of_asleep h (List.length_pos_iff.mpr hitems) hasleep
  have hi' := hawake i
  rw [hi] at hi'
  cases hi'

/-- While there is room and nobody is awake, nobody waits for room. -/
theorem not_someAsleep_of_room (h : (monitor α).machine.exec
      (Monitor.initial (initial capacity schedPolicy)) acts = .ok (t, out))
    (hawake : ∀ i, (t.threads i).isAwake = false)
    (hroom : (t.data.items.length : Int) < t.data.capacity) :
    ¬ Monitor.SomeAsleep .condGet t.threads := by
  intro hasleep
  have hneed : 0 < t.data.freePlaces := by
    rw [freePlaces, if_pos (blocking_of_asleep h hasleep)]
    omega
  obtain ⟨i, k, hi⟩ := putRule.signalled_of_asleep h hneed hasleep
  have hi' := hawake i
  rw [hi] at hi'
  cases hi'

end Runs

end Queue

end OsWet
