import OsWet.Spec.QueueRefinement

/-!
# When the queue stays within its capacity

A putter that waits in the overload loop looks at the size again when it wakes up. One
that waits inside `putHandleDropRandom`, which happens under the random policy with a
capacity below 4, leaves the loop after the wait and appends whatever the size is.
This is the only way to exceed the capacity:

- `queue_bound_iff`: the size stays within the capacity along a run exactly when no
  step of the run resumes such a putter while the queue is full
- `queue_bound`: under every other policy, and from capacity 4 on, it always does
-/

namespace OsWet

namespace Queue

variable {α : Type}

/-- The number of messages is at most the capacity. -/
def Bounded (q : Queue α) : Prop := (q.items.length : Int) ≤ q.capacity

/-- A segment keeps the bound, if it does not append to a full queue behind the wait of
    `putHandleDropRandom`. -/
theorem Move.bounded {q : Queue α} {k : Kont Unit α} {g : End α} (h : Move q k g)
    (hq : q.Bounded) (hok : ∀ message out, k = .put .afterBlock () message out → ¬ q.Full) :
    g.data.Bounded := by
  have hne : ¬ q.Full → (q.items.length : Int) < q.capacity := fun hroom => lt_of_le_of_ne hq hroom
  cases h with
  | put hroom =>
    -- The loop was left, so there was room for one more.
    have := hne hroom
    simp only [Bounded, Segment.data, putEnd, append_items, append_capacity, List.length_append,
      List.length_singleton]
    omega
  | putAfterBlock =>
    -- There is room by assumption: nothing in the code checks it.
    have := hne (hok _ _ rfl)
    simp only [Bounded, Segment.data, putEnd, append_items, append_capacity, List.length_append,
      List.length_singleton]
    omega
  | dropRandom hfull _ hcap hlen hcount =>
    -- A quarter of at least four places is at least one place.
    have hstay := length_stay_add_gone hlen
    rw [length_gone hlen] at hstay
    rw [Int.tdiv_eq_ediv_of_nonneg (by omega)] at hcount
    simp only [Full] at hfull
    simp only [Bounded, Segment.data, putEnd, append_items, append_capacity, dropTo_items,
      dropTo_capacity, List.length_append, List.length_singleton]
    omega
  | dropHead _ _ hitems | get hitems =>
    simp only [Bounded, hitems, List.length_cons] at hq
    simp only [Bounded, Segment.data, dropTo_items, dropTo_capacity]
    omega
  | block | dropTail | randomBlock | spin | getWait => exact hq

variable {Tid : Type} [DecidableEq Tid] [Fintype Tid]

/-- Putters wait inside `putHandleDropRandom` only when the capacity is too small for a
    random drop. -/
theorem small_of_afterBlock {capacity : Int} {schedPolicy : MQSchedPolicy}
    {acts : List (Monitor.Action Tid (List Nat) (Call α))}
    {s : Monitor.State Tid (Queue α) (Kont Unit α) CondVar} {out : List (Tid × Ret α)}
    (h : (monitor α).machine.exec (Monitor.initial (initial capacity schedPolicy)) acts =
      .ok (s, out)) {t : Tid} {message : Message α} {o : PutOut α}
    (ht : (s.threads t).kont = some (.put .afterBlock () message o)) :
    s.data.schedPolicy = .dropRandom ∧ s.data.capacity < 4 := by
  refine Monitor.exec_kont_invariant
    (P := fun q k => (∃ message o, k = .put .afterBlock () message o) →
      q.schedPolicy = .dropRandom ∧ q.capacity < 4) ?_ ?_ h ht ⟨_, _, rfl⟩
  · -- No call enters behind the wait.
    intro c q q' r hc
    have hq := call_eq_ok hc
    subst hq
    refine ⟨fun _ hk => hk, ?_⟩
    rintro k rfl ⟨message, o, rfl⟩
    cases c with
    | get => cases hc
    | put message => cases message <;> cases hc
  · -- The only segment that goes there is `randomBlock`.
    intro rands k q g _ hg
    have hmove := segment_eq_ok hg
    obtain ⟨hcap, hpol⟩ := hmove.params
    refine ⟨fun k' hk' hex => by rw [hcap, hpol]; exact hk' hex, ?_⟩
    intro k' hk' h
    obtain ⟨message, o, rfl⟩ := h
    cases hmove with
    | randomBlock _ hrandom hsmall => exact ⟨hrandom, hsmall⟩
    | _ => cases hk'

/-- Unless the capacity is too small for the random policy, the queue is bounded. -/
theorem exec_bounded {capacity : Int} {schedPolicy : MQSchedPolicy} (hcap : 1 ≤ capacity)
    (hroom : schedPolicy = .dropRandom → 4 ≤ capacity)
    {acts : List (Monitor.Action Tid (List Nat) (Call α))}
    {s : Monitor.State Tid (Queue α) (Kont Unit α) CondVar} {out : List (Tid × Ret α)}
    (h : (monitor α).machine.exec (Monitor.initial (initial capacity schedPolicy)) acts =
      .ok (s, out)) : s.data.Bounded := by
  refine Machine.exec_invariant_reachable (I := fun s _ => s.data.Bounded) ?_ ?_ h
  · simp only [Bounded, Monitor.initial, initial, List.length_nil]
    omega
  · intro ls s out a s' o hexec hs hstep
    rcases Monitor.step_data hstep with ⟨c, r, hc⟩ | ⟨t, rands, woken, k, g, -, hrun, hg, hd⟩ | hd
    · rwa [call_eq_ok hc]
    · rw [← hd]
      refine (segment_eq_ok hg).bounded hs ?_
      rintro message o rfl
      -- A putter behind the wait means a random policy and a small capacity.
      obtain ⟨hpol, hsmall⟩ := small_of_afterBlock hexec (Monitor.State.kont_of_runnable hrun)
      obtain ⟨hcap', hpol'⟩ := exec_params hexec
      have := hroom (hpol'.symm.trans hpol)
      omega
    · rwa [hd]

end Queue

namespace MessageQueue

variable {α Tid : Type} [DecidableEq Tid] [Fintype Tid]

/-- The action lets a putter go on behind the wait of `putHandleDropRandom`. -/
def ResumesRandom (s : Monitor.State Tid (QueueMem α) (Kont Ptr α) CondVar)
    (a : Monitor.Action Tid (List Nat) (Call α)) : Prop :=
  ∃ t rands woken newNode message out, a = .run t rands woken ∧
    s.runnable t = some (.put .afterBlock newNode message out)

/-- The size is within the capacity whenever the mutex is free. -/
def WithinCapacity (s : Monitor.State Tid (QueueMem α) (Kont Ptr α) CondVar) : Prop :=
  s.lock = none → s.data.mq.size ≤ s.data.mq.capacity

/-- A state that corresponds to a bounded abstract queue. -/
private def BoundedState (s : Monitor.State Tid (QueueMem α) (Kont Ptr α) CondVar) : Prop :=
  ∃ t, Corresponds s t ∧ t.data.Bounded

/-- A step keeps the bound, unless it resumes a putter on a full queue. -/
private theorem step_bounded {s s' : Monitor.State Tid (QueueMem α) (Kont Ptr α) CondVar}
    {a : Monitor.Action Tid (List Nat) (Call α)} {o : List (Tid × Ret α)} (h : BoundedState s)
    (hok : ¬ (ResumesRandom s a ∧ s.data.mq.size = s.data.mq.capacity))
    (hstep : (monitor α .succeed).machine.step s a = .ok (s', o)) : BoundedState s' := by
  obtain ⟨t, hR, hbounded⟩ := h
  obtain ⟨t', hstep', hR'⟩ := monitor_refines.simulates _ _ _ _ _ hR hstep
  refine ⟨t', hR', ?_⟩
  rcases Monitor.step_data hstep' with ⟨c, r, hc⟩ | ⟨i, rands, woken, k, g, rfl, hrun, hg, hd⟩ | hd
  · rw [Queue.call_eq_ok hc]
    exact hbounded
  · -- The abstract putter is behind the wait when the putter of the code is.
    rw [← hd]
    refine (Queue.segment_eq_ok hg).bounded hbounded ?_
    rintro message out rfl hfull
    rw [hR.runnable, Option.map_eq_some_iff] at hrun
    obtain ⟨k', hk', hforget⟩ := hrun
    cases k' with
    | get => cases hforget
    | put point newNode message' out' =>
      cases hforget
      obtain ⟨l, hrep⟩ := hR.1
      exact hok ⟨⟨i, rands, woken, _, _, _, rfl, hk'⟩, hrep.full_iff.mpr hfull⟩
  · rw [hd]
    exact hbounded

/-- Resuming a putter on a full queue exceeds the capacity. -/
private theorem step_exceeds {s s' : Monitor.State Tid (QueueMem α) (Kont Ptr α) CondVar}
    {a : Monitor.Action Tid (List Nat) (Call α)} {o : List (Tid × Ret α)} (h : BoundedState s)
    (hbad : ResumesRandom s a ∧ s.data.mq.size = s.data.mq.capacity)
    (hstep : (monitor α .succeed).machine.step s a = .ok (s', o)) : ¬ WithinCapacity s' := by
  obtain ⟨t, hR, -⟩ := h
  obtain ⟨⟨i, rands, woken, newNode, message, out, rfl, hrun⟩, hfull⟩ := hbad
  obtain ⟨t', hstep', hR'⟩ := monitor_refines.simulates _ _ _ _ _ hR hstep
  obtain ⟨l, hrep⟩ := hR.1
  obtain ⟨l', hrep'⟩ := hR'.1
  have hrun' : t.runnable i = some (.put .afterBlock () message out) := by
    rw [hR.runnable, hrun]
    rfl
  rw [hrep.full_iff, Queue.Full] at hfull
  -- The putter appends and leaves, whatever the size is.
  have hleave : t'.lock = none ∧ t'.data = t.data.append message := by
    cases Monitor.step_iff.mp hstep' with
    | leave hr hg _ =>
      cases hrun'.symm.trans hr
      cases Queue.segment_eq_ok hg
      exact ⟨rfl, rfl⟩
    | again hr hg | wait hr hg | escape hr hg =>
      cases hrun'.symm.trans hr
      cases Queue.segment_eq_ok hg
  intro hwithin
  have hle := hwithin (hR'.2.1.symm.trans hleave.1)
  rw [hrep'.size, hrep'.capacity, hleave.2] at hle
  simp only [Queue.append_items, Queue.append_capacity, List.length_append,
    List.length_singleton] at hle
  omega

/-- The size stays within the capacity along a run exactly when no step of the run
    resumes a putter behind the wait of `putHandleDropRandom` on a full queue. -/
theorem queue_bound_iff (capacity : Int) (schedPolicy : MQSchedPolicy) (hcap : 1 ≤ capacity)
    (acts : List (Monitor.Action Tid (List Nat) (Call α))) :
    (monitor α .succeed).machine.EveryState WithinCapacity
        (Monitor.initial (initialMem capacity schedPolicy)) acts ↔
      (monitor α .succeed).machine.EveryStep
        (fun s a => ¬ (ResumesRandom s a ∧ s.data.mq.size = s.data.mq.capacity))
        (Monitor.initial (initialMem capacity schedPolicy)) acts := by
  refine Machine.everyState_iff_everyStep (I := BoundedState) ?_ ?_ ?_ ?_ acts
  · refine ⟨_, corresponds_initial capacity schedPolicy, ?_⟩
    simp only [Queue.Bounded, Monitor.initial, Queue.initial, List.length_nil]
    omega
  · rintro s ⟨t, hR, hbounded⟩ -
    obtain ⟨l, hrep⟩ := hR.1
    rw [hrep.size, hrep.capacity]
    exact hbounded
  · exact fun s a s' o hs hok hstep => step_bounded hs hok hstep
  · exact fun s a s' o hs hbad hstep => step_exceeds hs (not_not.mp hbad) hstep

/-- Under every policy but the random one, and under that from capacity 4 on, the size
    never exceeds the capacity. -/
theorem queue_bound {capacity : Int} {schedPolicy : MQSchedPolicy} (hcap : 1 ≤ capacity)
    (hroom : schedPolicy = .dropRandom → 4 ≤ capacity)
    {acts : List (Monitor.Action Tid (List Nat) (Call α))}
    {s : Monitor.State Tid (QueueMem α) (Kont Ptr α) CondVar} {out : List (Tid × Ret α)}
    (h : (monitor α .succeed).machine.exec (Monitor.initial (initialMem capacity schedPolicy))
      acts = .ok (s, out)) : s.data.mq.size ≤ s.data.mq.capacity := by
  obtain ⟨t, ht, hR⟩ := exec_abstract h
  obtain ⟨l, hrep⟩ := hR.1
  rw [hrep.size, hrep.capacity]
  exact Queue.exec_bounded hcap hroom ht

/-- A run that overfills a random queue of capacity 1. Putter 0 waits; getter 2 makes
    room and signals it; putter 1 takes the place before putter 0 runs again. -/
def overfillRandom : List (Monitor.Action (Fin 3) (List Nat) (Call Nat)) :=
  [.call 1 (.put (some ⟨10, 0⟩)), .run 1 [] none,
   .call 0 (.put (some ⟨20, 1⟩)), .run 0 [] none,
   .call 2 .get, .run 2 [] (some 0),
   .call 1 (.put (some ⟨30, 2⟩)), .run 1 [] none,
   .run 0 [] none]

theorem overfillRandom_exceeds :
    ∃ s out, (monitor Nat .succeed).machine.exec (Monitor.initial (initialMem 1 .dropRandom))
        overfillRandom = .ok (s, out) ∧
      s.lock = none ∧ s.data.mq.size = 2 ∧ s.data.mq.capacity = 1 :=
  ⟨_, _, rfl, rfl, rfl, rfl⟩

/-- The run meets the condition up to its last step. -/
theorem queue_bound_iff_overfillRandom :
    (monitor Nat .succeed).machine.EveryState WithinCapacity
        (Monitor.initial (initialMem 1 .dropRandom)) overfillRandom ↔
      (monitor Nat .succeed).machine.EveryStep
        (fun s a => ¬ (ResumesRandom s a ∧ s.data.mq.size = s.data.mq.capacity))
        (Monitor.initial (initialMem 1 .dropRandom)) overfillRandom :=
  queue_bound_iff 1 .dropRandom (by decide) overfillRandom

end MessageQueue

end OsWet
