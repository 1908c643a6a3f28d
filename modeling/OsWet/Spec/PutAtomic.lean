import OsWet.ForStd.Triple
import OsWet.Spec.QueueHistory

/-!
# `MQPut` when allocations fail

`MQPut` allocates its copy and its node before it takes the mutex, and a failure there
leaves no trace in the queue. The array of random indexes is allocated with the mutex
held, after `droppedAmount` was set; when that fails, `MQPut` returns without releasing
the mutex. The queue may start in any state, and the environment decides for every call
and every segment which allocations succeed.

- `runKont_settled`: how a segment ends when the index array can be allocated
- `put_atomic_iff`: a run is free of the defect exactly when that allocation never fails
-/

namespace OsWet

variable {α : Type}

/-- A call that has returned has completed: `MQPut` with `MQ_SUCCESS` or `MQ_DROP`. -/
def Ret.Completes : Ret α → Prop
  | .put _ out => out.result = .success ∨ out.result = .drop
  | .get _ _ => True

/-- A segment ends with a call that goes on and can only complete, or that has completed
    and releases the mutex. -/
def Exit.Settled : Exit (Kont Ptr α) CondVar (Ret α) → Prop
  | .again k | .wait _ k => k.Completes
  | .leave _ r => r.Completes
  | .escape _ => False

namespace MessageQueue

/-- The thread finds the queue full, has to drop messages at random, and gets no memory for
    the array of random indexes. -/
def IndexesFail (mallocs : Mallocs) (k : Kont Ptr α) (s : QueueMem α) : Prop :=
  mallocs.indexes = false ∧ (∃ newNode message out, k = .put .loop newNode message out) ∧
    s.mq.schedPolicy = .dropRandom ∧ 4 ≤ s.mq.capacity ∧ s.mq.size = s.mq.capacity

/-! ## How the code ends, in any memory -/

section Triples

variable {P : QueueMem α → Prop}

/-- What `MQPut` ends with after it has unlocked the mutex. -/
theorem mqPutLeave_triple (newNode : Ptr) (message : Message α) (out : PutOut α) :
    Triple P (mqPutLeave newNode message out)
      fun e _ => e = .leave .condPut (.put (some message) out) := by
  unfold mqPutLeave
  refine Triple.ite (fun _ => ?_) fun _ => Triple.pure fun _ _ => rfl
  -- Both ways of linking the node come to the same end.
  refine Triple.bind_any fun _ => Triple.bind_any fun s => Triple.ite (fun _ => ?_) fun _ => ?_
  · exact Triple.bind_any fun _ => Triple.pure fun _ _ => rfl
  · exact Triple.bind_any fun _ => Triple.bind_any fun _ => Triple.bind_any fun _ =>
      Triple.pure fun _ _ => rfl

/-- Dropping the new message is reported. -/
theorem putHandleDropTail_triple (newNode : Ptr) (out : PutOut α) :
    Triple P (putHandleDropTail newNode out) fun out' _ => out'.result = .drop := by
  unfold putHandleDropTail
  exact Triple.bind_any fun _ => Triple.bind_any fun _ => Triple.bind_any fun _ =>
    Triple.pure fun _ _ => rfl

/-- Dropping the oldest message is reported. -/
theorem putHandleDropHead_triple (out : PutOut α) :
    Triple P (putHandleDropHead out) fun out' _ => out'.result = .drop := by
  unfold putHandleDropHead
  exact Triple.bind_any fun _ => Triple.bind_any fun _ => Triple.bind_any fun _ =>
    Triple.bind_any fun _ => Triple.bind_any fun _ => Triple.bind_any fun _ =>
      Triple.bind_any fun _ => Triple.pure fun _ _ => rfl

/-- Dropping messages at random is reported. -/
theorem dropSelected_triple (randomIndexes : List Int) (out : PutOut α) :
    Triple P (dropSelected randomIndexes out) fun out' _ => out'.result = .drop := by
  unfold dropSelected
  exact Triple.bind_any fun _ => Triple.bind_any fun _ => Triple.bind_any fun _ =>
    Triple.bind_any fun _ => Triple.bind_any fun _ => Triple.bind_any fun _ =>
      Triple.pure fun _ _ => rfl

/-- With memory for the indexes, a random drop waits or succeeds. -/
theorem putHandleDropRandom_triple (indexesOk : Bool) (rands : List Nat) (out : PutOut α) :
    Triple (fun s => 4 ≤ s.mq.capacity → indexesOk = true)
      (putHandleDropRandom indexesOk rands out) fun r _ =>
        (∃ out', r = .inl out' ∧ out'.result = out.result) ∨
          ∃ out', r = .inr out' ∧ out'.result = .drop := by
  unfold putHandleDropRandom
  refine Triple.get.bind fun s => Triple.ite (fun _ => ?_) fun hcap => ?_
  · exact Triple.pure fun _ _ => .inl ⟨_, rfl, rfl⟩
  · refine (Triple.lift (Q := fun r _ => ∃ mask, r = some mask) ?_).bind fun r => ?_
    · intro r s' hr h
      obtain ⟨rfl, hok⟩ := h
      rw [hok (by omega), getRandomIndexes, if_pos rfl] at hr
      obtain ⟨mask, -, heq⟩ := Outcome.bind_eq_ok.mp hr
      cases heq
      exact ⟨mask, rfl⟩
    · cases r with
      | none =>
        intro s' b s'' h'
        obtain ⟨mask, h⟩ := h'
        cases h
      | some mask =>
        exact (dropSelected_triple mask _).bind fun out' => Triple.pure fun _ h => .inr ⟨_, rfl, h⟩

/-- Linking the node ends a call that can only complete. -/
theorem mqPutLeave_settled {newNode : Ptr} {message : Message α} {out : PutOut α}
    (hout : out.result = .success ∨ out.result = .drop) :
    Triple P (mqPutLeave newNode message out) fun e _ => e.Settled :=
  (mqPutLeave_triple newNode message out).mono (fun _ h => h) fun e _ he => by rw [he]; exact hout

/-- With a result that is settled the rest of `MQPut` gets to its end. -/
theorem mqPutAfterDropRandom_settled {newNode : Ptr} {message : Message α} {out : PutOut α}
    (hout : out.result = .success ∨ out.result = .drop) :
    Triple P (mqPutAfterDropRandom newNode message out) fun e _ => e.Settled := by
  unfold mqPutAfterDropRandom
  refine Triple.ite (fun hfail => ?_) fun _ => mqPutLeave_settled hout
  rw [hfail] at hout
  rcases hout with h | h <;> cases h

/-- One pass of the overload loop, with memory for the indexes. -/
theorem mqPutLoop_settled {mallocs : Mallocs} {rands : List Nat} {newNode : Ptr}
    {message : Message α} {out : PutOut α} (hout : out.result = .success ∨ out.result = .drop) :
    Triple (fun s => ¬ IndexesFail mallocs (.put .loop newNode message out) s)
      (mqPutLoop mallocs.indexes rands newNode message out) fun e _ => e.Settled := by
  unfold mqPutLoop
  -- A queue with room goes to the end of the put; a full one does what the policy says.
  refine Triple.get.bind fun s => Triple.ite (fun hfull => ?_) fun _ => mqPutLeave_settled hout
  cases hpol : s.mq.schedPolicy with
  | block => exact Triple.pure fun _ _ => hout
  | dropTail =>
    exact (putHandleDropTail_triple newNode out).bind_const fun _ h => mqPutLeave_settled (.inr h)
  | dropHead => exact (putHandleDropHead_triple out).bind fun _ => Triple.pure fun _ h => .inr h
  | invalid => exact Triple.pure fun _ _ => hout
  | dropRandom =>
    refine ((putHandleDropRandom_triple mallocs.indexes rands out).mono ?_
      fun _ _ h => h).bind_const fun r hr => ?_
    · -- A queue of four places or more is dropped from, so the indexes were allocated.
      intro s' h hcap
      obtain ⟨rfl, hnot⟩ := h
      by_contra hfail
      exact hnot ⟨Bool.eq_false_iff.mpr hfail, ⟨_, _, _, rfl⟩, hpol, hcap, hfull⟩
    · -- The random drop either waits like a blocked put, or has dropped.
      rcases hr with ⟨out', rfl, hsame⟩ | ⟨out', rfl, hdrop⟩
      · exact Triple.pure fun _ _ => by
          show out'.result = _ ∨ out'.result = _
          rw [hsame]
          exact hout
      · exact mqPutAfterDropRandom_settled (.inr hdrop)

/-- How a segment ends when the index array can be allocated. -/
theorem runKont_settled {mallocs : Mallocs} {rands : List Nat} {k : Kont Ptr α}
    (hk : k.Completes) : Triple (fun s => ¬ IndexesFail mallocs k s) (runKont mallocs rands k)
      fun e _ => e.Settled := by
  cases k with
  | put point newNode message out =>
    cases point with
    | loop => exact mqPutLoop_settled hk
    | afterBlock => exact mqPutAfterDropRandom_settled hk
  | get =>
    simp only [runKont, mqGet]
    refine Triple.bind_any fun s => Triple.ite (fun _ => Triple.pure fun _ _ => trivial) fun _ => ?_
    exact Triple.bind_any fun _ => Triple.bind_any fun _ => Triple.bind_any fun _ =>
      Triple.bind_any fun _ => Triple.bind_any fun _ => Triple.pure fun _ _ => trivial

end Triples

/-- Without memory for the indexes, `MQPut` returns with the mutex, and with a new value of
    `droppedAmount`. -/
theorem runKont_indexesFail {mallocs : Mallocs} {rands : List Nat} {newNode : Ptr}
    {message : Message α} {out : PutOut α} {s : QueueMem α}
    (h : IndexesFail mallocs (.put .loop newNode message out) s) :
    (runKont mallocs rands (.put .loop newNode message out)).run s =
      .ok (.escape (.put (some message)
        { out with result := .errMemoryFail, droppedAmount := s.mq.randomDropCount }), s) := by
  obtain ⟨hfail, -, hpol, hcap, hfull⟩ := h
  simp only [runKont, mqPutLoop, StateT.run_bind, StateT.run_get, Outcome.pure_eq_ok,
    Outcome.ok_bind, if_pos hfull, hpol, putHandleDropRandom, if_neg (Int.not_lt.mpr hcap),
    hfail, getRandomIndexes]
  rfl

/-! ## Calls and segments of the monitor -/

/-- A call enters with nothing to report. One that returns at once leaves the list, the
    counter, the pointers and the caller's `droppedAmount` as they were. -/
theorem call_attempt {i : Attempt α} {s s' : QueueMem α} {r : Kont Ptr α ⊕ Ret α}
    (h : (failingMonitor α).call i s = .ok (s', r)) : (∀ k, r = .inl k → k.Completes) ∧
      ∀ message o, r = .inr (.put message o) →
        o.droppedAmount = i.droppedAmount ∧ s'.mq = s.mq ∧ s'.nodes = s.nodes := by
  obtain ⟨⟨copyOk, nodeOk, indexesOk⟩, droppedAmount, c⟩ := i
  -- A call of `MQGet` keeps what the queue has, and goes on.
  cases c with
  | get =>
    cases h
    refine ⟨?_, fun _ _ h => by cases h⟩
    intro _ h
    obtain ⟨⟩ := h
    trivial
  | put message =>
    cases message with
    | none =>
      cases h
      refine ⟨fun _ h => (by cases h), ?_⟩
      intro _ _ h
      obtain ⟨⟩ := h
      exact ⟨rfl, rfl, rfl⟩
    | some message =>
      -- The copy fails, the node fails, or both allocations succeed.
      cases copyOk with
      | false =>
        cases h
        refine ⟨fun _ h => (by cases h), ?_⟩
        intro _ _ h
        obtain ⟨⟩ := h
        exact ⟨rfl, rfl, rfl⟩
      | true =>
        cases nodeOk with
        | false =>
          cases h
          refine ⟨fun _ h => (by cases h), ?_⟩
          intro _ _ h
          obtain ⟨⟩ := h
          exact ⟨rfl, rfl, rfl⟩
        | true =>
          cases h
          refine ⟨?_, fun _ _ h => by cases h⟩
          intro _ h
          obtain ⟨⟩ := h
          exact .inl rfl

/-- A segment that can allocate the index array settles. -/
theorem segment_settled {x : Mallocs × List Nat} {k : Kont Ptr α} {s : QueueMem α}
    {g : Segment (QueueMem α) (Kont Ptr α) CondVar (Ret α)} (hk : k.Completes)
    (hok : ¬ IndexesFail x.1 k s) (h : (failingMonitor α).segment x k s = .ok g) :
    ∃ e : Exit (Kont Ptr α) CondVar (Ret α), e.Settled ∧ g = e.toSegment g.data := by
  obtain ⟨⟨e, s'⟩, hrun, heq⟩ := Outcome.bind_eq_ok.mp h
  cases heq
  refine ⟨e, runKont_settled hk s e s' hok hrun, ?_⟩
  cases e <;> rfl

/-! ## Runs -/

variable {Tid : Type} [DecidableEq Tid] [Fintype Tid]

/-- What is wanted of a step: a call of `MQPut` that returns in it does not hold the mutex. One
    that returns an error returns from the step in which it was called, and has changed
    neither the queue nor the caller's `droppedAmount`. -/
def PutAtomic (s : Monitor.State Tid (QueueMem α) (Kont Ptr α) CondVar)
    (a : Monitor.Action Tid (Mallocs × List Nat) (Attempt α)) : Prop :=
  ∀ s' out, (failingMonitor α).machine.step s a = .ok (s', out) →
    ∀ t message o, (t, Ret.put message o) ∈ out →
      s'.lock ≠ some t ∧
      (o.result = .errMemoryFail ∨ o.result = .errNullArgs →
        (∃ i, a = .call t i ∧ o.droppedAmount = i.droppedAmount) ∧
          s'.data.mq = s.data.mq ∧ s'.data.nodes = s.data.nodes)

/-- No thread fails to allocate the array of random indexes in this step. -/
def IndexesSucceed (s : Monitor.State Tid (QueueMem α) (Kont Ptr α) CondVar)
    (a : Monitor.Action Tid (Mallocs × List Nat) (Attempt α)) : Prop :=
  ∀ t x woken k, a = .run t x woken → s.runnable t = some k → ¬ IndexesFail x.1 k s.data

/-- Every thread inside can only complete, and the mutex is with a thread inside. -/
structure PutInv (s : Monitor.State Tid (QueueMem α) (Kont Ptr α) CondVar) : Prop where
  completes : ∀ t k, (s.threads t).kont = some k → k.Completes
  lockHeld : s.LockHeld

variable {s s' : Monitor.State Tid (QueueMem α) (Kont Ptr α) CondVar}
  {a : Monitor.Action Tid (Mallocs × List Nat) (Attempt α)} {out : List (Tid × Ret α)}

omit [Fintype Tid] in
/-- A segment of a step in which the indexes are allocated settles. -/
theorem PutInv.segment_settled (hs : PutInv s) (hok : IndexesSucceed s a) {t : Tid}
    {x : Mallocs × List Nat} {woken : Option Tid} {k : Kont Ptr α}
    {g : Segment (QueueMem α) (Kont Ptr α) CondVar (Ret α)} (ha : a = .run t x woken)
    (hrun : s.runnable t = some k) (h : (failingMonitor α).segment x k s.data = .ok g) :
    ∃ e : Exit (Kont Ptr α) CondVar (Ret α), e.Settled ∧ g = e.toSegment g.data :=
  MessageQueue.segment_settled (hs.completes t k (Monitor.State.kont_of_runnable hrun))
    (hok t x woken k ha hrun) h

/-- Steps in which the indexes are allocated keep the invariant. -/
theorem PutInv.step (hs : PutInv s) (hok : IndexesSucceed s a)
    (h : (failingMonitor α).machine.step s a = .ok (s', out)) : PutInv s' where
  completes u k hu := by
    rcases Monitor.step_kont h hu with
      hold | ⟨i, -, hcall⟩ | ⟨x, woken, k₀, g, ha, hrun, hseg, -, hk⟩
    · exact hs.completes u k hold
    · exact (call_attempt hcall).1 k rfl
    · obtain ⟨e, he, hg⟩ := hs.segment_settled hok ha hrun hseg
      rw [hg] at hk
      cases e <;> cases hk <;> exact he
  lockHeld := by
    refine hs.lockHeld.step h fun t x woken k d o ha hrun hseg => ?_
    obtain ⟨e, he, hg⟩ := hs.segment_settled hok ha hrun hseg
    cases e with
    | escape => exact he
    | again | wait | leave => cases hg

/-- Steps in which the indexes are allocated are as wanted. -/
theorem PutInv.putAtomic (hs : PutInv s) (hok : IndexesSucceed s a) : PutAtomic s a := by
  intro s' out h t message o hmem
  cases Monitor.step_iff.mp h with
  | call | again | wait | spurious => cases hmem
  | @refuse u i d r hout hcall =>
    -- The call has not taken the mutex, and nobody outside has it.
    cases List.mem_singleton.mp hmem
    obtain ⟨hamount, hmq, hnodes⟩ := (call_attempt hcall).2 message o rfl
    refine ⟨fun hlock => ?_, fun _ => ⟨⟨i, rfl, hamount⟩, hmq, hnodes⟩⟩
    obtain ⟨k, hk⟩ := hs.lockHeld t hlock
    rw [hout] at hk
    cases hk
  | leave hrun hseg =>
    cases List.mem_singleton.mp hmem
    obtain ⟨e, he, hg⟩ := hs.segment_settled hok rfl hrun hseg
    refine ⟨fun hlock => (by cases hlock), fun herror => ?_⟩
    -- A call that leaves has completed, so there is no error to account for.
    have hresult : o.result = .success ∨ o.result = .drop := by
      cases e <;> cases hg
      exact he
    rcases hresult with hr | hr <;> rw [hr] at herror <;> rcases herror with h | h <;> cases h
  | escape hrun hseg =>
    obtain ⟨e, he, hg⟩ := hs.segment_settled hok rfl hrun hseg
    cases e with
    | escape => exact absurd he id
    | again | wait | leave => cases hg

/-- A step that is as wanted is one in which the indexes are allocated: otherwise the call
    would return with the mutex. -/
theorem PutAtomic.indexesSucceed (h : PutAtomic s a) : IndexesSucceed s a := by
  rintro t x woken k rfl hrun hfail
  obtain ⟨newNode, message, o, rfl⟩ := hfail.2.1
  have hseg : (failingMonitor α).segment x (.put .loop newNode message o) s.data =
      .ok (.escape s.data (.put (some message)
        { o with result := .errMemoryFail, droppedAmount := s.data.mq.randomDropCount })) :=
    segment_run (runKont_indexesFail hfail)
  exact (h _ _ (Monitor.step_iff.mpr (.escape hrun hseg)) t _ _ (List.mem_singleton.mpr rfl)).1 rfl

/-- From any state of the queue, the calls of `MQPut` in a run are atomic on errors and release
    the mutex exactly when no thread that has to drop messages at random fails to allocate
    the array of random indexes. -/
theorem put_atomic_iff (data : QueueMem α)
    (acts : List (Monitor.Action Tid (Mallocs × List Nat) (Attempt α))) :
    (failingMonitor α).machine.EveryStep PutAtomic (Monitor.initial data) acts ↔
      (failingMonitor α).machine.EveryStep IndexesSucceed (Monitor.initial data) acts := by
  refine Machine.everyStep_iff (I := PutInv)
    ⟨fun _ _ h => (by cases h), fun _ h => (by cases h)⟩ ?_ ?_ acts
  · exact fun s a s' o hs hok h => ⟨hs.step hok h, hs.putAtomic hok⟩
  · exact fun s a s' o _ h _ => h.indexesSucceed

/-- Four messages are put into a queue of four places under the random policy, and a fifth
    call has taken its node. -/
def fifthPutRun : List (Monitor.Action Unit (Mallocs × List Nat) (Attempt Nat)) :=
  let put (content : Nat) : Monitor.Action Unit (Mallocs × List Nat) (Attempt Nat) :=
    .call () ⟨.succeed, 0, .put (some ⟨content, 0⟩)⟩
  let run : Monitor.Action Unit (Mallocs × List Nat) (Attempt Nat) := .run () (.succeed, []) none
  [put 0, run, put 1, run, put 2, run, put 3, run, put 4]

/-- Then the index array cannot be allocated: the call returns `MQ_ERR_MEMORY_FAIL` with the
    mutex, and `droppedAmount` has become 1. -/
theorem put_not_atomic :
    ∃ s out s' o, (failingMonitor Nat).machine.exec (Monitor.initial (initialMem 4 .dropRandom))
        fifthPutRun = .ok (s, out) ∧
      (failingMonitor Nat).machine.step s (.run () (⟨true, true, false⟩, []) none) =
        .ok (s', [((), .put (some ⟨4, 0⟩) o)]) ∧
      o.result = .errMemoryFail ∧ s'.lock = some () ∧ o.droppedAmount = 1 :=
  ⟨_, _, _, _, rfl, rfl, rfl, rfl, rfl⟩

end MessageQueue

end OsWet
