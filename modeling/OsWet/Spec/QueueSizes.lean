import OsWet.Spec.QueueSafety

/-!
# Queue sizes that nobody checks

`getargs` hands `atoi(argv[3])` to `MQCreate` as it is. A negative capacity is never
reached by the counter, and with no room at all the blocking policies wait and
`putHandleDropTail` refuses the message. Only `putHandleDropHead` takes for granted that
a full queue has a head: with a capacity of 0 its first step follows the null pointer.
-/

namespace OsWet.MessageQueue

variable {α Tid : Type}

/-- The queue that `MQCreate` returns, in a memory without nodes. -/
theorem mqCreate_eq_ok {mallocOk : Bool} {queueSize : Int} {schedAlgo : String}
    {mq : MessageQueue} (h : mqCreate mallocOk queueSize schedAlgo = .ok (some mq)) :
    (⟨.empty, [], mq⟩ : QueueMem α) = initialMem queueSize (stringToPolicy schedAlgo) := by
  simp only [mqCreate] at h
  split at h
  · cases h
  · split at h
    · cases h
    · split at h
      · cases h
      · cases h
        rfl

variable [DecidableEq Tid] [Fintype Tid]

/-- With the drop-head policy and no room, a thread that puts a message follows the null
    head as soon as it has the mutex. -/
theorem putHandleDropHead_without_room (t : Tid) (message : Message α) :
    ∃ s, (monitor α .succeed).machine.exec
        (Monitor.initial (initialMem 0 .dropHead)) [.call t (.put (some message))] = .ok (s, []) ∧
      (monitor α .succeed).machine.step s (.run t [] none) = .fault .nullPointer := by
  refine ⟨_, rfl, ?_⟩
  -- The thread is ready with its node, the mutex is free, and zero messages fill the queue.
  simp only [Monitor.machine, Monitor.State.runnable, Monitor.State.setThread, Monitor.initial,
    Function.update_self, if_true]
  rfl

/-- A queue created with any size and any of the policies follows a null pointer in some run
    exactly when the policy is drop-head and the size is 0. -/
theorem queue_never_null_iff [Nonempty Tid] [Nonempty α] (queueSize : Int) (schedAlgo : String)
    (mq : MessageQueue) (hcreate : mqCreate true queueSize schedAlgo = .ok (some mq)) :
    (∀ (acts : List (Monitor.Action Tid (List Nat) (Call α)))
        (s : Monitor.State Tid (QueueMem α) (Kont Ptr α) CondVar) (out : List (Tid × Ret α)),
        (monitor α .succeed).machine.exec (Monitor.initial ⟨.empty, [], mq⟩) acts = .ok (s, out) →
          ∀ a, (monitor α .succeed).machine.step s a ≠ .fault .nullPointer) ↔
      ¬ (stringToPolicy schedAlgo = .dropHead ∧ queueSize = 0) := by
  rw [mqCreate_eq_ok hcreate]
  constructor
  · intro h h'
    obtain ⟨hpol, hsize⟩ := h'
    rw [hpol, hsize] at h
    obtain ⟨t⟩ := ‹Nonempty Tid›
    obtain ⟨content⟩ := ‹Nonempty α›
    obtain ⟨s, hexec, hfault⟩ := putHandleDropHead_without_room t (⟨content, 0⟩ : Message α)
    exact h _ _ _ hexec _ hfault
  · intro hcond acts s out h a
    obtain ⟨t, ht, hR⟩ := exec_abstract h
    -- The size and the policy are those of the creation, so no handler lacks its head.
    obtain ⟨hcapacity, hpol⟩ := Queue.exec_params ht
    refine step_ne_fault hR (fun hhead => ?_) a .nullPointer
    rw [hcapacity]
    intro hzero
    exact hcond ⟨hpol ▸ hhead, hzero⟩

/-- A message goes into a queue of a negative size, and the thread comes back for it. -/
def negativeSizeRun : List (Monitor.Action Unit (List Nat) (Call Nat)) :=
  [.call () (.put (some ⟨7, 0⟩)), .run () [] none, .call () .get]

theorem queue_never_null_negativeSizeRun :
    ∃ s out, (monitor Nat .succeed).machine.exec
        (Monitor.initial ⟨.empty, [], create (-3) .dropRandom⟩) negativeSizeRun = .ok (s, out) ∧
      (monitor Nat .succeed).machine.step s (.run () [] none) ≠ .fault .nullPointer :=
  ⟨_, _, rfl, (queue_never_null_iff (-3) "random" (create (-3) .dropRandom) (by decide)).mpr
    (by decide) negativeSizeRun _ _ rfl _⟩

/-- The first put into a queue of size 0 under the policy `dh` follows the null head. -/
theorem queue_null_dropHead_zero :
    ∃ mq, mqCreate true 0 "dh" = .ok (some mq) ∧
      ∃ s out, (monitor Nat .succeed).machine.exec
          (Monitor.initial ⟨.empty, [], mq⟩) [.call () (.put (some ⟨7, 0⟩))] = .ok (s, out) ∧
        (monitor Nat .succeed).machine.step s (.run () [] none) = .fault .nullPointer :=
  ⟨create 0 .dropHead, by decide, _, _, rfl, rfl⟩

end OsWet.MessageQueue
