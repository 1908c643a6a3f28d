import OsWet.Spec.QueueRefinement

/-!
# Memory safety of the queue

In every run of `MQPut` and `MQGet` on a queue with room for at least one message,
the list in memory is well formed whenever the mutex is free, and no step follows a
null or dangling pointer or leaves an array.
-/

namespace OsWet.MessageQueue

variable {α Tid : Type} [DecidableEq Tid] [Fintype Tid]

/-- The nodes reachable from `head` are a finite chain without repetitions, of exactly
    `size` nodes; `tail` is the last of them, and an empty queue has null pointers. -/
structure WellFormed (s : QueueMem α) (l : List (Nat × Node α)) : Prop where
  chain : s.nodes.Chain Node.next s.mq.head l none
  acyclic : (l.map Prod.fst).Nodup
  size : s.mq.size = l.length
  empty : s.mq.size = 0 → s.mq.head = none ∧ s.mq.tail = none
  tail : s.mq.size ≠ 0 → ∃ a node, l.getLast? = some (a, node) ∧ s.mq.tail = some a ∧
    s.nodes.cell a = some node ∧ node.next = none

/-- A list in memory is well formed. -/
theorem ListRep.wellFormed {s : QueueMem α} {l : List (Nat × Node α)} (h : ListRep s l) :
    WellFormed s l where
  chain := h.chain
  acyclic := h.chain.nodup
  size := h.size
  empty hsize := by
    have hl : l = [] := List.eq_nil_of_length_eq_zero (by have := h.size; omega)
    subst hl
    exact ⟨h.chain, h.tail⟩
  tail hsize := by
    have hne : l ≠ [] := by
      rintro rfl
      exact hsize h.size
    have hlast : l.getLast? = some (l.getLast hne) := List.getLast?_eq_some_getLast hne
    obtain ⟨hcell, hnext⟩ := h.chain.next_of_getLast? hlast
    exact ⟨_, _, hlast, by rw [h.tail, hlast]; rfl, hcell, hnext⟩

/-- No step of the queue goes wrong from a state that represents an abstract queue, unless
    the drop-head policy has a queue without any room. -/
theorem step_ne_fault {s : Monitor.State Tid (QueueMem α) (Kont Ptr α) CondVar}
    {t : Monitor.State Tid (Queue α) (Kont Unit α) CondVar} (hR : Corresponds s t)
    (hcap : t.data.schedPolicy = .dropHead → t.data.capacity ≠ 0)
    (a : Monitor.Action Tid (List Nat) (Call α)) (e : MemFault) :
    (monitor α .succeed).machine.step s a ≠ .fault e := by
  -- A fault of the code is a fault of the call or of the segment, never of the monitor.
  intro hfault
  rcases monitor_refines.fault hR hfault with ⟨c, hc⟩ | ⟨i, rands, k, -, hseg⟩
  · cases c with
    | get => cases hc
    | put message => cases message <;> cases hc
  · exact Queue.segment_ne_fault hcap rands k e hseg

/-- The representation invariant of the queue, and memory safety of every step. -/
theorem queue_wellFormed (capacity : Int) (schedPolicy : MQSchedPolicy) (hcap : 1 ≤ capacity)
    (acts : List (Monitor.Action Tid (List Nat) (Call α)))
    (s : Monitor.State Tid (QueueMem α) (Kont Ptr α) CondVar) (out : List (Tid × Ret α))
    (h : (monitor α .succeed).machine.exec (Monitor.initial (initialMem capacity schedPolicy))
      acts = .ok (s, out)) :
    (s.lock = none → ∃ l, WellFormed s.data l) ∧
      ∀ a e, (monitor α .succeed).machine.step s a ≠ .fault e := by
  obtain ⟨t, ht, hR⟩ := exec_abstract h
  obtain ⟨l, hrep⟩ := hR.1
  have hcapacity := (Queue.exec_params ht).1
  exact ⟨fun _ => ⟨l, hrep.list.wellFormed⟩, step_ne_fault hR fun _ => by omega⟩

/-- Two threads put two messages into a queue of capacity 2, and one is taken. -/
def twoPutsRun : List (Monitor.Action Bool (List Nat) (Call Nat)) :=
  [.call false (.put (some ⟨10, 0⟩)), .call true (.put (some ⟨20, 1⟩)), .run true [] none,
   .run false [] none, .call true .get, .run true [] none]

theorem queue_wellFormed_twoPutsRun :
    ∃ s out, (monitor Nat .succeed).machine.exec (Monitor.initial (initialMem 2 .block))
        twoPutsRun = .ok (s, out) ∧
      (s.lock = none → ∃ l, WellFormed s.data l) ∧
      ∀ a e, (monitor Nat .succeed).machine.step s a ≠ .fault e :=
  ⟨_, _, rfl, queue_wellFormed 2 .block (by decide) twoPutsRun _ _ rfl⟩

end OsWet.MessageQueue
