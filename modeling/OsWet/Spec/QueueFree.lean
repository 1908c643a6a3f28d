import OsWet.Spec.QueueNodes
import OsWet.Spec.QueueProgress
import OsWet.Spec.QueueRefinement

/-!
# The end of a queue

`MQFree` walks along the list and frees every message with its node. On a list in memory
it follows no pointer to a freed node, and the nodes that are left are those outside the
list. After a run in which every allocation succeeds these are exactly the nodes of the calls
of `MQPut` under way, so that a queue that is freed when nobody is inside leaves nothing behind.
When the array of random indexes gets no memory, a node may be left that nobody knows of
(`OsWet.Spec.QueueNodes`).

- `mqFree_ne_stuck`: there are never more rounds than nodes, whatever the memory looks like
- `queue_freed`: what is freed, and what is left, in every state that a run reaches
-/

namespace OsWet.MessageQueue

variable {α : Type}

/-! ## The loop -/

/-- A loop that has more rounds than there are nodes does not run out of rounds. -/
theorem mqFreeLoop_ne_stuck {rounds : Nat} {p : Ptr} {s : QueueMem α}
    (h : s.nodes.live.card < rounds) : (mqFreeLoop rounds p).run s ≠ .stuck := by
  induction rounds generalizing p s with
  | zero => omega
  | succ rounds ih =>
    cases p with
    | none => exact fun hrun => by cases hrun
    | some a =>
      obtain ⟨nodes, frees, q⟩ := s
      unfold mqFreeLoop
      cases hcell : nodes.cell a with
      | none => simp [loadNode, Heap.load, hcell]
      | some node =>
        simp only [StateT.run_bind, loadNode_run hcell, Outcome.ok_bind, freeMetaData_run,
          freeNode_run hcell]
        apply ih
        -- The node that was freed is one of those counted.
        have hcard := Heap.card_live_free (Heap.free_eq_ok hcell)
        show (nodes.setCell a none (Heap.lt_next hcell)).live.card < rounds
        change nodes.live.card < rounds + 1 at h
        omega

/-- `MQFree` always comes to an end, or follows a dangling pointer. -/
theorem mqFree_ne_stuck (s : QueueMem α) : (mqFree : QueueM α Unit).run s ≠ .stuck :=
  mqFreeLoop_ne_stuck (Nat.lt_succ_of_le s.nodes.card_live_le)

/-- Along a list the loop frees the nodes of the list, and the metadata of their messages
    from the first to the last. -/
theorem mqFreeLoop_run {rounds : Nat} {p : Ptr} {s : QueueMem α} {l : List (Nat × Node α)}
    (hc : s.nodes.Chain Node.next p l none) (hrounds : l.length < rounds) :
    ∃ s', (mqFreeLoop rounds p).run s = .ok ((), s') ∧
      s'.metaFrees = s.metaFrees ++ (messagesOf l).map Message.metaData ∧
      s'.nodes.live = s.nodes.live \ (addrs l).toFinset := by
  induction l generalizing rounds p s with
  | nil =>
    rw [Heap.chain_nil.mp hc]
    exact ⟨s, by cases rounds <;> rfl, by simp, by simp⟩
  | cons x l ih =>
    obtain ⟨nodes, frees, q⟩ := s
    obtain ⟨a, node⟩ := x
    have hnodup := List.nodup_cons.mp hc.nodup
    obtain ⟨rfl, hcell, hrest⟩ := hc
    cases rounds with
    | zero => cases hrounds
    | succ rounds =>
      -- The rest of the list does not pass through the node that is freed first.
      have hrest' : (nodes.setCell a none (Heap.lt_next hcell)).Chain Node.next node.next l none :=
        hrest.setCell hnodup.1
      obtain ⟨s', hrun, hfrees, hlive⟩ := ih
        (s := ⟨nodes.setCell a none (Heap.lt_next hcell), frees ++ [node.message.metaData], q⟩)
        hrest' (Nat.lt_of_succ_lt_succ hrounds)
      refine ⟨s', ?_, ?_, ?_⟩
      · unfold mqFreeLoop
        simp only [StateT.run_bind, loadNode_run hcell, Outcome.ok_bind, freeMetaData_run,
          freeNode_run hcell]
        exact hrun
      · rw [hfrees]
        simp
      · rw [hlive]
        dsimp only
        rw [(Heap.live_free (Heap.free_eq_ok hcell)).2]
        ext b
        simp only [Finset.mem_sdiff, Finset.mem_erase, List.mem_toFinset, List.map_cons,
          List.mem_cons]
        tauto

/-- The nodes of a list are distinct and allocated. -/
theorem ListRep.card_linked {s : QueueMem α} {l : List (Nat × Node α)} (h : ListRep s l) :
    (addrs l).toFinset ⊆ s.nodes.live ∧ (addrs l).toFinset.card = l.length := by
  constructor
  · intro b hb
    obtain ⟨x, hx, rfl⟩ := List.mem_map.mp (List.mem_toFinset.mp hb)
    exact Heap.mem_live_of_cell (h.chain.cell_of_mem hx)
  · rw [List.toFinset_card_of_nodup h.chain.nodup, List.length_map]

/-- `MQFree` on a list in memory frees exactly the list. -/
theorem mqFree_run {s : QueueMem α} {l : List (Nat × Node α)} (h : ListRep s l) :
    ∃ s', (mqFree : QueueM α Unit).run s = .ok ((), s') ∧
      s'.metaFrees = s.metaFrees ++ (messages s).map Message.metaData ∧
      s'.nodes.live = s.nodes.live \ (addrs l).toFinset := by
  rw [h.messages_eq]
  obtain ⟨hsub, hcard⟩ := h.card_linked
  have hle := Finset.card_le_card hsub
  have hnext := s.nodes.card_live_le
  exact mqFreeLoop_run h.chain (by omega)

/-! ## Runs -/

variable {Tid : Type}

/-- The node of a thread inside `MQPut`. -/
def nodeOf (s : Monitor.State Tid (QueueMem α) (Kont Ptr α) CondVar) (t : Tid) : Ptr :=
  (s.threads t).kont.bind Kont.newNode

variable [DecidableEq Tid] [Fintype Tid] {s : Monitor.State Tid (QueueMem α) (Kont Ptr α) CondVar}
  {l : List (Nat × Node α)} {q : Queue α}

/-- The nodes of the threads. -/
def ownedNodes (s : Monitor.State Tid (QueueMem α) (Kont Ptr α) CondVar) : Finset Nat :=
  Finset.univ.biUnion fun t => (nodeOf s t).toFinset

omit [DecidableEq Tid] in
/-- The nodes of the calls that are under way. -/
theorem mem_ownedNodes {b : Nat} : b ∈ ownedNodes s ↔ ∃ t, nodeOf s t = some b := by
  simp [ownedNodes]

omit [DecidableEq Tid] [Fintype Tid] in
/-- The node of a call that is under way. -/
theorem nodeOf_eq_some {t : Tid} {b : Nat} (h : nodeOf s t = some b) :
    ∃ k, (s.threads t).kont = some k ∧ k.newNode = some b :=
  Option.bind_eq_some_iff.mp h

omit [DecidableEq Tid] in
/-- The nodes of the threads are distinct, allocated, and not in the list. -/
theorem Rep.card_owned (h : Rep s.data l (fun t => (s.threads t).kont) q) :
    ownedNodes s ⊆ s.data.nodes.live ∧ Disjoint (addrs l).toFinset (ownedNodes s) ∧
      (ownedNodes s).card = (putters s).card := by
  -- What `OwnsNode` says of the node of a thread.
  have howns : ∀ t b, nodeOf s t = some b → b ∈ s.data.nodes.live ∧ b ∉ addrs l := by
    intro t b hb
    obtain ⟨k, hk, hnode⟩ := nodeOf_eq_some hb
    have hown := h.owns t k hk
    cases k with
    | get => cases hnode
    | put point newNode message out =>
      obtain ⟨b', hb', hcell, hnot, -⟩ := hown
      cases hb'.symm.trans hnode
      exact ⟨Heap.mem_live_of_cell hcell, hnot⟩
  refine ⟨?_, ?_, ?_⟩
  · intro b hb
    obtain ⟨t, ht⟩ := mem_ownedNodes.mp hb
    exact (howns t b ht).1
  · rw [Finset.disjoint_right]
    intro b hb
    obtain ⟨t, ht⟩ := mem_ownedNodes.mp hb
    rw [List.mem_toFinset]
    exact (howns t b ht).2
  · rw [ownedNodes, Finset.card_biUnion, putters, Finset.card_filter]
    · refine Finset.sum_congr rfl fun t _ => ?_
      rw [Option.card_toFinset]
      cases hk : (s.threads t).kont with
      | none => simp [nodeOf, hk]
      | some k =>
        have hown := h.owns t k hk
        cases k with
        | get => simp [nodeOf, hk, Kont.newNode, Kont.nodes]
        | put point newNode message out =>
          obtain ⟨b, rfl, -⟩ := hown
          simp [nodeOf, hk, Kont.newNode, Kont.nodes]
    · -- No two threads have the same node.
      intro t _ u _ hne
      rw [Function.onFun, Finset.disjoint_left]
      intro b hb hb'
      obtain ⟨k, hk, hnode⟩ := nodeOf_eq_some (Option.mem_toFinset.mp hb)
      obtain ⟨k', hk', hnode'⟩ := nodeOf_eq_some (Option.mem_toFinset.mp hb')
      exact hne (h.distinct t u k k' b hk hk' hnode hnode')

/-- In every state reached the nodes are those of the list and those of the threads inside
    `MQPut`. -/
theorem live_eq {capacity : Int} {schedPolicy : MQSchedPolicy}
    {acts : List (Monitor.Action Tid (List Nat) (Call α))} {out : List (Tid × Ret α)}
    (h : (monitor α .succeed).machine.exec (Monitor.initial (initialMem capacity schedPolicy))
      acts = .ok (s, out)) (hseized : s.seized = false)
    (hrep : Rep s.data l (fun t => (s.threads t).kont) q) :
    s.data.nodes.live = (addrs l).toFinset ∪ ownedNodes s := by
  obtain ⟨hlinked, hlength⟩ := hrep.list.card_linked
  obtain ⟨howned, hdisjoint, hputters⟩ := hrep.card_owned
  symm
  apply Finset.eq_of_subset_of_card_le (Finset.union_subset hlinked howned)
  have hbalance := ((accountRule_succeed α).exec h).balance
  have hstart : unlinked (initialMem capacity schedPolicy : QueueMem α) = 0 := rfl
  have hsize := hrep.list.size
  rw [hstart, total_nodes, unlinked, hseized] at hbalance
  rw [Finset.card_union_of_disjoint hdisjoint, hlength, hputters]
  simp only [Bool.false_eq_true, if_false] at hbalance
  omega

/-- In every state that a run reaches, `MQFree` frees the messages of the queue in order and
    exactly the nodes of the list: the nodes that are left are those of the calls of `MQPut`
    under way. -/
theorem queue_freed (capacity : Int) (schedPolicy : MQSchedPolicy)
    (acts : List (Monitor.Action Tid (List Nat) (Call α)))
    (s : Monitor.State Tid (QueueMem α) (Kont Ptr α) CondVar) (out : List (Tid × Ret α))
    (h : (monitor α .succeed).machine.exec (Monitor.initial (initialMem capacity schedPolicy))
      acts = .ok (s, out)) :
    ∃ s', (mqFree : QueueM α Unit).run s.data = .ok ((), s') ∧
      s'.metaFrees = s.data.metaFrees ++ (messages s.data).map Message.metaData ∧
      ∀ b, b ∈ s'.nodes.live ↔ ∃ t, nodeOf s t = some b := by
  obtain ⟨t, ht, hrelated⟩ := exec_abstract h
  obtain ⟨l, hrep⟩ := hrelated.1
  have hseized : s.seized = false := by
    -- The abstract queue has the same owner of the mutex, and there it is a thread that runs.
    have habstract := (Queue.locked ht).1.seized_eq
    rw [Monitor.State.seized, hrelated.2.1, hrelated.2.2] at habstract
    simpa only [Status.isHolding_map, Monitor.State.seized] using habstract
  obtain ⟨s', hrun, hfrees, hlive⟩ := mqFree_run hrep.list
  refine ⟨s', hrun, hfrees, fun b => ?_⟩
  have hdisjoint := hrep.card_owned.2.1
  rw [hlive, live_eq h hseized hrep, ← mem_ownedNodes, Finset.union_sdiff_left,
    sdiff_eq_left.mpr hdisjoint.symm]

/-- Two messages are in the queue, and one thread is on the way to put a third. -/
def pendingPutRun : List (Monitor.Action Bool (List Nat) (Call Nat)) :=
  [.call false (.put (some ⟨10, 4⟩)), .call true (.put (some ⟨20, 5⟩)), .run true [] none,
   .run false [] none, .call true (.put (some ⟨30, 6⟩))]

theorem queue_freed_pendingPutRun : ∃ s out,
    (monitor Nat .succeed).machine.exec (Monitor.initial (initialMem 3 .block)) pendingPutRun =
      .ok (s, out) ∧ nodeOf s true = some 2 ∧
    ∃ s', (mqFree : QueueM Nat Unit).run s.data = .ok ((), s') ∧
      s'.metaFrees = s.data.metaFrees ++ (messages s.data).map Message.metaData ∧
      ∀ b, b ∈ s'.nodes.live ↔ ∃ t, nodeOf s t = some b :=
  ⟨_, _, rfl, rfl, queue_freed 3 .block pendingPutRun _ _ rfl⟩

end OsWet.MessageQueue
