import OsWet.ForStd.HeapLive
import OsWet.ForStd.MonitorAccount
import OsWet.ForStd.Triple
import OsWet.Native.MessageQueue
import Mathlib.Algebra.BigOperators.Ring.Finset

/-!
# Where the nodes of the queue are

`MQPut` allocates a node before it takes the mutex; from then on the node belongs to the
call, to the list, or to nobody. `size` counts the nodes in the list, so the nodes that
are allocated beyond `size` must belong to the calls under way. They do, whatever
allocations fail, but for one: a call of `MQPut` that gets no memory for the random indexes
returns with the mutex and without its node. Nothing runs after that.

- `queue_nodes_accounted`: every node allocated is counted by `size`, or held by a call of
  `MQPut` that has not returned, but for the one lost with the mutex
-/

namespace OsWet

variable {α : Type}

/-- A thread inside `MQPut` still has to link its node. -/
def Kont.isPutting : Kont Ptr α → Prop
  | .put _ _ _ out => out.isPutting = true
  | .get => True

/-- How many nodes a thread inside the monitor holds. -/
def Kont.nodes : Kont Ptr α → Int
  | .put _ _ _ _ => 1
  | .get => 0

/-- How many nodes there are beyond those in the list when a segment has ended. -/
def Exit.nodes : Exit (Kont Ptr α) CondVar (Ret α) → Int
  | .again k | .wait _ k => k.nodes
  | .leave _ _ => 0
  -- the node of the call is lost
  | .escape _ => 1

/-- The call goes on with its node still to be linked. -/
def Exit.isPutting : Exit (Kont Ptr α) CondVar (Ret α) → Prop
  | .again k | .wait _ k => k.isPutting
  | .leave _ _ | .escape _ => True

namespace MessageQueue

/-- The nodes that are allocated beyond those that `size` counts. -/
def unlinked (s : QueueMem α) : Int := s.nodes.live.card - s.mq.size

/-! ## Memory accesses -/

section Accesses

variable {P : QueueMem α → Prop} {n : Int} {p : Ptr}

/-- A load that returns has followed a pointer to a node. -/
theorem loadNode_triple : Triple P (loadNode p) fun _ s => P s ∧ p ≠ none := by
  intro s node s' hs hrun
  simp only [loadNode, StateT.run_bind, StateT.run_get, Outcome.pure_eq_ok, StateT.run_monadLift,
    monadLift_self, Outcome.ok_bind] at hrun
  obtain ⟨v, hload, heq⟩ := Outcome.bind_eq_ok.mp hrun
  cases heq
  obtain ⟨a, -, rfl⟩ := Heap.mem_live_of_load hload
  exact ⟨hs, by simp⟩

/-- Writing a node links nothing and unlinks nothing. -/
theorem storeNode_triple {node : Node α} : Triple (fun s => unlinked s = n) (storeNode p node)
    fun _ s => unlinked s = n := by
  intro s b s' hs hrun
  simp only [storeNode, StateT.run_bind, StateT.run_get, Outcome.pure_eq_ok, StateT.run_monadLift,
    monadLift_self, StateT.run_set, bind_assoc, Outcome.ok_bind] at hrun
  obtain ⟨v, hstore, heq⟩ := Outcome.bind_eq_ok.mp hrun
  cases heq
  simpa [unlinked, Heap.live_store hstore] using hs

/-- A node that is freed is one unlinked node less. -/
theorem freeNode_triple (hp : p ≠ none) :
    Triple (fun s : QueueMem α => unlinked s = n) (freeNode p) fun _ s => unlinked s = n - 1 := by
  intro s b s' hs hrun
  obtain ⟨a, rfl⟩ := Option.ne_none_iff_exists'.mp hp
  simp only [freeNode, StateT.run_bind, StateT.run_get, Outcome.pure_eq_ok, StateT.run_monadLift,
    monadLift_self, StateT.run_set, bind_assoc, Outcome.ok_bind] at hrun
  obtain ⟨v, hfree, heq⟩ := Outcome.bind_eq_ok.mp hrun
  cases heq
  have hcard := Heap.card_live_free hfree
  simp only [unlinked] at hs ⊢
  omega

/-- Freeing metadata does not touch the nodes. -/
theorem freeMetaData_triple {metaData : Nat} :
    Triple (fun s : QueueMem α => unlinked s = n) (freeMetaData metaData)
      fun _ s => unlinked s = n := by
  intro s b s' hs hrun
  cases hrun
  exact hs

/-- A queue that counts more nodes has fewer unlinked ones. -/
theorem modifyQueue_triple {f : MessageQueue → MessageQueue} {d : Int}
    (hf : ∀ q, (f q).size = q.size + d) :
    Triple (fun s : QueueMem α => unlinked s = n) (modifyQueue f)
      fun _ s => unlinked s = n - d := by
  intro s b s' hs hrun
  cases hrun
  simp only [unlinked, hf] at *
  omega

/-- A new node is not linked yet. -/
theorem mallocNode_triple {node : Node α} : Triple (fun s => unlinked s = n) (mallocNode node)
    fun _ s => unlinked s = n + 1 := by
  intro s p s' hs hrun
  cases hrun
  simp only [unlinked, Heap.card_live_alloc] at *
  omega

/-- What does not change `size` changes no account. -/
theorem modifyQueue_same {f : MessageQueue → MessageQueue} (hf : ∀ q, (f q).size = q.size) :
    Triple (fun s : QueueMem α => unlinked s = n) (modifyQueue f) fun _ s => unlinked s = n := by
  intro s b s' hs hrun
  cases hrun
  simpa only [unlinked, hf] using hs

end Accesses

/-! ## The code of the queue -/

section Code

variable {n : Int}

/-- `putHandleDropTail` frees the node of the call. -/
theorem putHandleDropTail_nodes (newNode : Ptr) (out : PutOut α) :
    Triple (fun s => unlinked s = n + 1) (putHandleDropTail newNode out)
      fun out' s => unlinked s = n ∧ out'.isPutting = false := by
  unfold putHandleDropTail
  refine loadNode_triple.bind fun node => Triple.given fun hnode => ?_
  refine freeMetaData_triple.bind fun _ => (freeNode_triple hnode).bind fun _ => ?_
  exact Triple.pure fun s hs => ⟨by omega, rfl⟩

/-- `putHandleDropHead` frees the node that it takes off the list. -/
theorem putHandleDropHead_nodes (out : PutOut α) :
    Triple (fun s => unlinked s = n) (putHandleDropHead out)
      fun out' s => unlinked s = n ∧ out'.isPutting = out.isPutting := by
  unfold putHandleDropHead
  refine Triple.get_bind fun mem => loadNode_triple.bind fun node => Triple.given fun hnode => ?_
  refine (modifyQueue_same fun _ => by rfl).bind fun _ => freeMetaData_triple.bind fun _ => ?_
  refine (freeNode_triple hnode).bind fun _ =>
    (modifyQueue_triple (d := -1) fun _ => by rfl).bind ?_
  refine fun _ => (modifyQueue_same fun q => ?_).bind fun _ => Triple.pure fun s hs => ?_
  · split <;> rfl
  · exact ⟨by omega, rfl⟩

/-- So does the first loop of the random drop, in every round. -/
theorem dropSelectedPrefix_nodes (randomIndexes : List Int) (iterator : Ptr) (droppedIndex : Nat)
    (out : PutOut α) : Triple (fun s => unlinked s = n)
      (dropSelectedPrefix randomIndexes iterator droppedIndex out)
      fun r s => unlinked s = n ∧ r.2.2.2.isPutting = out.isPutting := by
  induction randomIndexes generalizing iterator droppedIndex out with
  | nil =>
    intro s r s' _ hrun
    cases hrun
  | cons selected randomIndexes ih =>
    unfold dropSelectedPrefix
    refine Triple.ite (fun _ => Triple.pure fun s hs => ⟨hs, rfl⟩) fun _ => ?_
    refine Triple.get_bind fun mem => loadNode_triple.bind fun node => Triple.given fun hnode => ?_
    refine (modifyQueue_same fun _ => by rfl).bind fun _ => ?_
    refine (modifyQueue_triple (d := -1) fun _ => by rfl).bind fun _ => loadNode_triple.bind ?_
    refine fun _ => Triple.given fun _ => (freeMetaData_triple (n := n - -1)).bind fun _ => ?_
    refine (freeNode_triple hnode).bind fun _ => ?_
    rw [show n - -1 - 1 = n by omega]
    exact ih _ _ _

/-- The loop over the random indexes frees what it unlinks. -/
theorem dropSelectedRest_nodes (randomIndexes : List Int) (prev iterator : Ptr)
    (droppedIndex : Nat) (out : PutOut α) : Triple (fun s => unlinked s = n)
      (dropSelectedRest randomIndexes prev iterator droppedIndex out)
      fun r s => unlinked s = n ∧ r.2.isPutting = out.isPutting := by
  induction randomIndexes generalizing prev iterator droppedIndex out with
  | nil => exact Triple.pure fun s hs => ⟨hs, rfl⟩
  | cons selected randomIndexes ih =>
    unfold dropSelectedRest
    refine loadNode_triple.bind fun node => Triple.given fun hnode => Triple.ite (fun _ => ?_) ?_
    · exact ih _ _ _ _
    · refine fun _ => loadNode_triple.bind fun _ => Triple.given fun _ => ?_
      refine storeNode_triple.bind fun _ => freeMetaData_triple.bind fun _ => ?_
      refine (freeNode_triple hnode).bind fun _ => ?_
      refine (modifyQueue_triple (d := -1) fun _ => by rfl).bind fun _ => ?_
      rw [show n - 1 - -1 = n by omega]
      exact ih _ _ _ _

/-- So does the whole random drop. -/
theorem dropSelected_nodes (randomIndexes : List Int) (out : PutOut α) :
    Triple (fun s => unlinked s = n) (dropSelected randomIndexes out)
      fun out' s => unlinked s = n ∧ out'.isPutting = out.isPutting := by
  unfold dropSelected
  refine Triple.get_bind fun mem => (dropSelectedPrefix_nodes _ _ _ _).bind fun r => ?_
  refine Triple.given fun hprefix => loadNode_triple.bind fun _ => Triple.given fun _ => ?_
  refine (dropSelectedRest_nodes _ _ _ _ _).bind fun r' => Triple.given fun hrest => ?_
  refine loadNode_triple.bind fun _ => Triple.given fun _ => ?_
  refine (modifyQueue_same fun q => ?_).bind fun _ => Triple.pure fun s hs => ?_
  · split <;> rfl
  · exact ⟨hs, hrest.trans hprefix⟩

/-- And the handler around it, with or without its array. -/
theorem putHandleDropRandom_nodes (indexesOk : Bool) (rands : List Nat) (out : PutOut α) :
    Triple (fun s => unlinked s = n) (putHandleDropRandom indexesOk rands out)
      fun r s => unlinked s = n ∧ (r.elim id id).isPutting = out.isPutting := by
  unfold putHandleDropRandom
  refine Triple.get_bind fun mem => Triple.ite (fun _ => Triple.pure fun s hs => ⟨hs, rfl⟩) ?_
  refine fun _ => (Triple.lift fun _ _ _ hs => hs).bind fun r => ?_
  cases r with
  | none => exact Triple.pure fun s hs => ⟨hs, rfl⟩
  | some randomIndexes =>
    exact (dropSelected_nodes _ _).bind fun out' => Triple.pure fun s hs => hs

/-- Linking the node takes it off the account of the call. -/
theorem mqPutLeave_nodes (newNode : Ptr) (message : Message α) (out : PutOut α) :
    Triple (fun s => unlinked s = n + if out.isPutting then 1 else 0)
      (mqPutLeave newNode message out) fun e s => unlinked s = n + e.nodes ∧ e.isPutting := by
  have hleave : Triple (fun s => unlinked s = n)
      (pure (.leave .condPut (.put (some message) out)) :
        QueueM α (Exit (Kont Ptr α) CondVar (Ret α)))
      fun e s => unlinked s = n + e.nodes ∧ e.isPutting :=
    Triple.pure fun s hs => ⟨by rw [hs, Exit.nodes, Int.add_zero], trivial⟩
  unfold mqPutLeave
  refine Triple.ite (fun hputting => ?_) fun hputting => ?_
  · rw [if_pos hputting]
    refine (modifyQueue_triple (d := 1) fun _ => by rfl).bind fun _ => ?_
    rw [Int.add_sub_cancel]
    refine Triple.get_bind fun mem => Triple.ite (fun _ => ?_) fun _ => ?_
    · exact (modifyQueue_same fun _ => by rfl).bind fun _ => hleave
    · refine loadNode_triple.bind fun last => Triple.given fun _ => ?_
      refine storeNode_triple.bind fun _ => (modifyQueue_same fun _ => by rfl).bind fun _ => hleave
  · rw [if_neg hputting, Int.add_zero]
    exact hleave

/-- So does a return without the index array, which loses the node instead. -/
theorem mqPutAfterDropRandom_nodes (newNode : Ptr) (message : Message α) {out : PutOut α}
    (hputting : out.isPutting = true) : Triple (fun s => unlinked s = n + 1)
      (mqPutAfterDropRandom newNode message out)
      fun e s => unlinked s = n + e.nodes ∧ e.isPutting := by
  unfold mqPutAfterDropRandom
  refine Triple.ite (fun _ => Triple.pure fun s hs => ⟨hs, trivial⟩) fun _ => ?_
  have hleave := mqPutLeave_nodes (n := n) newNode message out
  rwa [if_pos hputting] at hleave

/-- A pass of the overload loop links the node of the call, frees it, keeps it or loses it
    with the mutex. -/
theorem mqPutLoop_nodes (indexesOk : Bool) (rands : List Nat) (newNode : Ptr) (message : Message α)
    {out : PutOut α} (hputting : out.isPutting = true) : Triple (fun s => unlinked s = n + 1)
      (mqPutLoop indexesOk rands newNode message out)
      fun e s => unlinked s = n + e.nodes ∧ e.isPutting := by
  unfold mqPutLoop
  -- Full or not, and if it is full, the policy decides.
  refine Triple.get_bind fun mem => Triple.ite (fun _ => ?_) fun _ => ?_
  · cases mem.mq.schedPolicy with
    -- The put sleeps or spins, with its node in hand.
    | block | invalid => exact Triple.pure fun s hs => ⟨hs, hputting⟩
    | dropTail =>
      -- Drop tail frees the node: the put is over.
      refine (putHandleDropTail_nodes newNode out).bind fun out' => Triple.given fun hout => ?_
      have hleave := mqPutLeave_nodes (n := n) newNode message out'
      rwa [hout, if_neg Bool.false_ne_true, Int.add_zero] at hleave
    | dropHead =>
      -- The oldest message was freed, and the put tries again.
      refine (putHandleDropHead_nodes out).bind fun out' => Triple.given fun hout => ?_
      exact Triple.pure fun s hs => ⟨hs, hout.trans hputting⟩
    | dropRandom =>
      -- Random: the put sleeps like a blocked one, or goes on behind the drop.
      refine (putHandleDropRandom_nodes indexesOk rands out).bind fun r => Triple.given fun h => ?_
      cases r with
      | inl out' => exact Triple.pure fun s hs => ⟨hs, h.trans hputting⟩
      | inr out' => exact mqPutAfterDropRandom_nodes newNode message (h.trans hputting)
  · have hleave := mqPutLeave_nodes (n := n) newNode message out
    rwa [if_pos hputting] at hleave

/-- `MQGet` frees the node that it takes off the list. -/
theorem mqGet_nodes (copyOk : Bool) : Triple (fun s : QueueMem α => unlinked s = n) (mqGet copyOk)
    fun e s => unlinked s = n + e.nodes ∧ e.isPutting := by
  unfold mqGet
  refine Triple.get_bind fun mem => Triple.ite (fun _ => Triple.pure fun s hs => ?_) fun _ => ?_
  · exact ⟨by simpa [Exit.nodes, Kont.nodes] using hs, trivial⟩
  · refine loadNode_triple.bind fun node => Triple.given fun hnode => ?_
    refine (modifyQueue_same fun _ => by rfl).bind fun _ => (freeNode_triple hnode).bind fun _ => ?_
    refine (modifyQueue_triple (d := -1) fun _ => by rfl).bind fun _ => ?_
    refine (modifyQueue_same fun q => ?_).bind fun _ => Triple.pure fun s hs => ⟨?_, trivial⟩
    · split <;> rfl
    · rw [hs, Exit.nodes]
      omega

/-- A segment moves nodes between the list and the thread that runs it. -/
theorem runKont_nodes (mallocs : Mallocs) (rands : List Nat) {k : Kont Ptr α} (hk : k.isPutting) :
    Triple (fun s => unlinked s = n + k.nodes) (runKont mallocs rands k)
      fun e s => unlinked s = n + e.nodes ∧ e.isPutting := by
  cases k with
  | get =>
    refine (mqGet_nodes mallocs.copy).mono (fun s hs => ?_) fun _ _ h => h
    rwa [Kont.nodes, Int.add_zero] at hs
  | put point newNode message out =>
    cases point with
    | loop => exact mqPutLoop_nodes mallocs.indexes rands newNode message hk
    | afterBlock => exact mqPutAfterDropRandom_nodes newNode message hk

end Code

/-! ## Runs -/

/-- A call that goes for the mutex has allocated its node, and one that returns at once has
    allocated none. -/
theorem mqPutEnter_nodes (mallocs : Mallocs) (message : Option (Message α))
    (droppedAmount n : Int) : Triple (fun s => unlinked s = n)
      (mqPutEnter mallocs message (PutOut.start droppedAmount))
      fun r s => unlinked s = n + r.elim Kont.nodes (fun _ => 0) ∧
        ∀ k, r = .inl k → k.isPutting := by
  -- A put that returns at once has no node.
  have hreturn : ∀ r : Ret α, Triple (fun s : QueueMem α => unlinked s = n)
      (pure (.inr r) : QueueM α (Kont Ptr α ⊕ Ret α))
      fun r s => unlinked s = n + r.elim Kont.nodes (fun _ => 0) ∧
        ∀ k, r = .inl k → k.isPutting :=
    fun r => Triple.pure fun s hs => ⟨by rw [hs, Sum.elim_inr, Int.add_zero], fun _ h => by cases h⟩
  unfold mqPutEnter
  -- A null message, a copy that fails and a node that fails each return at once.
  cases message with
  | none => exact hreturn _
  | some message =>
    dsimp only
    cases messageCopy mallocs.copy message with
    | none => exact hreturn _
    | some copy =>
      refine Triple.ite (fun _ => ?_) fun _ => freeMetaData_triple.bind fun _ => hreturn _
      refine mallocNode_triple.bind fun newNode => Triple.pure fun s hs => ⟨hs, ?_⟩
      intro k hk
      cases hk
      rfl

/-- Calls and segments move nodes between the list and the threads. -/
theorem accountRule (α : Type) :
    Monitor.AccountRule (failingMonitor α) Kont.isPutting unlinked Kont.nodes 1 where
  -- A call that begins holds the node that `malloc` has given.
  call i s d k h := by
    obtain ⟨⟨r, s'⟩, hrun, heq⟩ := Outcome.bind_eq_ok.mp h
    cases heq
    obtain ⟨mallocs, droppedAmount, c⟩ := i
    cases c with
    | get =>
      cases hrun
      exact ⟨trivial, (Int.add_zero _).symm⟩
    | put message =>
      obtain ⟨hnodes, hputting⟩ := mqPutEnter_nodes mallocs message droppedAmount _ s _ d rfl hrun
      exact ⟨hputting k rfl, hnodes⟩
  -- A call that returns at once holds none.
  refuse i s d o h := by
    obtain ⟨⟨r, s'⟩, hrun, heq⟩ := Outcome.bind_eq_ok.mp h
    cases heq
    obtain ⟨mallocs, droppedAmount, c⟩ := i
    cases c with
    | get => cases hrun
    | put message =>
      have hnodes := (mqPutEnter_nodes mallocs message droppedAmount _ s _ d rfl hrun).1
      rwa [Sum.elim_inr, Int.add_zero] at hnodes
  -- A segment passes the node on, links it, or gives it up.
  segment x k s g hk h := by
    obtain ⟨⟨e, s'⟩, hrun, heq⟩ := Outcome.bind_eq_ok.mp h
    cases heq
    have hnodes := runKont_nodes (n := unlinked s - k.nodes) x.1 x.2 hk s e s' (by omega) hrun
    cases e with
    -- The call goes on with what it holds.
    | again k' | wait c k' =>
      refine ⟨?_, ?_⟩
      · intro k₁ hk₁
        cases hk₁
        exact hnodes.2
      · have hbalance := hnodes.1
        simp only [Exit.nodes, Exit.toSegment, Segment.data, Segment.kont, Segment.loss,
          Monitor.heldBy_some] at *
        omega
    -- The call is over, and what it held is linked, freed or lost.
    | leave c o | escape o =>
      refine ⟨fun _ hk₁ => (by cases hk₁), ?_⟩
      have hbalance := hnodes.1
      simp only [Exit.nodes, Exit.toSegment, Segment.data, Segment.kont, Segment.loss,
        Monitor.heldBy_none] at *
      omega

/-- The same, when every allocation succeeds. -/
theorem accountRule_succeed (α : Type) :
    Monitor.AccountRule (monitor α .succeed) Kont.isPutting unlinked Kont.nodes 1 where
  call i s d k h := (accountRule α).call ⟨.succeed, 0, i⟩ s d k (by cases i <;> exact h)
  refuse i s d o h := (accountRule α).refuse ⟨.succeed, 0, i⟩ s d o (by cases i <;> exact h)
  segment rands k s g hk h := (accountRule α).segment (.succeed, rands) k s g hk h

variable {Tid : Type} [DecidableEq Tid] [Fintype Tid]

/-- The threads inside `MQPut`. -/
def putters (s : Monitor.State Tid (QueueMem α) (Kont Ptr α) CondVar) : Finset Tid :=
  Finset.univ.filter fun t => (s.threads t).kont.any fun k => k.nodes = 1

omit [DecidableEq Tid] in
/-- Each call of `MQPut` under way has one node. -/
theorem total_nodes (s : Monitor.State Tid (QueueMem α) (Kont Ptr α) CondVar) :
    Monitor.total Kont.nodes s.threads = (putters s).card := by
  rw [putters, Finset.natCast_card_filter, Monitor.total]
  refine Finset.sum_congr rfl fun t _ => ?_
  cases (s.threads t).kont with
  | none => rfl
  | some k => cases k <;> rfl

/-- No node is ever lost but one, and that one together with the mutex: in every state
    reached, whatever allocations failed on the way, a node that is allocated is one that `size`
    counts or that of a call of `MQPut` under way. -/
theorem queue_nodes_accounted (capacity : Int) (schedPolicy : MQSchedPolicy)
    (acts : List (Monitor.Action Tid (Mallocs × List Nat) (Attempt α)))
    (s : Monitor.State Tid (QueueMem α) (Kont Ptr α) CondVar) (out : List (Tid × Ret α))
    (h : (failingMonitor α).machine.exec (Monitor.initial (initialMem capacity schedPolicy))
      acts = .ok (s, out)) :
    (s.data.nodes.live.card : Int) =
      s.data.mq.size + (putters s).card + if s.seized then 1 else 0 := by
  have hbalance := ((accountRule α).exec h).balance
  have hstart : unlinked (initialMem capacity schedPolicy : QueueMem α) = 0 := rfl
  rw [hstart, total_nodes, unlinked] at hbalance
  omega

/-- Two threads put five messages into a queue of four places under the random policy, and
    the last call gets no memory for the indexes; the other thread has called once more. -/
def lostNodeRun : List (Monitor.Action Bool (Mallocs × List Nat) (Attempt Nat)) :=
  let put (t : Bool) : Monitor.Action Bool (Mallocs × List Nat) (Attempt Nat) :=
    .call t ⟨.succeed, 0, .put (some ⟨7, 0⟩)⟩
  let run (t : Bool) : Monitor.Action Bool (Mallocs × List Nat) (Attempt Nat) :=
    .run t (⟨true, true, false⟩, []) none
  [put false, put true, run true, run false, put false, put true, run true, run false, put true,
    put false, run true]

theorem queue_nodes_accounted_lostNodeRun : ∃ s out,
    (failingMonitor Nat).machine.exec (Monitor.initial (initialMem 4 .dropRandom)) lostNodeRun =
      .ok (s, out) ∧ s.seized = true ∧
    (s.data.nodes.live.card : Int) =
      s.data.mq.size + (putters s).card + if s.seized then 1 else 0 :=
  ⟨_, _, rfl, rfl, queue_nodes_accounted 4 .dropRandom lostNodeRun _ _ rfl⟩

end MessageQueue

end OsWet
