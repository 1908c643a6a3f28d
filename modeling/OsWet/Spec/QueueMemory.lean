import OsWet.Native.MessageQueue
import OsWet.ForStd.Pick

/-!
# What the queue code does to memory

`ListRep s l` says that the linked list of the queue in memory `s` consists of the
blocks `l`: they form a chain from `head` to null, `size` counts them, and `tail`
points to the last one. For each piece of the queue code this file gives the memory
it leaves behind when it runs on such a list, which shows at the same time that it
follows no null and no dangling pointer.

The two loops of `putHandleDropRandom` are described by `pick`: the mask splits the
list into the messages that stay and the messages that go.
-/

namespace OsWet.MessageQueue

variable {α : Type}

/-- The linked list in memory consists of the given blocks (address and node). -/
structure ListRep (s : QueueMem α) (l : List (Nat × Node α)) : Prop where
  chain : s.nodes.Chain Node.next s.mq.head l none
  size : s.mq.size = l.length
  tail : s.mq.tail = l.getLast?.map Prod.fst

/-- The messages in a list of blocks. -/
def messagesOf (l : List (Nat × Node α)) : List (Message α) := l.map fun x => x.2.message

/-- The messages on a list, from the first node to the last. -/
@[simp] theorem messagesOf_nil : messagesOf ([] : List (Nat × Node α)) = [] := rfl

@[simp] theorem messagesOf_cons (x : Nat × Node α) (l : List (Nat × Node α)) :
    messagesOf (x :: l) = x.2.message :: messagesOf l := rfl

@[simp] theorem messagesOf_append (l l' : List (Nat × Node α)) :
    messagesOf (l ++ l') = messagesOf l ++ messagesOf l' := List.map_append

@[simp] theorem length_messagesOf (l : List (Nat × Node α)) : (messagesOf l).length = l.length :=
  List.length_map _

/-- The list in memory is what `messages` reads. -/
theorem ListRep.messages_eq {s : QueueMem α} {l : List (Nat × Node α)} (h : ListRep s l) :
    messages s = messagesOf l := by
  unfold messages
  rw [h.chain.walk_eq (by rw [h.size]; simp)]
  rfl

/-! ## Single accesses -/

section Accesses

variable {nodes : Heap (Node α)} {frees : List Nat} {q : MessageQueue} {a : Nat} {node : Node α}

/-- Reading a node that is there. -/
theorem loadNode_run (h : nodes.cell a = some node) :
    (loadNode (some a)).run ⟨nodes, frees, q⟩ = .ok (node, ⟨nodes, frees, q⟩) := by
  simp [loadNode, Heap.load_eq_ok h]

/-- Writing a node that is there. -/
theorem storeNode_run (h : nodes.cell a = some node) (node' : Node α) :
    (storeNode (some a) node').run ⟨nodes, frees, q⟩ =
      .ok ((), ⟨nodes.setCell a (some node') (Heap.lt_next h), frees, q⟩) := by
  simp [storeNode, Heap.store_eq_ok h]

/-- Freeing a node that is there. -/
theorem freeNode_run (h : nodes.cell a = some node) :
    (freeNode (some a)).run ⟨nodes, frees, q⟩ =
      .ok ((), ⟨nodes.setCell a none (Heap.lt_next h), frees, q⟩) := by
  simp [freeNode, Heap.free_eq_ok h]

/-- Freeing a metadata block is noted. -/
@[simp] theorem freeMetaData_run (metaData : Nat) :
    (freeMetaData metaData).run (⟨nodes, frees, q⟩ : QueueMem α) =
      .ok ((), ⟨nodes, frees ++ [metaData], q⟩) := rfl

/-- Assigning fields of the queue. -/
@[simp] theorem modifyQueue_run (f : MessageQueue → MessageQueue) :
    (modifyQueue f).run (⟨nodes, frees, q⟩ : QueueMem α) = .ok ((), ⟨nodes, frees, f q⟩) := rfl

end Accesses

/-- Going from `s` to `s'` changes only the listed nodes, and no parameter of the queue. -/
structure Frame (touched : List Nat) (s s' : QueueMem α) : Prop where
  cell : ∀ b, b ∉ touched → s'.nodes.cell b = s.nodes.cell b
  capacity : s'.mq.capacity = s.mq.capacity
  randomDropCount : s'.mq.randomDropCount = s.mq.randomDropCount
  schedPolicy : s'.mq.schedPolicy = s.mq.schedPolicy

/-! ## Taking the first node off the list -/

/-- The memory after the head was unlinked and freed is the rest of the list. -/
private theorem ListRep.tail_rep {nodes : Heap (Node α)} {frees frees' : List Nat}
    {q : MessageQueue} {a : Nat} {node : Node α} {l : List (Nat × Node α)}
    (h : ListRep ⟨nodes, frees, q⟩ ((a, node) :: l)) (ha : a < nodes.next) :
    ListRep (⟨nodes.setCell a none ha, frees',
      if q.size - 1 = 0 then
        { q with head := node.next, size := q.size - 1, tail := node.next }
      else { q with head := node.next, size := q.size - 1 }⟩ : QueueMem α) l := by
  have hsize : q.size = l.length + 1 := by simpa using h.size
  have hchain : (nodes.setCell a none ha).Chain Node.next node.next l none :=
    h.chain.2.2.setCell (List.nodup_cons.mp h.chain.nodup).1
  -- With one node the queue is empty afterwards and `tail` follows `head` to null.
  cases l with
  | nil =>
    have hnext : node.next = none := h.chain.2.2
    refine ⟨?_, ?_, ?_⟩ <;> simp [hsize, hnext]
  | cons y l =>
    -- Otherwise the last node stays the last one.
    have hne : q.size - 1 ≠ 0 := by rw [hsize, List.length_cons]; omega
    rw [if_neg hne]
    refine ⟨hchain, by simp [hsize], ?_⟩
    show q.tail = _
    rw [show q.tail = _ from h.tail, List.getLast?_cons_cons]

/-- Unlinking the head touches only its own node. -/
private theorem tail_frame {nodes : Heap (Node α)} {frees frees' : List Nat}
    {q : MessageQueue} {a : Nat} {next : Ptr} (ha : a < nodes.next) :
    Frame [a] (⟨nodes, frees, q⟩ : QueueMem α) ⟨nodes.setCell a none ha, frees',
      if q.size - 1 = 0 then { q with head := next, size := q.size - 1, tail := next }
      else { q with head := next, size := q.size - 1 }⟩ where
  cell _ hb := Heap.setCell_cell_of_ne ha (by simpa using hb)
  capacity := by dsimp only; split <;> rfl
  randomDropCount := by dsimp only; split <;> rfl
  schedPolicy := by dsimp only; split <;> rfl

/-- `MQGet` on a nonempty queue takes the first message off it, whether or not there is
    memory for the copy that it returns. -/
theorem mqGet_cons {s : QueueMem α} {a : Nat} {node : Node α} {l : List (Nat × Node α)}
    (h : ListRep s ((a, node) :: l)) (copyOk : Bool) :
    ∃ s', (mqGet copyOk).run s =
        .ok (.leave .condGet (.get .success (messageCopy copyOk node.message)), s') ∧
      ListRep s' l ∧ Frame [a] s s' ∧ s'.metaFrees = s.metaFrees := by
  obtain ⟨nodes, frees, q⟩ := s
  have hcell : nodes.cell a = some node := h.chain.2.1
  have hhead : q.head = some a := h.chain.1
  have hsize : q.size ≠ 0 := by rw [show q.size = _ from h.size, List.length_cons]; omega
  -- The lemmas about single accesses run the code; `tail_rep` reads the memory it leaves.
  refine ⟨_, ?_, h.tail_rep (Heap.lt_next hcell), tail_frame _, rfl⟩
  simp only [mqGet, StateT.run_bind, StateT.run_get, Outcome.pure_eq_ok, Outcome.ok_bind,
    if_neg hsize, hhead, loadNode_run hcell, modifyQueue_run, freeNode_run hcell, StateT.run_pure]

/-- `MQGet` on an empty queue waits. -/
theorem mqGet_nil {s : QueueMem α} (h : ListRep s []) :
    (mqGet true).run s = .ok (.wait .condPut .get, s) := by
  have hsize : s.mq.size = 0 := by simpa using h.size
  simp [mqGet, hsize]

/-- `putHandleDropHead` drops the first message. -/
theorem putHandleDropHead_cons {s : QueueMem α} {a : Nat} {node : Node α}
    {l : List (Nat × Node α)} (h : ListRep s ((a, node) :: l)) (out : PutOut α) :
    ∃ s', (putHandleDropHead out).run s = .ok ({ out.writeDropped 0 node.message.content with
        result := .drop, droppedAmount := 1 }, s') ∧
      ListRep s' l ∧ Frame [a] s s' ∧
      s'.metaFrees = s.metaFrees ++ [node.message.metaData] := by
  obtain ⟨nodes, frees, q⟩ := s
  have hcell : nodes.cell a = some node := h.chain.2.1
  have hhead : q.head = some a := h.chain.1
  refine ⟨_, ?_, h.tail_rep (Heap.lt_next hcell), tail_frame _, rfl⟩
  simp only [putHandleDropHead, StateT.run_bind, StateT.run_get, Outcome.pure_eq_ok,
    Outcome.ok_bind, hhead, loadNode_run hcell, modifyQueue_run, freeMetaData_run,
    freeNode_run hcell, StateT.run_pure]

/-- `putHandleDropHead` on an empty queue follows the null head. -/
theorem putHandleDropHead_nil {s : QueueMem α} (h : ListRep s []) (out : PutOut α) :
    (putHandleDropHead out).run s = .fault .nullPointer := by
  have hhead : s.mq.head = none := h.chain
  simp [putHandleDropHead, hhead, loadNode, Heap.load]

/-- `putHandleDropTail` gives up the new node. -/
theorem putHandleDropTail_run {s : QueueMem α} {b : Nat} {copy : Message α}
    (hb : s.nodes.cell b = some ⟨none, copy⟩) (out : PutOut α) :
    ∃ s', (putHandleDropTail (some b) out).run s = .ok ({ out.writeDropped 0 copy.content with
        isPutting := false, result := .drop, droppedAmount := 1 }, s') ∧
      Frame [b] s s' ∧ s'.mq = s.mq ∧ s'.metaFrees = s.metaFrees ++ [copy.metaData] := by
  obtain ⟨nodes, frees, q⟩ := s
  refine ⟨⟨nodes.setCell b none (Heap.lt_next hb), frees ++ [copy.metaData], q⟩, ?_,
    ⟨fun c hc => Heap.setCell_cell_of_ne (Heap.lt_next hb) (by simpa using hc), rfl, rfl, rfl⟩,
    rfl, rfl⟩
  simp only [putHandleDropTail, StateT.run_bind, Outcome.pure_eq_ok, Outcome.ok_bind,
    loadNode_run hb, freeMetaData_run, freeNode_run hb, StateT.run_pure]

/-! ## Linking the new node -/

/-- `MQPut` links its node behind the last one. -/
theorem mqPutLeave_putting {s : QueueMem α} {l : List (Nat × Node α)} {b : Nat}
    {message copy : Message α} {out : PutOut α} (h : ListRep s l) (hputting : out.isPutting = true)
    (hb : s.nodes.cell b = some ⟨none, copy⟩) (hnew : b ∉ l.map Prod.fst) :
    ∃ s' l', (mqPutLeave (some b) message out).run s =
        .ok (.leave .condPut (.put (some message) out), s') ∧
      ListRep s' l' ∧ messagesOf l' = messagesOf l ++ [copy] ∧
      l'.map Prod.fst = l.map Prod.fst ++ [b] ∧ Frame (l.map Prod.fst) s s' ∧
      s'.metaFrees = s.metaFrees := by
  obtain ⟨nodes, frees, q⟩ := s
  rcases List.eq_nil_or_concat l with rfl | ⟨init, ⟨a, v⟩, rfl⟩
  · -- The queue was empty: the new node is head and tail.
    have hsize : q.size = 0 := by simpa using h.size
    refine ⟨⟨nodes, frees, { q with size := q.size + 1, tail := some b, head := some b }⟩,
      [(b, ⟨none, copy⟩)], ?_, ⟨⟨rfl, hb, rfl⟩, by simp [hsize], rfl⟩, rfl, rfl,
      ⟨fun _ _ => rfl, rfl, rfl, rfl⟩, rfl⟩
    simp only [mqPutLeave, hputting, StateT.run_bind, modifyQueue_run, Outcome.ok_bind,
      StateT.run_get, Outcome.pure_eq_ok, hsize, StateT.run_pure, if_true, Int.zero_add]
  · -- The queue has a last node `a`: its `next` is set to the new node.
    rw [List.concat_eq_append] at h hnew ⊢
    have hcell : nodes.cell a = some v := h.chain.cell_of_mem (x := (a, v)) (by simp)
    have hsize : q.size + 1 ≠ 1 := by
      rw [show q.size = _ from h.size, List.length_append, List.length_singleton]
      omega
    have htail : q.tail = some a := by simpa using h.tail
    have hne : b ≠ a := by
      rintro rfl
      exact hnew (by simp)
    refine ⟨⟨nodes.setCell a (some { v with next := some b }) (Heap.lt_next hcell), frees,
        { q with size := q.size + 1, tail := some b }⟩,
      init ++ [(a, { v with next := some b }), (b, ⟨none, copy⟩)], ?_,
      ⟨h.chain.link_last (Heap.lt_next hcell) rfl hb rfl hne, ?_, ?_⟩, ?_, ?_,
      ⟨fun c hc => Heap.setCell_cell_of_ne (Heap.lt_next hcell) ?_, rfl, rfl, rfl⟩, rfl⟩
    · simp only [mqPutLeave, hputting, StateT.run_bind, modifyQueue_run, Outcome.ok_bind,
        StateT.run_get, Outcome.pure_eq_ok, StateT.run_pure, if_true, if_neg hsize, htail,
        loadNode_run hcell, storeNode_run hcell]
    · have hlen := h.size
      simp only [List.length_append, List.length_cons, List.length_nil] at hlen ⊢
      omega
    · simp
    · simp
    · simp
    · rintro rfl
      exact hc (by simp)

/-- `MQPut` leaves the queue alone when its node was dropped. -/
theorem mqPutLeave_not_putting {s : QueueMem α} {p : Ptr} {message : Message α} {out : PutOut α}
    (hputting : out.isPutting = false) : (mqPutLeave p message out).run s =
      .ok (.leave .condPut (.put (some message) out), s) := by
  simp [mqPutLeave, hputting]

end OsWet.MessageQueue
