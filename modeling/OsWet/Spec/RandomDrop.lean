import OsWet.Spec.QueueMemory

/-!
# The random drop in memory

`putHandleDropRandom` walks the list once: a first loop moves the head over the
selected nodes at the front, a second one unlinks the selected nodes behind the first
node that stays. Both loops are shown to follow only pointers to allocated nodes and
to leave a chain of exactly the nodes whose mask entry is zero; `dropSelected_run` puts
them together.
-/

namespace OsWet

variable {α : Type}

/-- Write contents to consecutive entries of the dropped array. -/
def PutOut.writeAll (out : PutOut α) : Nat → List α → PutOut α
  | _, [] => out
  | i, content :: contents => (out.writeDropped i content).writeAll (i + 1) contents

/-- Writing to the dropped array leaves the other results alone. -/
theorem writeAll_isPutting (out : PutOut α) (i : Nat) (contents : List α) :
    (out.writeAll i contents).isPutting = out.isPutting := by
  induction contents generalizing out i with
  | nil => rfl
  | cons content contents ih => exact ih (out.writeDropped i content) (i + 1)

/-- The amount that is reported does not change what is written. -/
theorem writeAll_droppedAmount (out : PutOut α) (d : Int) (i : Nat) (contents : List α) :
    ({ out with droppedAmount := d } : PutOut α).writeAll i contents =
      { out.writeAll i contents with droppedAmount := d } := by
  induction contents generalizing out i with
  | nil => rfl
  | cons content contents ih => exact ih (out.writeDropped i content) (i + 1)

/-- The mask entries of the messages that stay. -/
def isClear (selected : Int) : Bool := selected = 0

namespace MessageQueue

/-- The messages that a mask selects for dropping. -/
def gone (mask : List Int) (messages : List (Message α)) : List (Message α) :=
  pick (fun selected => !isClear selected) mask messages

/-- The messages that a mask leaves in the queue. -/
def stay (mask : List Int) (messages : List (Message α)) : List (Message α) :=
  pick isClear mask messages

/-- The first loop stops at the first node that stays, which becomes the head. -/
theorem dropSelectedPrefix_run {mask : List Int} {l : List (Nat × Node α)}
    {nodes : Heap (Node α)} (frees : List Nat) (q : MessageQueue) (d : Nat) (out : PutOut α)
    (hchain : nodes.Chain Node.next q.head l none) (hlen : mask.length = l.length)
    (hclear : (0 : Int) ∈ mask) :
    ∃ front a node back sel rest nodes', l = front ++ (a, node) :: back ∧
      mask = sel ++ 0 :: rest ∧ sel.length = front.length ∧ (∀ b ∈ sel, b ≠ 0) ∧
      (dropSelectedPrefix mask q.head d out).run ⟨nodes, frees, q⟩ =
        .ok ((rest, some a, d + front.length,
            out.writeAll d ((messagesOf front).map Message.content)),
          ⟨nodes', frees ++ (messagesOf front).map Message.metaData,
            { q with head := some a, size := q.size - front.length }⟩) ∧
      nodes'.Chain Node.next (some a) ((a, node) :: back) none ∧
      ∀ b, b ∉ front.map Prod.fst → nodes'.cell b = nodes.cell b := by
  -- The induction follows the mask; `d` is the index of the next dropped entry.
  induction mask generalizing l nodes frees q d out with
  -- A mask without a clear entry would lead the loop past the last node.
  | nil => cases hclear
  | cons selected mask ih =>
    cases l with
    | nil => cases hlen
    | cons x l =>
      obtain ⟨a, node⟩ := x
      have hhead : q.head = some a := hchain.1
      have hcell : nodes.cell a = some node := hchain.2.1
      by_cases hsel : selected = 0
      · -- The head stays: the loop stops here.
        refine ⟨[], a, node, l, [], mask, nodes, rfl, by rw [hsel]; rfl, rfl, by simp, ?_, ?_,
          fun _ _ => rfl⟩
        · simp only [dropSelectedPrefix, if_pos hsel, StateT.run_pure, Outcome.pure_eq_ok,
            messagesOf_nil, List.map_nil, List.length_nil, List.append_nil, PutOut.writeAll,
            ← hhead, Int.ofNat_zero, Int.sub_zero, Nat.add_zero]
        · rw [← hhead]; exact hchain
      · -- The head goes: it is freed and the rest is still a chain.
        have hrest : (nodes.setCell a none (Heap.lt_next hcell)).Chain Node.next node.next l none :=
          hchain.2.2.setCell (List.nodup_cons.mp hchain.nodup).1
        have hclear' : (0 : Int) ∈ mask := by
          rcases List.mem_cons.mp hclear with h | h
          · exact absurd h.symm hsel
          · exact h
        obtain ⟨front, a', node', back, sel, rest, nodes', rfl, rfl, hsl, hall, hrun, hch,
          hframe⟩ :=
          ih (frees ++ [node.message.metaData]) { q with head := node.next, size := q.size - 1 }
            (d + 1) (out.writeDropped d node.message.content) hrest (Nat.succ.inj hlen) hclear'
        refine ⟨(a, node) :: front, a', node', back, selected :: sel, rest, nodes', rfl, rfl,
          congrArg Nat.succ hsl, ?_, ?_, hch, ?_⟩
        · intro b hb
          rcases List.mem_cons.mp hb with rfl | hb
          · exact hsel
          · exact hall b hb
        · simp only [dropSelectedPrefix, if_neg hsel, StateT.run_bind, StateT.run_get,
            Outcome.pure_eq_ok, Outcome.ok_bind, hhead, loadNode_run hcell, modifyQueue_run,
            freeMetaData_run, freeNode_run hcell]
          rw [hrun]
          simp only [List.length_cons, messagesOf_cons, List.map_cons, PutOut.writeAll,
            List.append_assoc, List.singleton_append, Nat.add_assoc, Nat.add_comm 1]
          congr 4
          push_cast
          omega
        · intro b hb
          simp only [List.map_cons, List.mem_cons, not_or] at hb
          rw [hframe b hb.2, Heap.setCell_cell_of_ne _ hb.1]

/-- The second loop unlinks the selected nodes behind `a`, which stays. -/
theorem dropSelectedRest_run {mask : List Int} {l : List (Nat × Node α)}
    {nodes : Heap (Node α)} {a : Nat} {node : Node α} (frees : List Nat) (q : MessageQueue)
    (d : Nat) (out : PutOut α) (hchain : nodes.Chain Node.next (some a) ((a, node) :: l) none)
    (hlen : mask.length = l.length) :
    ∃ nodes' node' kept last,
      (dropSelectedRest mask (some a) node.next d out).run ⟨nodes, frees, q⟩ =
        .ok ((some last, out.writeAll d ((gone mask (messagesOf l)).map Message.content)),
          ⟨nodes', frees ++ (gone mask (messagesOf l)).map Message.metaData,
            { q with size := q.size - (gone mask (messagesOf l)).length }⟩) ∧
      nodes'.Chain Node.next (some a) ((a, node') :: kept) none ∧
      node'.message = node.message ∧ messagesOf kept = stay mask (messagesOf l) ∧
      (kept.map Prod.fst).Sublist (l.map Prod.fst) ∧
      (((a, node') :: kept).getLast?.map Prod.fst) = some last ∧
      ∀ b, b ∉ a :: l.map Prod.fst → nodes'.cell b = nodes.cell b := by
  -- The invariant is that `prev` is `a`, the last node so far that stays.
  induction mask generalizing l nodes frees q a node d out with
  | nil =>
    cases List.eq_nil_of_length_eq_zero hlen.symm
    refine ⟨nodes, node, [], a, ?_, hchain, rfl, rfl, List.Sublist.refl _, rfl, fun _ _ => rfl⟩
    simp [dropSelectedRest, gone, PutOut.writeAll]
  | cons selected mask ih =>
    cases l with
    | nil => cases hlen
    | cons x l =>
      obtain ⟨c, nc⟩ := x
      -- The chain visits no address twice, so writing to one node leaves the others.
      obtain ⟨-, hcella, hnext, hcellc, hrest⟩ := hchain
      have hnodup : (((a, node) :: (c, nc) :: l).map Prod.fst).Nodup :=
        Heap.Chain.nodup (h := nodes) (p := some a) ⟨rfl, hcella, hnext, hcellc, hrest⟩
      simp only [List.map_cons, List.nodup_cons, List.mem_cons, not_or] at hnodup
      obtain ⟨⟨hac, hal⟩, hcl, -⟩ := hnodup
      by_cases hsel : selected = 0
      · -- `c` stays: `prev` moves on to it and the node of `a` is not touched again.
        obtain ⟨nodes', nc', kept, last, hrun, hch, hmsg, hkept, hsub, hlast, hframe⟩ :=
          ih frees q d out ⟨rfl, hcellc, hrest⟩ (Nat.succ.inj hlen)
        have hgone : gone (selected :: mask) (messagesOf ((c, nc) :: l)) =
            gone mask (messagesOf l) := by
          simp [gone, isClear, hsel]
        have hstay : stay (selected :: mask) (messagesOf ((c, nc) :: l)) =
            nc.message :: stay mask (messagesOf l) := by
          simp [stay, isClear, hsel]
        refine ⟨nodes', node, (c, nc') :: kept, last, ?_, ⟨rfl, ?_, hnext ▸ hch⟩, rfl, ?_,
          hsub.cons_cons c, ?_, ?_⟩
        · rw [hgone, ← hrun, hnext]
          simp only [dropSelectedRest, StateT.run_bind, loadNode_run hcellc, Outcome.ok_bind,
            if_pos hsel]
        · rw [hframe a (by simp [hac, hal]), hcella]
        · rw [messagesOf_cons, hstay, hkept, hmsg]
        · rw [List.getLast?_cons_cons]; exact hlast
        · intro b hb
          simp only [List.map_cons, List.mem_cons, not_or] at hb
          exact hframe b (by simp [hb.2.1, hb.2.2])
      · -- `c` goes: `a` is linked to what follows `c`.
        have hcellc' : (nodes.setCell a (some { node with next := nc.next })
            (Heap.lt_next hcella)).cell c = some nc := by
          rw [Heap.setCell_cell_of_ne _ (Ne.symm hac), hcellc]
        have hch₂ : ((nodes.setCell a (some { node with next := nc.next })
            (Heap.lt_next hcella)).setCell c none (Heap.lt_next hcellc')).Chain Node.next (some a)
            ((a, { node with next := nc.next }) :: l) none := by
          refine ⟨rfl, ?_, (hrest.setCell hal).setCell hcl⟩
          rw [Heap.setCell_cell_of_ne _ hac, Heap.setCell_cell_self]
        obtain ⟨nodes', node', kept, last, hrun, hch, hmsg, hkept, hsub, hlast, hframe⟩ :=
          ih (frees ++ [nc.message.metaData]) { q with size := q.size - 1 } (d + 1)
            (out.writeDropped d nc.message.content) hch₂ (Nat.succ.inj hlen)
        have hgone : gone (selected :: mask) (messagesOf ((c, nc) :: l)) =
            nc.message :: gone mask (messagesOf l) := by
          simp [gone, isClear, hsel]
        have hstay : stay (selected :: mask) (messagesOf ((c, nc) :: l)) =
            stay mask (messagesOf l) := by
          simp [stay, isClear, hsel]
        refine ⟨nodes', node', kept, last, ?_, hch, hmsg, by rw [hkept, hstay],
          hsub.cons c, hlast, ?_⟩
        · rw [hnext]
          simp only [dropSelectedRest, StateT.run_bind, loadNode_run hcellc, Outcome.ok_bind,
            if_neg hsel, loadNode_run hcella, storeNode_run hcella, freeMetaData_run,
            freeNode_run hcellc', modifyQueue_run]
          rw [hrun, hgone]
          simp only [List.map_cons, PutOut.writeAll, List.append_assoc, List.singleton_append,
            List.length_cons]
          congr 4
          push_cast
          omega
        · intro b hb
          simp only [List.map_cons, List.mem_cons, not_or] at hb
          rw [hframe b (by simp [hb.1, hb.2.2]), Heap.setCell_cell_of_ne _ hb.2.1,
            Heap.setCell_cell_of_ne _ hb.1]

/-- What is written for two lists is written one after the other. -/
theorem writeAll_append (out : PutOut α) (d : Nat) (xs ys : List α) :
    out.writeAll d (xs ++ ys) = (out.writeAll d xs).writeAll (d + xs.length) ys := by
  induction xs generalizing out d with
  | nil => rfl
  | cons x xs ih =>
    simp only [List.cons_append, PutOut.writeAll, ih, List.length_cons]
    congr 1
    omega

/-- At the first node that stays, the mask splits into the dropped front and the rest. -/
private theorem gone_stay_split {sel : List Int} {front : List (Message α)} (rest : List Int)
    (m : Message α) (back : List (Message α)) (hsl : sel.length = front.length)
    (hall : ∀ b ∈ sel, b ≠ 0) :
    gone (sel ++ 0 :: rest) (front ++ m :: back) = front ++ gone rest back ∧
      stay (sel ++ 0 :: rest) (front ++ m :: back) = m :: stay rest back := by
  constructor
  · rw [gone, pick_append hsl, pick_eq_self hsl (by simpa [isClear] using hall)]
    simp [gone, isClear]
  · rw [stay, pick_append hsl, pick_eq_nil (by simpa [isClear] using hall)]
    simp [stay, isClear]

/-- The random drop on a list: the selected messages go, the others stay in order. -/
theorem dropSelected_run {s : QueueMem α} {l : List (Nat × Node α)} {mask : List Int}
    (h : ListRep s l) (hlen : mask.length = l.length) (hclear : (0 : Int) ∈ mask)
    (out : PutOut α) :
    ∃ s' l', (dropSelected mask out).run s =
        .ok ({ out.writeAll 0 ((gone mask (messagesOf l)).map Message.content) with
          result := .drop }, s') ∧
      ListRep s' l' ∧ messagesOf l' = stay mask (messagesOf l) ∧
      (l'.map Prod.fst).Sublist (l.map Prod.fst) ∧ Frame (l.map Prod.fst) s s' ∧
      s'.metaFrees = s.metaFrees ++ (gone mask (messagesOf l)).map Message.metaData := by
  obtain ⟨nodes, frees, q⟩ := s
  -- The first loop stops at `a`; the second one starts from there.
  obtain ⟨front, a, node, back, sel, rest, nodes₁, rfl, rfl, hsl, hall, hrun₁, hch₁, hframe₁⟩ :=
    dropSelectedPrefix_run frees q 0 out h.chain hlen hclear
  have hrest : rest.length = back.length := by
    simp only [List.length_append, List.length_cons] at hlen
    omega
  obtain ⟨nodes₂, node', kept, last, hrun₂, hch₂, hmsg, hkept, hsub, hlast, hframe₂⟩ :=
    dropSelectedRest_run (frees ++ (messagesOf front).map Message.metaData)
      { q with head := some a, size := q.size - front.length } (0 + front.length)
      (out.writeAll 0 ((messagesOf front).map Message.content)) hch₁ hrest
  -- The node after which the second loop stops becomes the tail.
  obtain ⟨⟨b, v⟩, hget, hb⟩ := Option.map_eq_some_iff.mp hlast
  cases hb
  obtain ⟨hcellb, hnextb⟩ : nodes₂.cell b = some v ∧ v.next = none := hch₂.next_of_getLast? hget
  obtain ⟨hgone, hstay⟩ := gone_stay_split rest node.message (messagesOf back)
    (hsl.trans (length_messagesOf front).symm) hall
  simp only [messagesOf_append, messagesOf_cons, hgone, hstay]
  have hsize := h.size
  simp only [List.length_append, List.length_cons] at hsize
  -- What goes and what stays add up to the nodes behind `a`.
  have hsplit : (gone rest (messagesOf back)).length + kept.length = back.length := by
    have hperm := (pick_perm (p := isClear) (l := messagesOf back)
      (by rw [hrest, length_messagesOf])).length_eq
    rw [List.length_append, length_messagesOf] at hperm
    rw [← length_messagesOf kept, hkept]
    exact hperm
  refine ⟨⟨nodes₂, frees ++ (messagesOf front).map Message.metaData ++
      (gone rest (messagesOf back)).map Message.metaData,
      { q with head := some a, tail := some b,
               size := q.size - front.length - (gone rest (messagesOf back)).length }⟩,
    (a, node') :: kept, ?_, ⟨hch₂, ?_, hlast.symm⟩, ?_, ?_, ⟨?_, rfl, rfl, rfl⟩, ?_⟩
  · simp only [dropSelected, StateT.run_bind, StateT.run_get, Outcome.pure_eq_ok, Outcome.ok_bind,
      hrun₁, loadNode_run hch₁.2.1, hrun₂, loadNode_run hcellb, modifyQueue_run, hnextb, if_true,
      StateT.run_pure, List.map_append, writeAll_append, List.length_map, length_messagesOf]
  · simp only [List.length_cons]
    omega
  · rw [messagesOf_cons, hkept, hmsg]
  · simp only [List.map_append, List.map_cons]
    exact List.Sublist.trans (hsub.cons_cons a) (List.sublist_append_right _ _)
  · intro c hc
    simp only [List.map_append, List.map_cons, List.mem_append, List.mem_cons, not_or] at hc
    rw [hframe₂ c (by simp [hc.2.1, hc.2.2]), hframe₁ c hc.1]
  · simp [List.append_assoc]

/-- With room for a random drop, `putHandleDropRandom` draws a mask and follows it. -/
theorem putHandleDropRandom_run {s : QueueMem α} (hcap : ¬ s.mq.capacity < 4) (rands : List Nat)
    (out : PutOut α) :
    (putHandleDropRandom true rands out).run s = (do
      let mask ← fillRandIndexes s.mq.capacity s.mq.randomDropCount 0
        (List.replicate s.mq.capacity.toNat 0) rands
      let (out, s) ← (dropSelected mask { out with droppedAmount := s.mq.randomDropCount }).run s
      return (.inr out, s)) := by
  simp only [putHandleDropRandom, StateT.run_bind, StateT.run_get, Outcome.pure_eq_ok,
    Outcome.ok_bind, if_neg hcap, getRandomIndexes, if_true]
  cases fillRandIndexes s.mq.capacity s.mq.randomDropCount 0
    (List.replicate s.mq.capacity.toNat 0) rands with
  | stuck => rfl
  | fault e => rfl
  | ok mask => rfl

end MessageQueue

end OsWet
