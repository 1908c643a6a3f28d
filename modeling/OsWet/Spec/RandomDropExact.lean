import OsWet.Spec.QueueHistory

/-!
# The random drop, for every mask

`getRandomIndexes` can draw every mask with a quarter of its bits set, and for each of
them `MQPut` on a full queue leaves exactly the messages whose bit is clear, in their
order, with the new message behind them. The messages whose bit is set are the ones it
reports, in the order of the queue.
-/

namespace OsWet.MessageQueue

variable {α : Type}

/-- In a mask of bits the set entries are the ones. -/
theorem countP_eq_count_one {mask : List Int} (hbits : ∀ bit ∈ mask, bit = 0 ∨ bit = 1) :
    mask.countP (· ≠ 0) = mask.count 1 := by
  refine List.countP_congr fun bit hbit => ?_
  rcases hbits bit hbit with rfl | rfl <;> decide

/-- The end of the list in memory is where `tail` points. -/
theorem ListRep.tail_of_addrs {s : QueueMem α} {l : List (Nat × Node α)} {addresses : List Nat}
    {b : Nat} (h : ListRep s l) (hl : l.map Prod.fst = addresses ++ [b]) :
    s.mq.tail = some b := by
  rw [h.tail, ← List.getLast?_map, hl, List.getLast?_concat]

/-- What `MQPut` does under the random policy when it gets the mutex, finds the queue full,
    and draws `mask`: `b` is its new node. -/
theorem segment_dropRandom {s : QueueMem α} {l : List (Nat × Node α)} {mask : List Int}
    {rands : List Nat} {b : Nat} {message : Message α} {out : PutOut α} (hlist : ListRep s l)
    (hcap : 4 ≤ s.mq.capacity) (hfull : s.mq.size = s.mq.capacity)
    (hpol : s.mq.schedPolicy = .dropRandom) (hrandom : s.mq.randomDropCount = s.mq.capacity.tdiv 4)
    (hnode : s.nodes.cell b = some ⟨none, message⟩) (hnew : b ∉ l.map Prod.fst)
    (hputting : out.isPutting = true)
    (hmask : getRandomIndexes true s.mq.capacity s.mq.randomDropCount rands = .ok (some mask)) :
    ∃ s' l', (monitor α .succeed).segment rands (.put .loop (some b) message out) s =
        .ok (.leave s' .condPut (.put (some message)
          (Queue.report out s.mq.randomDropCount (gone mask (messagesOf l))))) ∧
      ListRep s' l' ∧ messagesOf l' = stay mask (messagesOf l) ++ [message] ∧
      s'.mq.tail = some b := by
  have hamount : 0 ≤ s.mq.randomDropCount := by
    rw [hrandom]
    exact Int.tdiv_nonneg (by omega) (by omega)
  obtain ⟨hmasklen, hcount⟩ := getRandomIndexes_spec hamount hmask
  -- The queue is full, so the mask has one bit for each node.
  have hlen : mask.length = l.length := by
    have := hlist.size
    omega
  have hfill : fillRandIndexes s.mq.capacity s.mq.randomDropCount 0
      (List.replicate s.mq.capacity.toNat 0) rands = .ok mask := by
    simp only [getRandomIndexes, if_true] at hmask
    obtain ⟨filled, hfill, heq⟩ := Outcome.bind_eq_ok.mp hmask
    cases heq
    exact hfill
  -- First the drop and then the link of the new node, which the drop has not touched.
  obtain ⟨s₁, l₁, hrun, hlist₁, hstay, hsub, hframe, -⟩ :=
    mqPutLoop_dropRandom (some b) message out hlist hfull hpol (by omega) hlen
      (zero_mem_mask hcap hmasklen (hcount.trans hrandom)) hfill
  have hnode₁ : s₁.nodes.cell b = some ⟨none, message⟩ := (hframe.cell b hnew).trans hnode
  have hputting₁ : (Queue.report out s.mq.randomDropCount
      (gone mask (messagesOf l))).isPutting = true := (writeAll_isPutting _ _ _).trans hputting
  obtain ⟨s₂, l₂, hleave, hlist₂, hitems, haddrs, -, -⟩ :=
    @mqPutLeave_putting _ _ _ _ message _ _ hlist₁ hputting₁ hnode₁
      fun hb => hnew (hsub.subset hb)
  refine ⟨s₂, l₂, ?_, hlist₂, ?_, hlist₂.tail_of_addrs haddrs⟩
  · rw [segment_run (hrun.trans hleave)]
    rfl
  · -- What stays is what the mask says.
    rw [hitems, hstay]

/-- `MQPut` called on a full queue of at least four places under the random policy: it
    can draw every mask with a quarter of the bits set, and whenever it draws `mask`, the
    queue ends with the messages whose bit is clear and then the new message, and the
    dropped array holds the contents of the messages whose bit is set. -/
theorem random_drop_exact {s : QueueMem α} {l : List (Nat × Node α)} (hlist : ListRep s l)
    (hcap : 4 ≤ s.mq.capacity) (hfull : s.mq.size = s.mq.capacity)
    (hpol : s.mq.schedPolicy = .dropRandom) (hrandom : s.mq.randomDropCount = s.mq.capacity.tdiv 4)
    (mask : List Int) (hlen : (mask.length : Int) = s.mq.capacity)
    (hbits : ∀ bit ∈ mask, bit = 0 ∨ bit = 1) (hones : (mask.count 1 : Int) = s.mq.capacity / 4)
    (message : Message α) :
    (∃ rands, getRandomIndexes true s.mq.capacity s.mq.randomDropCount rands = .ok (some mask)) ∧
      ∃ s₁ k, (monitor α .succeed).call (.put (some message)) s = .ok (s₁, .inl k) ∧
        ∀ rands, getRandomIndexes true s.mq.capacity s.mq.randomDropCount rands =
            .ok (some mask) →
          ∃ s' l' out, (monitor α .succeed).segment rands k s₁ =
              .ok (.leave s' .condPut (.put (some message) out)) ∧
            ListRep s' l' ∧ messagesOf l' = stay mask (messagesOf l) ++ [message] ∧
            s'.mq.size = (messagesOf l').length ∧
            k.newNode ≠ none ∧ s'.mq.tail = k.newNode ∧
            out.result = .drop ∧ out.droppedAmount = s.mq.capacity / 4 ∧
            (List.range out.droppedAmount.toNat).map out.dropped =
              (gone mask (messagesOf l)).map fun m => some m.content := by
  have hquarter : s.mq.capacity.tdiv 4 = s.mq.capacity / 4 :=
    Int.tdiv_eq_ediv_of_nonneg (by omega)
  have hcount := countP_eq_count_one hbits
  constructor
  · -- Every mask with the right number of bits can be drawn.
    obtain ⟨rands, hrands⟩ := getRandomIndexes_reaches hlen hbits
    refine ⟨rands, ?_⟩
    rw [hcount, hones, ← hquarter, ← hrandom] at hrands
    exact hrands
  · obtain ⟨nodes, frees, q⟩ := s
    -- The call allocates the new node and leaves the queue as it was.
    have hnode : (nodes.alloc ⟨none, message⟩).2.cell nodes.next = some ⟨none, message⟩ :=
      Heap.alloc_cell_self nodes ⟨none, message⟩
    -- The new node is not in the list.
    have hfresh : nodes.cell nodes.next = none := nodes.fresh nodes.next le_rfl
    have hnew : nodes.next ∉ l.map Prod.fst := by
      intro hmem
      obtain ⟨x, hx, hxb⟩ := List.mem_map.mp hmem
      have hcell := hlist.chain.cell_of_mem hx
      rw [hxb, hfresh] at hcell
      cases hcell
    have hlist₁ : ListRep ⟨(nodes.alloc ⟨none, message⟩).2, frees, q⟩ l := by
      refine ⟨hlist.chain.frame fun x hx => ?_, hlist.size, hlist.tail⟩
      have hcell := hlist.chain.cell_of_mem hx
      rw [hcell, Heap.alloc_cell_of_some _ hcell]
    refine ⟨_, .put .loop (some nodes.next) message (PutOut.start 0), rfl, fun rands hmask => ?_⟩
    obtain ⟨s', l', hrun, hlist', hitems, htail⟩ := segment_dropRandom hlist₁ hcap hfull hpol
      hrandom hnode hnew (show (PutOut.start 0 : PutOut α).isPutting = true from rfl) hmask
    -- The report names as many messages as are gone.
    have hgone : q.randomDropCount = ((gone mask (messagesOf l)).length : Int) := by
      have hlen' : mask.length = (messagesOf l).length := by
        have := hlist.size
        rw [length_messagesOf]
        dsimp only at this hfull hlen
        omega
      rw [Queue.length_gone hlen', hcount, hrandom, hquarter, hones]
    have hreport := Queue.report_reported (PutOut.start 0 : PutOut α) hgone
    have hresult : (Queue.report (PutOut.start 0 : PutOut α) q.randomDropCount
        (gone mask (messagesOf l))).result = .drop := rfl
    rw [PutOut.reported, if_pos hresult] at hreport
    refine ⟨s', l', _, hrun, hlist', hitems, ?_, ?_, htail, rfl, ?_, hreport⟩
    · rw [length_messagesOf]
      exact hlist'.size
    · exact Option.some_ne_none _
    · exact hrandom.trans hquarter

/-- The nodes of a queue of four messages, at the addresses 0 to 3. -/
def fourNodes : List (Nat × Node Nat) :=
  [(0, ⟨some 1, ⟨10, 0⟩⟩), (1, ⟨some 2, ⟨11, 1⟩⟩), (2, ⟨some 3, ⟨12, 2⟩⟩), (3, ⟨none, ⟨13, 3⟩⟩)]

/-- A full queue of capacity 4 under the random policy. -/
def fullRandomQueue : QueueMem Nat where
  nodes := fourNodes.foldl (fun nodes x => (nodes.alloc x.2).2) .empty
  metaFrees := []
  mq := ⟨4, 4, 1, some 0, some 3, .dropRandom⟩

/-- The last message goes: the mask selects the tail. -/
theorem random_drop_exact_fullRandomQueue :
    (∃ rands, getRandomIndexes true 4 1 rands = .ok (some [0, 0, 0, 1])) ∧
      ∃ s₁ k, (monitor Nat .succeed).call (.put (some ⟨14, 4⟩)) fullRandomQueue =
          .ok (s₁, .inl k) ∧
        ∀ rands, getRandomIndexes true 4 1 rands = .ok (some [0, 0, 0, 1]) →
          ∃ s' l' out, (monitor Nat .succeed).segment rands k s₁ =
              .ok (.leave s' .condPut (.put (some ⟨14, 4⟩) out)) ∧
            ListRep s' l' ∧
            messagesOf l' = stay [0, 0, 0, 1] (messagesOf fourNodes) ++ [⟨14, 4⟩] ∧
            s'.mq.size = (messagesOf l').length ∧
            k.newNode ≠ none ∧ s'.mq.tail = k.newNode ∧
            out.result = .drop ∧ out.droppedAmount = 4 / 4 ∧
            (List.range out.droppedAmount.toNat).map out.dropped =
              (gone [0, 0, 0, 1] (messagesOf fourNodes)).map fun m => some m.content :=
  random_drop_exact (s := fullRandomQueue) (l := fourNodes)
    ⟨⟨rfl, rfl, rfl, rfl, rfl, rfl, rfl, rfl, rfl⟩, rfl, rfl⟩ (by decide) rfl rfl rfl
    [0, 0, 0, 1] rfl (by decide) rfl ⟨14, 4⟩

end OsWet.MessageQueue
