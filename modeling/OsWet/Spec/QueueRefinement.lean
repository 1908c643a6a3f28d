import OsWet.Spec.QueueModel
import OsWet.Spec.RandomIndexes
import OsWet.ForStd.MonitorRefinement

/-!
# The code refines the abstract queue

The memory of `message_queue.c` represents an abstract queue when the linked list
holds its messages in order and every thread inside `MQPut` owns a node of its own,
outside the list, with its message. Every call and every segment keeps this, and
returns what the abstract monitor returns.

- `monitor_refines`: the two monitors match, call by call and segment by segment
- `exec_abstract`: a run of the code is a run of the abstract queue
-/

namespace OsWet

/-- Forget the new node of a putter. -/
def Kont.forget {α : Type} : Kont Ptr α → Kont Unit α
  | .put point _ message out => .put point () message out
  | .get => .get

/-- The node a thread inside the monitor owns. -/
def Kont.newNode {α : Type} : Kont Ptr α → Ptr
  | .put _ newNode _ _ => newNode
  | .get => none

namespace MessageQueue

variable {α : Type} {Tid : Type}

/-- The addresses of the blocks of a list. -/
abbrev addrs (l : List (Nat × Node α)) : List Nat := l.map Prod.fst

/-- A thread inside `MQPut` owns an allocated node with its message, outside the list. -/
def OwnsNode (s : QueueMem α) (l : List (Nat × Node α)) : Kont Ptr α → Prop
  | .put _ newNode message out => ∃ b, newNode = some b ∧ s.nodes.cell b = some ⟨none, message⟩ ∧
      b ∉ addrs l ∧ out.isPutting = true ∧ out.result ≠ .errMemoryFail
  | .get => True

/-- The memory `s`, with the nodes `l` in the list and the threads inside the monitor
    at `ks`, represents the abstract queue `q`. -/
structure Rep (s : QueueMem α) (l : List (Nat × Node α)) (ks : Tid → Option (Kont Ptr α))
    (q : Queue α) : Prop where
  list : ListRep s l
  items : messagesOf l = q.items
  capacity : s.mq.capacity = q.capacity
  randomDropCount : s.mq.randomDropCount = q.capacity.tdiv 4
  schedPolicy : s.mq.schedPolicy = q.schedPolicy
  metaFrees : s.metaFrees = q.metaFrees
  owns : ∀ t k, ks t = some k → OwnsNode s l k
  distinct : ∀ t t' k k' b, ks t = some k → ks t' = some k' → k.newNode = some b →
    k'.newNode = some b → t = t'

/-- Some list of nodes represents the queue. -/
def Represents (s : QueueMem α) (ks : Tid → Option (Kont Ptr α)) (q : Queue α) : Prop :=
  ∃ l, Rep s l ks q

/-- There is a node for each message. -/
theorem Rep.length_items {s : QueueMem α} {l : List (Nat × Node α)}
    {ks : Tid → Option (Kont Ptr α)} {q : Queue α} (h : Rep s l ks q) :
    q.items.length = l.length := by
  rw [← h.items, length_messagesOf]

/-- The size counts the messages. -/
theorem Rep.size {s : QueueMem α} {l : List (Nat × Node α)} {ks : Tid → Option (Kont Ptr α)}
    {q : Queue α} (h : Rep s l ks q) : s.mq.size = q.items.length := by
  rw [h.length_items]
  exact h.list.size

/-- The queue is full in memory exactly when the abstract one is. -/
theorem Rep.full_iff {s : QueueMem α} {l : List (Nat × Node α)} {ks : Tid → Option (Kont Ptr α)}
    {q : Queue α} (h : Rep s l ks q) : s.mq.size = s.mq.capacity ↔ q.Full := by
  rw [h.size, h.capacity, Queue.Full]

/-- The node of a putter is in none of the places that a frame condition speaks of. -/
private theorem OwnsNode.frame {s s' : QueueMem α} {l l' : List (Nat × Node α)} {k : Kont Ptr α}
    {touched : List Nat} (h : OwnsNode s l k) (hframe : Frame touched s s')
    (hfar : ∀ b, k.newNode = some b → b ∉ touched ∧ b ∉ addrs l') : OwnsNode s' l' k := by
  cases k with
  | get => trivial
  | put point newNode message out =>
    -- The node is outside `touched`, so its cell is the old one.
    obtain ⟨b, hb, hcell, -, hrest⟩ := h
    obtain ⟨htouched, hl'⟩ := hfar b hb
    exact ⟨b, hb, (hframe.cell b htouched).trans hcell, hl', hrest⟩

variable [DecidableEq Tid]

/-- A segment of thread `t` changes only nodes of the list and the node of `t`, and
    puts at most the node of `t` into the list; the other threads keep their nodes. -/
theorem Rep.move {s s' : QueueMem α} {l l' : List (Nat × Node α)}
    {ks : Tid → Option (Kont Ptr α)} {q q' : Queue α} {t : Tid} {k : Kont Ptr α}
    {touched : List Nat} (k' : Option (Kont Ptr α)) (h : Rep s l ks q) (hk : ks t = some k)
    (hlist : ListRep s' l') (hitems : messagesOf l' = q'.items) (hframe : Frame touched s s')
    (hcap : q'.capacity = q.capacity) (hpol : q'.schedPolicy = q.schedPolicy)
    (hfrees : s'.metaFrees = q'.metaFrees)
    (hplaces : ∀ b, b ∈ touched ∨ b ∈ addrs l' → b ∈ addrs l ∨ k.newNode = some b)
    (hown : ∀ k₁, k' = some k₁ → OwnsNode s' l' k₁)
    (hnode : ∀ k₁, k' = some k₁ → k₁.newNode = k.newNode) :
    Rep s' l' (Function.update ks t k') q' where
  list := hlist
  items := hitems
  capacity := by rw [hframe.capacity, h.capacity, hcap]
  randomDropCount := by rw [hframe.randomDropCount, h.randomDropCount, hcap]
  schedPolicy := by rw [hframe.schedPolicy, h.schedPolicy, hpol]
  metaFrees := hfrees
  owns u ku hu := by
    -- The thread that moved owns what `hown` says; the others lie outside the frame.
    by_cases hut : u = t
    · subst hut
      rw [Function.update_self] at hu
      exact hown ku hu
    · rw [Function.update_of_ne hut] at hu
      refine (h.owns u ku hu).frame hframe fun b hb => ?_
      -- A node of another thread is in neither place that the segment may touch.
      have hfar : b ∉ addrs l ∧ k.newNode ≠ some b := by
        refine ⟨?_, fun hkb => hut (h.distinct u t ku k b hu hk hb hkb)⟩
        cases ku with
        | get => cases hb
        | put point newNode message out =>
          obtain ⟨b', hb', -, hnot, -⟩ := h.owns u _ hu
          cases hb'.symm.trans hb
          exact hnot
      exact ⟨fun hm => (hplaces b (.inl hm)).elim hfar.1 hfar.2,
        fun hm => (hplaces b (.inr hm)).elim hfar.1 hfar.2⟩
  distinct u v ku kv b hu hv hub hvb := by
    -- Only the thread that moved can have changed its node, and it kept it.
    by_cases hut : u = t <;> by_cases hvt : v = t
    · rw [hut, hvt]
    · subst hut
      rw [Function.update_self] at hu
      rw [Function.update_of_ne hvt] at hv
      exact h.distinct u v k kv b hk hv (hnode ku hu ▸ hub) hvb
    · subst hvt
      rw [Function.update_self] at hv
      rw [Function.update_of_ne hut] at hu
      exact h.distinct u v ku k b hu hk hub (hnode kv hv ▸ hvb)
    · rw [Function.update_of_ne hut] at hu
      rw [Function.update_of_ne hvt] at hv
      exact h.distinct u v ku kv b hu hv hub hvb

/-- A thread that changes nothing but its own continuation. -/
theorem Rep.park {s : QueueMem α} {l : List (Nat × Node α)} {ks : Tid → Option (Kont Ptr α)}
    {q : Queue α} {t : Tid} {k : Kont Ptr α} {k' : Kont Ptr α} (h : Rep s l ks q)
    (hk : ks t = some k) (hown : OwnsNode s l k') (hnode : k'.newNode = k.newNode) :
    Represents s (Function.update ks t (some k')) q := by
  have hframe : Frame [] s s := ⟨fun _ _ => rfl, rfl, rfl, rfl⟩
  refine ⟨l, h.move (some k') hk h.list h.items hframe rfl rfl
    h.metaFrees (fun _ hb => hb.elim (fun hb => by cases hb) .inl) ?_ ?_⟩
  · intro _ h
    obtain ⟨⟩ := h
    exact hown
  · intro _ h
    obtain ⟨⟩ := h
    exact hnode

/-- A segment of `t` that only removes nodes from the list, the continuation of `t` kept. -/
theorem Rep.shrink {s s' : QueueMem α} {l l' : List (Nat × Node α)}
    {ks : Tid → Option (Kont Ptr α)} {q q' : Queue α} {t : Tid} {k : Kont Ptr α}
    {touched : List Nat} (h : Rep s l ks q) (hk : ks t = some k) (hlist : ListRep s' l')
    (hitems : messagesOf l' = q'.items) (hframe : Frame touched s s')
    (hcap : q'.capacity = q.capacity) (hpol : q'.schedPolicy = q.schedPolicy)
    (hfrees : s'.metaFrees = q'.metaFrees) (htouched : touched ⊆ addrs l)
    (hsub : addrs l' ⊆ addrs l) : Rep s' l' ks q' := by
  have hmove := h.move (some k) hk hlist hitems hframe hcap hpol hfrees
    (fun b hb => .inl (hb.elim (fun hb => htouched hb) fun hb => hsub hb)) ?_ ?_
  · rwa [Function.update_eq_self_iff.mpr hk.symm] at hmove
  · intro _ h
    obtain ⟨⟩ := h
    refine (h.owns t k hk).frame hframe fun b hb => ?_
    -- What leaves the list was in the list, where no node of a putter is.
    have hnot : b ∉ addrs l := by
      cases k with
      | get => cases hb
      | put point newNode message out =>
        obtain ⟨b', hb', -, hnot, -⟩ := h.owns t _ hk
        cases hb'.symm.trans hb
        exact hnot
    exact ⟨fun hm => hnot (htouched hm), fun hm => hnot (hsub hm)⟩
  · intro _ h
    obtain ⟨⟩ := h
    rfl

/-! ## Segments -/

/-- Linking the new node appends its message. -/
theorem Rep.putLeave {s : QueueMem α} {l : List (Nat × Node α)} {ks : Tid → Option (Kont Ptr α)}
    {q : Queue α} {t : Tid} {point : PutPoint} {newNode : Ptr} {message : Message α}
    {out out' : PutOut α} (h : Rep s l ks q) (hk : ks t = some (.put point newNode message out))
    (hputting : out'.isPutting = true) :
    ∃ s', (mqPutLeave newNode message out').run s =
        .ok (.leave .condPut (.put (some message) out'), s') ∧
      Represents s' (Function.update ks t none) (q.append message) := by
  obtain ⟨b, rfl, hcell, hnot, -⟩ := h.owns t _ hk
  obtain ⟨s', l', hrun, hlist, hitems, haddrs, hframe, hfrees⟩ :=
    mqPutLeave_putting h.list hputting hcell hnot
  refine ⟨s', hrun, l', h.move none hk hlist ?_ hframe rfl rfl (hfrees.trans h.metaFrees) ?_ ?_ ?_⟩
  · rw [hitems, h.items, Queue.append_items]
  · rintro c (hc | hc)
    · exact .inl hc
    · rw [addrs, haddrs, List.mem_append, List.mem_singleton] at hc
      exact hc.imp id fun hc => congrArg some hc.symm
  · exact fun _ h => by cases h
  · exact fun _ h => by cases h

/-- A segment whose code runs to the exit `e` in memory `s'` ends as `e` says. -/
theorem segment_run {mallocs : Mallocs} {rands : List Nat} {k : Kont Ptr α} {s s' : QueueMem α}
    {e : Exit (Kont Ptr α) CondVar (Ret α)} (h : (runKont mallocs rands k).run s = .ok (e, s')) :
    (monitor α mallocs).segment rands k s = .ok (e.toSegment s') := by
  simp [monitor, h]

/-- How the segments of the code and of the abstract queue correspond. -/
abbrev SegmentRel (ks : Tid → Option (Kont Ptr α)) (t : Tid) :
    Outcome MemFault (Segment (QueueMem α) (Kont Ptr α) CondVar (Ret α)) →
      Outcome MemFault (Queue.End α) → Prop :=
  Outcome.Rel (Segment.Matches Kont.forget (Monitor.After Represents ks t))

/-- `MQGet` takes the first message, or waits. -/
theorem get_refines {s : QueueMem α} {l : List (Nat × Node α)} {ks : Tid → Option (Kont Ptr α)}
    {q : Queue α} {t : Tid} (h : Rep s l ks q) (hk : ks t = some .get) (rands : List Nat) :
    SegmentRel ks t ((monitor α .succeed).segment rands .get s) (Queue.segment rands .get q) := by
  cases l with
  | nil =>
    -- An empty queue: both sides wait on `condGet`.
    have hitems : q.items = [] := h.items.symm
    rw [segment_run (show (runKont .succeed rands .get).run s = _ from mqGet_nil h.list)]
    simp only [Queue.segment, hitems]
    exact .ok (.wait (h.park hk trivial rfl))
  | cons x l =>
    -- The first message goes to the caller on both sides.
    obtain ⟨a, node⟩ := x
    have hitems : q.items = node.message :: messagesOf l := h.items.symm
    obtain ⟨s', hrun, hlist, hframe, hfrees⟩ := mqGet_cons h.list true
    rw [segment_run (show (runKont .succeed rands .get).run s = _ from hrun)]
    simp only [Queue.segment, hitems]
    refine .ok (.leave ⟨l, h.move none hk hlist rfl hframe rfl rfl (hfrees.trans h.metaFrees) ?_
      (fun _ h => by cases h) (fun _ h => by cases h)⟩)
    rintro b (hb | hb)
    · exact .inl (by simpa using List.mem_singleton.mp hb ▸ Or.inl rfl)
    · exact .inl (List.mem_cons_of_mem _ hb)

/-- Code that comes down to putting the message and leaving. -/
private theorem putEnd_refines {s s₀ : QueueMem α} {l : List (Nat × Node α)}
    {ks : Tid → Option (Kont Ptr α)} {q : Queue α} {t : Tid} {point : PutPoint} {newNode : Ptr}
    {message : Message α} {out out' : PutOut α} {k : Kont Ptr α} {rands : List Nat}
    (h : Rep s l ks q) (hk : ks t = some (.put point newNode message out))
    (hputting : out'.isPutting = true)
    (hcode : (runKont .succeed rands k).run s₀ = (mqPutLeave newNode message out').run s) :
    SegmentRel ks t ((monitor α .succeed).segment rands k s₀)
      (.ok (Queue.putEnd q message out')) := by
  obtain ⟨s', hrun, hrep⟩ := h.putLeave hk hputting
  rw [segment_run (hcode.trans hrun)]
  exact .ok (.leave hrep)

section Overload

variable {s : QueueMem α} {l : List (Nat × Node α)} {ks : Tid → Option (Kont Ptr α)} {q : Queue α}
  {t : Tid} {newNode : Ptr} {message : Message α} {out : PutOut α}

/-- On a full queue the overload loop looks at the policy. -/
private theorem mqPutLoop_full (newNode : Ptr) (message : Message α) (out : PutOut α)
    (hfull : s.mq.size = s.mq.capacity) (rands : List Nat) :
    (runKont .succeed rands (.put .loop newNode message out)).run s =
      (match s.mq.schedPolicy with
      | .block => (return .wait .condGet (.put .loop newNode message out) : QueueM α _).run s
      | .dropTail =>
        (do mqPutLeave newNode message (← putHandleDropTail newNode out) : QueueM α _).run s
      | .dropHead =>
        (do return .again (.put .loop newNode message (← putHandleDropHead out)) :
          QueueM α _).run s
      | .dropRandom =>
        (do
          match ← putHandleDropRandom true rands out with
          | .inl out => return .wait .condGet (.put .afterBlock newNode message out)
          | .inr out => mqPutAfterDropRandom newNode message out : QueueM α _).run s
      | .invalid => (return .again (.put .loop newNode message out) : QueueM α _).run s) := by
  simp only [runKont, mqPutLoop, StateT.run_bind, StateT.run_get, Outcome.pure_eq_ok,
    Outcome.ok_bind, if_pos hfull]
  cases s.mq.schedPolicy <;> rfl

/-- Dropping the new message refines the abstract drop. -/
private theorem dropTail_refines (h : Rep s l ks q)
    (hk : ks t = some (.put .loop newNode message out)) (hfull : q.Full)
    (hpol : q.schedPolicy = .dropTail) (rands : List Nat) :
    SegmentRel ks t ((monitor α .succeed).segment rands (.put .loop newNode message out) s)
      (Queue.putFull q rands message out) := by
  obtain ⟨b, rfl, hcell, hnot, -⟩ := h.owns t _ hk
  obtain ⟨s', hrun, hframe, hmq, hfrees⟩ := putHandleDropTail_run hcell out
  have hcode := mqPutLoop_full (some b) message out
    (h.full_iff.mpr hfull) rands
  rw [h.schedPolicy, hpol] at hcode
  simp only [StateT.run_bind, hrun, Outcome.ok_bind, mqPutLeave_not_putting] at hcode
  rw [segment_run hcode]
  simp only [Queue.putFull, hpol]
  -- The freed node is not in the list, so the list is as it was.
  have hlist : ListRep s' l := by
    refine ⟨hmq ▸ h.list.chain.frame fun x hx => hframe.cell _ fun hb => ?_, hmq ▸ h.list.size,
      hmq ▸ h.list.tail⟩
    exact hnot (List.mem_singleton.mp hb ▸ List.mem_map_of_mem hx)
  refine .ok (.leave ⟨l, h.move none hk hlist h.items hframe rfl rfl ?_ ?_ (fun _ h => by cases h)
    (fun _ h => by cases h)⟩)
  · -- The meta data of the refused message is freed on both sides.
    rw [hfrees, h.metaFrees]
    rfl
  · rintro c (hc | hc)
    · exact .inr (congrArg some (List.mem_singleton.mp hc).symm)
    · exact .inl hc

/-- Dropping the oldest message refines the abstract drop. -/
private theorem dropHead_refines (h : Rep s l ks q)
    (hk : ks t = some (.put .loop newNode message out)) (hfull : q.Full)
    (hpol : q.schedPolicy = .dropHead) (rands : List Nat) :
    SegmentRel ks t ((monitor α .succeed).segment rands (.put .loop newNode message out) s)
      (Queue.putFull q rands message out) := by
  have hcode := mqPutLoop_full newNode message out (h.full_iff.mpr hfull) rands
  rw [h.schedPolicy, hpol] at hcode
  simp only [Queue.putFull, hpol]
  cases l with
  | nil =>
    -- A full queue of capacity zero: the code follows the null head, and so does the model.
    have hitems : q.items = [] := h.items.symm
    simp only [StateT.run_bind, putHandleDropHead_nil h.list, Outcome.fault_bind] at hcode
    simp only [hitems, monitor, hcode, Outcome.fault_bind]
    exact .fault _
  | cons x l =>
    obtain ⟨a, node⟩ := x
    have hitems : q.items = node.message :: messagesOf l := h.items.symm
    obtain ⟨s', hrun, hlist, hframe, hfrees⟩ := putHandleDropHead_cons h.list out
    simp only [StateT.run_bind, hrun, Outcome.ok_bind, StateT.run_pure, Outcome.pure_eq_ok] at hcode
    rw [segment_run hcode]
    simp only [hitems]
    have hfrees' : s'.metaFrees = (q.dropTo (messagesOf l) [node.message]).metaFrees := by
      rw [hfrees, h.metaFrees]
      rfl
    have hrep : Rep s' l ks (q.dropTo (messagesOf l) [node.message]) :=
      h.shrink hk hlist rfl hframe rfl rfl hfrees' (by simp) (by simp)
    obtain ⟨b, hb, hcell, hnot, hputting, -⟩ := hrep.owns t _ hk
    exact .ok (.again (hrep.park hk ⟨b, hb, hcell, hnot, hputting, fun h => by cases h⟩ rfl))

/-- A full queue of at least four messages survives the random drop: the mask leaves one. -/
theorem zero_mem_mask {mask : List Int} {capacity : Int} (hcap : 4 ≤ capacity)
    (hlen : mask.length = capacity.toNat)
    (hcount : (mask.countP (· ≠ 0) : Int) = capacity.tdiv 4) : (0 : Int) ∈ mask := by
  by_contra hnot
  have hall : mask.countP (· ≠ 0) = mask.length :=
    List.countP_eq_length.mpr fun v hv => by
      simpa using fun h0 : v = 0 => hnot (h0 ▸ hv)
  -- All entries set would make `capacity / 4` equal to `capacity`.
  rw [Int.tdiv_eq_ediv_of_nonneg (by omega)] at hcount
  omega

/-- On a full queue with room for a random drop, the overload loop drops what the mask
    selects, and goes on to link the new node. -/
theorem mqPutLoop_dropRandom {mask : List Int} {rands : List Nat} (newNode : Ptr)
    (message : Message α) (out : PutOut α) (hlist : ListRep s l)
    (hfull : s.mq.size = s.mq.capacity) (hpol : s.mq.schedPolicy = .dropRandom)
    (hcap : ¬ s.mq.capacity < 4) (hlen : mask.length = l.length) (hclear : (0 : Int) ∈ mask)
    (hfill : fillRandIndexes s.mq.capacity s.mq.randomDropCount 0
      (List.replicate s.mq.capacity.toNat 0) rands = .ok mask) :
    ∃ s' l', (runKont .succeed rands (.put .loop newNode message out)).run s =
        (mqPutLeave newNode message
          (Queue.report out s.mq.randomDropCount (gone mask (messagesOf l)))).run s' ∧
      ListRep s' l' ∧ messagesOf l' = stay mask (messagesOf l) ∧
      (l'.map Prod.fst).Sublist (l.map Prod.fst) ∧ Frame (l.map Prod.fst) s s' ∧
      s'.metaFrees = s.metaFrees ++ (gone mask (messagesOf l)).map Message.metaData := by
  have hcode := mqPutLoop_full newNode message out hfull rands
  obtain ⟨s', l', hrun, hrest⟩ := dropSelected_run hlist hlen hclear
    { out with droppedAmount := s.mq.randomDropCount }
  refine ⟨s', l', ?_, hrest⟩
  have hout : { ({ out with droppedAmount := s.mq.randomDropCount } : PutOut α).writeAll 0
        ((gone mask (messagesOf l)).map Message.content) with result := MQRetCode.drop } =
      Queue.report out s.mq.randomDropCount (gone mask (messagesOf l)) := by
    rw [writeAll_droppedAmount]
    rfl
  -- The result is now `drop`, which the check for a failed allocation lets through.
  have hafter : mqPutAfterDropRandom newNode message
      (Queue.report out s.mq.randomDropCount (gone mask (messagesOf l))) =
      mqPutLeave newNode message
        (Queue.report out s.mq.randomDropCount (gone mask (messagesOf l))) :=
    if_neg (fun h => by cases h)
  rw [hpol] at hcode
  simp only [StateT.run_bind, putHandleDropRandom_run hcap, hfill, hrun, Outcome.ok_bind,
    Outcome.pure_eq_ok, hout, hafter] at hcode
  exact hcode

/-- Dropping at random refines the abstract drop. -/
private theorem dropRandom_refines (h : Rep s l ks q)
    (hk : ks t = some (.put .loop newNode message out)) (hfull : q.Full)
    (hpol : q.schedPolicy = .dropRandom) (rands : List Nat) :
    SegmentRel ks t ((monitor α .succeed).segment rands (.put .loop newNode message out) s)
      (Queue.putFull q rands message out) := by
  have hcode := mqPutLoop_full newNode message out (h.full_iff.mpr hfull) rands
  obtain ⟨b, hb, hcell, hnot, hputting, hresult⟩ := h.owns t _ hk
  rw [h.schedPolicy, hpol] at hcode
  simp only [Queue.putFull, hpol]
  -- With `randomDropCount` zero the handler waits for room, as with `block`.
  by_cases hsmall : q.capacity < 4
  · have hsmall' : s.mq.capacity < 4 := h.capacity ▸ hsmall
    simp only [putHandleDropRandom, StateT.run_bind, StateT.run_get, Outcome.pure_eq_ok,
      Outcome.ok_bind, if_pos hsmall', StateT.run_pure] at hcode
    rw [segment_run hcode, if_pos hsmall]
    exact .ok (.wait (h.park hk ⟨b, hb, hcell, hnot, hputting, hresult⟩ rfl))
  · have hsmall' : ¬ s.mq.capacity < 4 := h.capacity ▸ hsmall
    simp only [StateT.run_bind, putHandleDropRandom_run hsmall', h.capacity,
      h.randomDropCount] at hcode
    rw [if_neg hsmall]
    unfold Queue.putFull.getRandomMask
    -- Both sides draw the same mask, or stop at the same place while drawing it.
    cases hfill : fillRandIndexes q.capacity (q.capacity.tdiv 4) 0
      (List.replicate q.capacity.toNat 0) rands with
    | stuck =>
      rw [hfill] at hcode
      simp only [monitor, hcode]
      exact .stuck
    | fault e =>
      rw [hfill] at hcode
      simp only [monitor, hcode]
      exact .fault e
    | ok mask =>
      have hamount : 0 ≤ q.capacity.tdiv 4 := Int.tdiv_nonneg (by omega) (by omega)
      obtain ⟨hlen, hcount⟩ := fillRandIndexes_spec (by simp) hamount hfill
      rw [List.length_replicate] at hlen
      -- The queue is full, so the mask has one entry for each node.
      have hlen' : mask.length = l.length := by
        have := h.length_items
        simp only [Queue.Full] at hfull
        omega
      obtain ⟨s', l', hrun, hlist, hitems, hsub, hframe, hfrees⟩ :=
        mqPutLoop_dropRandom newNode message out h.list (h.full_iff.mpr hfull)
          (h.schedPolicy.trans hpol) hsmall' hlen' (zero_mem_mask (by omega) hlen hcount)
          (by rw [h.capacity, h.randomDropCount]; exact hfill)
      have hrep : Rep s' l' ks (q.dropTo (stay mask q.items) (gone mask q.items)) :=
        h.shrink hk hlist (h.items ▸ hitems) hframe rfl rfl
          (by rw [hfrees, h.metaFrees, h.items]; rfl) (List.Subset.refl _) hsub.subset
      rw [h.randomDropCount, h.items] at hrun
      exact putEnd_refines hrep hk ((writeAll_isPutting _ _ _).trans hputting) hrun

/-- The loop of `MQPut` refines the abstract one, for every policy. -/
theorem putLoop_refines (h : Rep s l ks q) (hk : ks t = some (.put .loop newNode message out))
    (rands : List Nat) :
    SegmentRel ks t ((monitor α .succeed).segment rands (.put .loop newNode message out) s)
      (Queue.segment rands (.put .loop () message out) q) := by
  obtain ⟨b, hb, hcell, hnot, hputting, hresult⟩ := h.owns t _ hk
  simp only [Queue.segment]
  -- The loop condition is the same on both sides: `Rep.full_iff`.
  by_cases hfull : q.Full
  · rw [if_pos hfull]
    have hcode := mqPutLoop_full newNode message out (h.full_iff.mpr hfull) rands
    rw [h.schedPolicy] at hcode
    cases hpol : q.schedPolicy with
    | block =>
      rw [hpol] at hcode
      rw [segment_run hcode, Queue.putFull, hpol]
      exact .ok (.wait (h.park hk ⟨b, hb, hcell, hnot, hputting, hresult⟩ rfl))
    | dropTail => exact dropTail_refines h hk hfull hpol rands
    | dropHead => exact dropHead_refines h hk hfull hpol rands
    | dropRandom => exact dropRandom_refines h hk hfull hpol rands
    | invalid =>
      rw [hpol] at hcode
      rw [segment_run hcode, Queue.putFull, hpol]
      exact .ok (.again (h.park hk ⟨b, hb, hcell, hnot, hputting, hresult⟩ rfl))
  · rw [if_neg hfull]
    refine putEnd_refines h hk hputting ?_
    simp only [runKont, mqPutLoop, StateT.run_bind, StateT.run_get, Outcome.pure_eq_ok,
      Outcome.ok_bind, if_neg (h.full_iff.not.mpr hfull)]

/-- So does `MQPut` after it has waited for room. -/
theorem putAfterBlock_refines (h : Rep s l ks q)
    (hk : ks t = some (.put .afterBlock newNode message out)) (rands : List Nat) :
    SegmentRel ks t ((monitor α .succeed).segment rands (.put .afterBlock newNode message out) s)
      (Queue.segment rands (.put .afterBlock () message out) q) := by
  obtain ⟨b, hb, hcell, hnot, hputting, hresult⟩ := h.owns t _ hk
  refine putEnd_refines h hk hputting ?_
  simp only [runKont, mqPutAfterDropRandom, if_neg hresult]

end Overload

/-! ## Calls -/

/-- A thread enters, perhaps with a node that was not allocated before. -/
theorem Rep.enter {s s' : QueueMem α} {l : List (Nat × Node α)} {ks : Tid → Option (Kont Ptr α)}
    {q : Queue α} {t : Tid} {k : Kont Ptr α} (h : Rep s l ks q)
    (hcells : ∀ b node, s.nodes.cell b = some node → s'.nodes.cell b = some node)
    (hmq : s'.mq = s.mq) (hfrees : s'.metaFrees = s.metaFrees) (hown : OwnsNode s' l k)
    (hfresh : ∀ b, k.newNode = some b → s.nodes.cell b = none) :
    Rep s' l (Function.update ks t (some k)) q := by
  -- The node was not allocated before, so nobody else has it.
  have hnew : ∀ u ku b, ks u = some ku → ku.newNode = some b → k.newNode ≠ some b := by
    intro u ku b hu hub hkb
    cases ku with
    | get => cases hub
    | put point newNode message out =>
      obtain ⟨b', hb', hcell, -⟩ := h.owns u _ hu
      cases hb'.symm.trans hub
      rw [hfresh b hkb] at hcell
      cases hcell
  refine ⟨⟨hmq ▸ h.list.chain.frame fun x hx => ?_, hmq ▸ h.list.size, hmq ▸ h.list.tail⟩, h.items,
    hmq ▸ h.capacity, hmq ▸ h.randomDropCount, hmq ▸ h.schedPolicy, hfrees.trans h.metaFrees,
    ?_, ?_⟩
  · have hx' := h.list.chain.cell_of_mem hx
    rw [hx', hcells _ _ hx']
  · intro u ku hu
    -- The thread that enters owns its fresh node; the cells of the others are kept.
    by_cases hut : u = t
    · subst hut
      rw [Function.update_self] at hu
      cases hu
      exact hown
    · rw [Function.update_of_ne hut] at hu
      have hold := h.owns u ku hu
      cases ku with
      | get => trivial
      | put point newNode message out =>
        obtain ⟨b, hb, hcell, hrest⟩ := hold
        exact ⟨b, hb, hcells b _ hcell, hrest⟩
  · intro u v ku kv b hu hv hub hvb
    by_cases hut : u = t <;> by_cases hvt : v = t
    · rw [hut, hvt]
    · subst hut
      rw [Function.update_self] at hu
      rw [Function.update_of_ne hvt] at hv
      cases hu
      exact absurd hub (hnew v kv b hv hvb)
    · subst hvt
      rw [Function.update_self] at hv
      rw [Function.update_of_ne hut] at hu
      cases hv
      exact absurd hvb (hnew u ku b hu hub)
    · rw [Function.update_of_ne hut] at hu
      rw [Function.update_of_ne hvt] at hv
      exact h.distinct u v ku kv b hu hv hub hvb

/-- `MQPut` enters with a fresh node. -/
theorem put_refines {s : QueueMem α} {l : List (Nat × Node α)} {ks : Tid → Option (Kont Ptr α)}
    {q : Queue α} {t : Tid} (h : Rep s l ks q) (message : Message α) :
    Outcome.Rel (CallMatches Kont.forget (Monitor.After Represents ks t))
      ((monitor α .succeed).call (.put (some message)) s) (Queue.call (.put (some message)) q) := by
  obtain ⟨nodes, frees, mq⟩ := s
  have hfresh : nodes.cell nodes.next = none := nodes.fresh nodes.next le_rfl
  have hcell : (nodes.alloc ⟨none, message⟩).2.cell nodes.next = some ⟨none, message⟩ :=
    Heap.alloc_cell_self nodes ⟨none, message⟩
  refine .ok (.enter ⟨l, h.enter (fun b node hb => Heap.alloc_cell_of_some _ hb) rfl rfl
    ⟨nodes.next, rfl, hcell, fun hmem => ?_, rfl, fun h => by cases h⟩ ?_⟩)
  · -- A fresh address is not an address of the list.
    obtain ⟨x, hx, hxb⟩ := List.mem_map.mp hmem
    have hcell' := h.list.chain.cell_of_mem hx
    rw [hxb, hfresh] at hcell'
    cases hcell'
  · rintro b hb
    cases hb
    exact hfresh

/-- The code refines the abstract queue. -/
theorem monitor_refines : Monitor.Refines (monitor α .succeed) (Queue.monitor α) Kont.forget
    (Represents : QueueMem α → (Tid → Option (Kont Ptr α)) → Queue α → Prop) where
  call s ks q t c hR hk := by
    obtain ⟨l, h⟩ := hR
    cases c with
    | get =>
      exact .ok (.enter ⟨l, h.enter (fun _ _ hb => hb) rfl rfl trivial (fun _ hb => by cases hb)⟩)
    | put message =>
      cases message with
      | none => exact .ok (.refuse ⟨l, by rwa [Function.update_eq_self_iff.mpr hk.symm]⟩)
      | some message => exact put_refines h message
  segment s ks q t rands k hR hk := by
    obtain ⟨l, h⟩ := hR
    cases k with
    | get => exact get_refines h hk rands
    | put point newNode message out =>
      cases point with
      | loop => exact putLoop_refines h hk rands
      | afterBlock => exact putAfterBlock_refines h hk rands

omit [DecidableEq Tid] in
/-- A new queue in memory represents the empty queue. -/
theorem represents_initial (capacity : Int) (schedPolicy : MQSchedPolicy) :
    Represents (initialMem capacity schedPolicy : QueueMem α) (fun _ : Tid => none)
      (Queue.initial capacity schedPolicy) :=
  ⟨[], ⟨rfl, rfl, rfl⟩, rfl, rfl, rfl, rfl, rfl, (fun _ _ h => by cases h),
    (fun _ _ _ _ _ h => by cases h)⟩

variable [Fintype Tid]

/-- The states of the code and of the abstract queue that correspond. -/
abbrev Corresponds (s : Monitor.State Tid (QueueMem α) (Kont Ptr α) CondVar)
    (t : Monitor.State Tid (Queue α) (Kont Unit α) CondVar) : Prop :=
  Monitor.Related Kont.forget Represents s t

omit [DecidableEq Tid] [Fintype Tid] in
/-- The two queues correspond at the start. -/
theorem corresponds_initial (capacity : Int) (schedPolicy : MQSchedPolicy) :
    Corresponds (Monitor.initial (initialMem capacity schedPolicy) :
        Monitor.State Tid (QueueMem α) (Kont Ptr α) CondVar)
      (Monitor.initial (Queue.initial capacity schedPolicy)) :=
  ⟨represents_initial capacity schedPolicy, rfl, rfl⟩

/-- A run of the code is a run of the abstract queue with the same results. -/
theorem exec_abstract {capacity : Int} {schedPolicy : MQSchedPolicy}
    {acts : List (Monitor.Action Tid (List Nat) (Call α))}
    {s : Monitor.State Tid (QueueMem α) (Kont Ptr α) CondVar} {out : List (Tid × Ret α)}
    (h : (monitor α .succeed).machine.exec (Monitor.initial (initialMem capacity schedPolicy))
      acts = .ok (s, out)) :
    ∃ t, (Queue.monitor α).machine.exec (Monitor.initial (Queue.initial capacity schedPolicy))
      acts = .ok (t, out) ∧ Corresponds s t :=
  monitor_refines.simulates.exec (corresponds_initial capacity schedPolicy) h

end MessageQueue

end OsWet
