import OsWet.Spec.ServerInvariant

/-!
# Who owns a connection: the server

The code of the accept loop and of the workers around the queue keeps the invariant, so
it holds in every reachable state of the server. What follows is that nothing goes wrong
and that a connection is closed once, by the thread that holds it.
-/

namespace OsWet

namespace Server

variable {n : Nat}

/-- The thread `t` is about to close `fd`: a worker the connection it has served, the
    accept loop one that the queue dropped. -/
def Releases (s : Server n) : ServerTid n → Int → Prop
  | none, fd => ∃ amount i, s.main = .closing amount i ∧ (i : Int) < amount ∧
    s.dropped i = some fd
  | some w, fd => ∃ message, (s.workers w).point = .freed message ∧ message.content = fd

/-- Nothing went wrong, the invariant holds, and the descriptors changed as the events
    say: not at all, by a connection that was accepted, or by one that was closed. -/
inductive Closes (s : Server n) : Outcome ServerFault (Server n × List (ServerEvent n)) → Prop
  | stuck : Closes s .stuck
  | quiet {s' : Server n} (hinv : ∃ t, Inv s' t) (hfds : s'.openFds = s.openFds) :
    Closes s (.ok (s', []))
  | accepted {s' : Server n} {fd : Int} (hinv : ∃ t, Inv s' t) (hnew : fd ∉ s.openFds)
    (hfds : s'.openFds = insert fd s.openFds) : Closes s (.ok (s', [.accepted fd]))
  | closed {s' : Server n} {i : ServerTid n} {fd : Int} (hinv : ∃ t, Inv s' t)
    (hopen : fd ∈ s.openFds) (hfds : s'.openFds = s.openFds.erase fd) (hrel : s.Releases i fd) :
    Closes s (.ok (s', [.closed i fd]))

/-! ## The code outside the queue -/

/-- A step of a thread outside the queue. -/
theorem Inv.outside {s s' : Server n} {t : Queue.QState (ServerTid n) Int} (h : Inv s t)
    (hqueue : s'.queue = s.queue) (hsize : s'.dropSize = s.dropSize)
    (hmain : s.main = .putting → s'.main = .putting)
    (hworkers : ∀ w, (s.workers w).point = .getting → (s'.workers w).point = .getting)
    (hgot : ∀ w code message, (s'.workers w).point = .got code message →
      (s.workers w).point = .got code message)
    (hclosing : ∀ amount i, s'.main = .closing amount i → amount ≤ s'.dropSize)
    (hfds : s'.openFds.val.map some =
      s'.main.fds s'.dropped (t.threads none).kont + t.data.fds + ∑ w, (s'.workers w).fds)
    (hnodup : (s'.allMetas t).Nodup)
    (hlive : ∀ a ∈ s'.allMetas t, ∃ block, s'.metas.cell a = some block) : Inv s' t where
  corr := hqueue ▸ h.corr
  history := h.history
  capacity := h.capacity
  dropSize := hsize.trans h.dropSize
  amounts := hsize ▸ h.amounts
  main_in k hk := ⟨hmain (h.main_in k hk).1, (h.main_in k hk).2⟩
  worker_in w k hk := ⟨hworkers w (h.worker_in w k hk).1, (h.worker_in w k hk).2⟩
  worker_got w code message hw := h.worker_got w code message (hgot w code message hw)
  closing := hclosing
  fds := hfds
  metas_nodup := hnodup
  metas_live := hlive

/-- A connection is accepted. -/
theorem Inv.accept {s : Server n} {t : Queue.QState (ServerTid n) Int} (h : Inv s t)
    (connfd : Int) : Closes s (s.accept connfd) := by
  unfold Server.accept
  cases hmain : s.main with
  | accepting =>
    simp only
    split
    · exact .stuck
    · -- The descriptor is new, so the accept loop becomes its only owner.
      rename_i hnew
      have hnodup := h.metas_nodup
      have hlive := h.metas_live
      rw [Server.allMetas, hmain] at hnodup hlive
      refine .accepted ⟨t, h.outside rfl rfl (fun hp => by cases hmain.symm.trans hp)
        (fun _ hw => hw) (fun _ _ _ hw => hw) (fun _ _ h => by cases h) ?_ hnodup hlive⟩ hnew rfl
      show (insert connfd s.openFds).val.map some = {some connfd} + t.data.fds + _
      rw [Finset.insert_val_of_notMem hnew, Multiset.map_cons, h.fds, hmain]
      simp only [MainPoint.fds, zero_add, ← Multiset.singleton_add]
      abel
  | _ => exact .stuck

/-- Writing to a live block keeps every block live. -/
private theorem live_store {heap : Heap MetaData} {a b : Nat} {block block' : MetaData}
    (ha : a < heap.next) (hb : heap.cell b = some block) :
    ∃ block'', (heap.setCell a (some block') ha).cell b = some block'' := by
  by_cases hab : b = a
  · subst hab
    exact ⟨block', Heap.setCell_cell_self _ _ _ _⟩
  · exact ⟨block, by rw [Heap.setCell_cell_of_ne ha hab, hb]⟩

/-- A message is built for the connection. -/
theorem Inv.build {s : Server n} {t : Queue.QState (ServerTid n) Int} (h : Inv s t)
    (block : MetaData) (now : Timeval) : Closes s (silent (s.build block now)) := by
  unfold Server.build
  cases hmain : s.main with
  | accepted connfd =>
    have hfresh : s.metas.cell s.metas.next = none := s.metas.fresh _ le_rfl
    have hcell : (s.metas.alloc block).2.cell s.metas.next = some block :=
      Heap.alloc_cell_self s.metas block
    have hold : s.allMetas t = t.data.metas + ∑ w, (s.workers w).metas := by
      simp [Server.allMetas, hmain, MainPoint.metas]
    -- The fresh address is in nobody's hands: blocks in hands are allocated.
    have hnot : s.metas.next ∉ t.data.metas + ∑ w, (s.workers w).metas := by
      intro hmem
      obtain ⟨b, hb⟩ := h.metas_live _ (hold ▸ hmem)
      rw [hfresh] at hb
      cases hb
    simp only [Heap.alloc_fst, Heap.store_eq_ok hcell, onMetas, silent, Outcome.ok_bind,
      Outcome.pure_eq_ok]
    refine .quiet ⟨t, h.outside rfl rfl (fun hp => by cases hmain.symm.trans hp) (fun _ hw => hw)
      (fun _ _ _ hw => hw) (fun _ _ h => by cases h) ?_ ?_ ?_⟩ rfl
    · -- The descriptor stays with the accept loop, the block is the new one.
      show s.openFds.val.map some = {some connfd} + t.data.fds + _
      rw [h.fds, hmain]
      rfl
    · show ({s.metas.next} + t.data.metas + ∑ w, (s.workers w).metas : Multiset Nat).Nodup
      rw [add_assoc, Multiset.singleton_add, Multiset.nodup_cons]
      exact ⟨hnot, hold ▸ h.metas_nodup⟩
    · intro a ha
      replace ha : a ∈ ({s.metas.next} + t.data.metas + ∑ w, (s.workers w).metas :
        Multiset Nat) := ha
      rw [add_assoc, Multiset.singleton_add, Multiset.mem_cons] at ha
      rcases ha with rfl | ha
      · exact live_store (Heap.lt_next hcell) hcell
      · obtain ⟨b, hb⟩ := h.metas_live a (hold ▸ ha)
        exact live_store (Heap.lt_next hcell) (Heap.alloc_cell_of_some block hb)
  | _ => exact .stuck

/-- Taking one descriptor away. -/
private theorem erase_fds {openFds : Finset Int} {fd : Int} {rest : Multiset (Option Int)}
    (h : openFds.val.map some = some fd ::ₘ rest) :
    fd ∈ openFds ∧ (openFds.erase fd).val.map some = rest := by
  have hmem : some fd ∈ openFds.val.map some := by
    rw [h]
    exact Multiset.mem_cons_self _ _
  obtain ⟨fd', hfd', heq⟩ := Multiset.mem_map.mp hmem
  cases heq
  refine ⟨hfd', ?_⟩
  rw [Finset.erase_val, Multiset.map_erase _ (Option.some_injective _), h,
    Multiset.erase_cons_head]

/-- A round of the loop over the dropped connections. -/
theorem Inv.closeDropped {s : Server n} {t : Queue.QState (ServerTid n) Int} (h : Inv s t) :
    Closes s s.closeDropped := by
  unfold Server.closeDropped
  cases hmain : s.main with
  | closing amount i =>
    have hlive := h.metas_live
    have hnodup := h.metas_nodup
    rw [Server.allMetas, hmain] at hlive hnodup
    -- Below the amount there is an entry to close; at the amount the loop ends.
    by_cases hi : (i : Int) < amount
    · have hsize : (i : Int) < s.dropSize := lt_of_lt_of_le hi (h.closing amount i hmain)
      have hfds := h.fds
      -- The entry `i` is the first of those left to close, so it is an open descriptor.
      have hdrop : (List.range amount.toNat).drop i =
          i :: (List.range amount.toNat).drop (i + 1) := by
        rw [List.drop_eq_getElem_cons (by simp only [List.length_range]; omega)]
        simp
      rw [hmain, MainPoint.fds, hdrop, List.map_cons, ← Multiset.cons_coe, Multiset.cons_add,
        Multiset.cons_add] at hfds
      obtain ⟨fd, hfd⟩ : ∃ fd, s.dropped i = some fd := by
        have hmem : s.dropped i ∈ s.openFds.val.map some := by
          rw [hfds]
          exact Multiset.mem_cons_self _ _
        obtain ⟨fd, -, heq⟩ := Multiset.mem_map.mp hmem
        exact ⟨fd, heq.symm⟩
      rw [hfd] at hfds
      obtain ⟨hopen, herase⟩ := erase_fds hfds
      simp only [if_pos hi, if_pos hsize, hfd, Server.closeFd]
      rw [if_pos hopen]
      refine .closed ⟨t, h.outside rfl rfl (fun hp => by cases hmain.symm.trans hp)
        (fun _ hw => hw) (fun _ _ _ hw => hw) ?_ herase hnodup hlive⟩ hopen rfl
        ⟨_, _, hmain, hi, hfd⟩
      intro _ _ h
      obtain ⟨⟩ := h
      exact h.closing amount i hmain
    · -- Everything is closed, and nothing is left in the hands of the loop.
      simp only [if_neg hi]
      refine .quiet ⟨t, h.outside rfl rfl (fun hp => by cases hmain.symm.trans hp)
        (fun _ hw => hw) (fun _ _ _ hw => hw) (fun _ _ h => by cases h) ?_ hnodup hlive⟩ rfl
      have hnil : (List.range amount.toNat).drop i = [] := by
        rw [List.drop_eq_nil_iff, List.length_range]
        omega
      rw [h.fds, hmain]
      simp [MainPoint.fds, hnil]
  | _ => exact .stuck

/-- A worker outside the queue moves on and keeps what it holds. -/
theorem Inv.keep {s : Server n} {t : Queue.QState (ServerTid n) Int} (h : Inv s t)
    {w : Fin n} {worker : Worker} {metas : Heap MetaData}
    (hpoint : (s.workers w).point ≠ .getting) (hgot : ∀ code m, worker.point ≠ .got code m)
    (hfds : worker.fds = (s.workers w).fds) (hmetas : worker.metas = (s.workers w).metas)
    (hlive : ∀ a block, s.metas.cell a = some block → ∃ block', metas.cell a = some block') :
    Inv (({ s with metas := metas } : Server n).setWorker w worker) t := by
  have hall : (({ s with metas := metas } : Server n).setWorker w worker).allMetas t =
      s.allMetas t := congrArg (s.main.metas (t.threads none).kont + t.data.metas + ·)
    (sum_metas_of_eq hmetas)
  refine h.outside rfl rfl id (fun _ hu => getting_setWorker hpoint hu)
    (fun _ _ _ hu => got_setWorker hgot hu) h.closing ?_ (hall ▸ h.metas_nodup) fun a ha => ?_
  · exact h.fds.trans (congrArg (s.main.fds s.dropped (t.threads none).kont + t.data.fds + ·)
      (sum_fds_of_eq hfds).symm)
  · obtain ⟨block, hblock⟩ := h.metas_live a (hall ▸ ha)
    exact hlive a block hblock

/-- The block of the message that a worker holds is live. -/
theorem Inv.live_worker {s : Server n} {t : Queue.QState (ServerTid n) Int} (h : Inv s t)
    {w : Fin n} {a : Nat} (ha : a ∈ (s.workers w).metas) :
    ∃ block, s.metas.cell a = some block := by
  apply h.metas_live
  rw [Server.allMetas, Multiset.mem_add, Multiset.mem_sum]
  exact .inr ⟨w, Finset.mem_univ w, ha⟩

/-- The worker fills in the metadata. -/
theorem Inv.dispatch {s : Server n} {t : Queue.QState (ServerTid n) Int} (h : Inv s t)
    (w : Fin n) (now : Timeval) : Closes s (silent (s.dispatch w now)) := by
  unfold Server.dispatch
  cases hpoint : (s.workers w).point with
  | got code message =>
    -- `MQGet` returns a message, so the metadata pointer is not null.
    obtain ⟨rfl, m, rfl⟩ := h.worker_got w _ _ hpoint
    have hmem : m.metaData ∈ (s.workers w).metas := by simp [Worker.metas, hpoint]
    obtain ⟨block, hblock⟩ := h.live_worker hmem
    simp only [hpoint, Heap.load_eq_ok hblock, Heap.store_eq_ok hblock, onMetas, silent,
      Outcome.ok_bind, Outcome.pure_eq_ok, if_true]
    refine .quiet ⟨t, h.keep (by simp [hpoint]) (fun _ _ hp => by cases hp) ?_ ?_ fun _ _ hb =>
      live_store (Heap.lt_next hblock) hb⟩ rfl
    · simp [Worker.fds, hpoint]
    · simp [Worker.metas, hpoint]
  | _ => simp only [hpoint]; exact .stuck

/-- The worker counts the request it has served. -/
theorem Inv.handle {s : Server n} {t : Queue.QState (ServerTid n) Int} (h : Inv s t)
    (w : Fin n) (isStatic : Int) : Closes s (silent (s.handle w isStatic)) := by
  unfold Server.handle
  cases hpoint : (s.workers w).point with
  | dispatched m =>
    have hmem : m.metaData ∈ (s.workers w).metas := by simp [Worker.metas, hpoint]
    obtain ⟨block, hblock⟩ := h.live_worker hmem
    simp only [hpoint, Heap.load_eq_ok hblock, Heap.store_eq_ok hblock, onMetas, silent,
      Outcome.ok_bind, Outcome.pure_eq_ok]
    split
    · -- The request failed before it was known to be static or dynamic.
      exact .quiet ⟨t, h.keep (by simp [hpoint]) (fun _ _ hp => by cases hp)
        (by simp [Worker.fds, hpoint]) (by simp [Worker.metas, hpoint]) fun _ _ hb => ⟨_, hb⟩⟩ rfl
    · split
      · refine .quiet ⟨t, h.keep (by simp [hpoint]) ?_ ?_ ?_ fun _ _ hb =>
          live_store (Heap.lt_next hblock) hb⟩ rfl
        · split <;> exact fun _ _ hp => by cases hp
        · split <;> simp [Worker.fds, hpoint]
        · split <;> simp [Worker.metas, hpoint]
      · exact .stuck
  | _ => simp only [hpoint]; exact .stuck

/-- The worker frees the metadata. -/
theorem Inv.free {s : Server n} {t : Queue.QState (ServerTid n) Int} (h : Inv s t)
    (w : Fin n) : Closes s (silent (s.free w)) := by
  unfold Server.free
  cases hpoint : (s.workers w).point with
  | handled m =>
    have hmetas : (s.workers w).metas = {m.metaData} := by simp [Worker.metas, hpoint]
    obtain ⟨block, hblock⟩ := h.live_worker (w := w) (a := m.metaData) (by simp [hmetas])
    simp only [hpoint, Heap.free_eq_ok hblock, onMetas, silent, Outcome.ok_bind, Outcome.pure_eq_ok]
    generalize hworker : ({ s.workers w with point := .freed m } : Worker) = worker
    have hwmetas : worker.metas = 0 := by rw [← hworker]; rfl
    have hwfds : worker.fds = (s.workers w).fds := by
      rw [← hworker]
      simp [Worker.fds, hpoint]
    have hsum := sum_metas_setWorker s w worker
    rw [hwmetas, hmetas, add_zero] at hsum
    have hall : s.allMetas t = s.main.metas (t.threads none).kont + t.data.metas +
        ∑ u, ((s.setWorker w worker).workers u).metas +
        (([m.metaData] : List Nat) : Multiset Nat) := by
      rw [Server.allMetas, ← hsum, Multiset.coe_singleton]
      exact (add_assoc _ _ _).symm
    -- The block leaves the hands of the worker, so it is in nobody's.
    obtain ⟨-, -, hnodup, hlive⟩ := metas_split hall h.metas_nodup h.metas_live
    have hgot : ∀ code m', worker.point ≠ .got code m' := by
      rw [← hworker]
      exact fun _ _ hp => by cases hp
    refine .quiet ⟨t, h.outside rfl rfl id (fun _ hu => getting_setWorker (by simp [hpoint]) hu)
      (fun _ _ _ hu => got_setWorker hgot hu) h.closing ?_ hnodup (hlive _ fun b hb =>
        Heap.setCell_cell_of_ne (Heap.lt_next hblock) (List.ne_of_not_mem_cons hb))⟩ rfl
    exact h.fds.trans (congrArg (s.main.fds s.dropped (t.threads none).kont + t.data.fds + ·)
      (sum_fds_of_eq hwfds).symm)
  | _ => simp only [hpoint]; exact .stuck

/-- The worker closes its connection. -/
theorem Inv.close {s : Server n} {t : Queue.QState (ServerTid n) Int} (h : Inv s t)
    (w : Fin n) : Closes s (s.close w) := by
  unfold Server.close
  cases hpoint : (s.workers w).point with
  | freed m =>
    generalize hworker : ({ s.workers w with point := .idle } : Worker) = worker
    have hwfds : worker.fds = 0 := by rw [← hworker]; rfl
    have hfds : (s.workers w).fds = {some m.content} := by simp [Worker.fds, hpoint]
    have hmetas : worker.metas = (s.workers w).metas := by
      rw [← hworker]
      simp [Worker.metas, hpoint]
    -- The descriptor of the worker leaves the sum.
    have hsum := sum_fds_setWorker s w worker
    rw [hwfds, hfds, add_zero] at hsum
    have hheld : s.openFds.val.map some = some m.content ::ₘ
        (s.main.fds s.dropped (t.threads none).kont + t.data.fds +
          ∑ u, ((s.setWorker w worker).workers u).fds) := by
      rw [h.fds, ← hsum, ← Multiset.singleton_add]
      abel
    -- The worker holds the descriptor, so it is open, and closing it leaves the others.
    obtain ⟨hopen, herase⟩ := erase_fds hheld
    have hall : s.allMetas t = s.main.metas (t.threads none).kont + t.data.metas +
        ∑ u, ((s.setWorker w worker).workers u).metas := by
      rw [sum_metas_of_eq hmetas, Server.allMetas]
    have hnodup := h.metas_nodup
    have hlive := h.metas_live
    rw [hall] at hnodup hlive
    simp only [hpoint, Server.closeFd, hworker]
    rw [if_pos (show m.content ∈ (s.setWorker w worker).openFds from hopen)]
    have hgot : ∀ code m', worker.point ≠ .got code m' := by
      rw [← hworker]
      exact fun _ _ hp => by cases hp
    exact .closed ⟨t, h.outside rfl rfl id (fun _ hu => getting_setWorker (by simp [hpoint]) hu)
      (fun _ _ _ hu => got_setWorker hgot hu) h.closing herase hnodup hlive⟩ hopen rfl
      ⟨m, hpoint, rfl⟩
  | _ => simp only [hpoint]; exact .stuck

/-! ## Steps and runs -/

/-- A step of the queue opens and closes nothing. -/
theorem queueStep_openFds {s s' : Server n}
    {a : Monitor.Action (ServerTid n) (List Nat) (Call Int)} (h : s.queueStep a = .ok s') :
    s'.openFds = s.openFds := by
  have hreturned : ∀ (s : Server n) o, (s.returned o).openFds = s.openFds := by
    intro s o
    unfold Server.returned
    split <;> rfl
  unfold Server.queueStep at h
  split at h
  · cases h
  · cases h
  · -- Freeing the blocks of dropped messages touches no descriptor.
    split at h
    · cases h
    · cases h
    · cases h
      exact hreturned _ _

/-- An action without output closes nothing. -/
theorem closes_silent {s : Server n} {r : Outcome ServerFault (Server n)} (hgood : Good r)
    (hfds : ∀ s', r = .ok s' → s'.openFds = s.openFds) : Closes s (silent r) := by
  cases r with
  | stuck => exact .stuck
  | fault e => exact absurd hgood id
  | ok s' => exact .quiet hgood (hfds s' rfl)

/-- Every step of the server keeps the invariant. -/
theorem Inv.step {s : Server n} {t : Queue.QState (ServerTid n) Int} (h : Inv s t)
    (a : ServerAction n) : Closes s ((machine n).step s a) := by
  -- One case for each action: the lemmas above, with the queue steps made silent.
  cases a with
  | accept connfd => exact h.accept connfd
  | build block now => exact h.build block now
  | put =>
    refine closes_silent h.put fun s' hs' => ?_
    unfold Server.put at hs'
    split at hs'
    · have hfds := queueStep_openFds hs'
      exact hfds
    · cases hs'
  | closeDropped => exact h.closeDropped
  | get w =>
    refine closes_silent (h.get w) fun s' hs' => ?_
    unfold Server.get at hs'
    split at hs'
    · have hfds := queueStep_openFds hs'
      exact hfds
    · cases hs'
  | run i rands woken => exact closes_silent (h.run i rands woken) fun _ => queueStep_openFds
  | wakeSpuriously i => exact closes_silent (h.spurious i) fun _ => queueStep_openFds
  | dispatch w now => exact h.dispatch w now
  | handle w isStatic => exact h.handle w isStatic
  | free w => exact h.free w
  | close w => exact h.close w

/-- How often a descriptor was accepted, and how often it was closed. -/
def accepts (fd : Int) (out : List (ServerEvent n)) : Nat := out.count (.accepted fd)

/-- How often a descriptor is closed. -/
def closes (fd : Int) (out : List (ServerEvent n)) : Nat :=
  out.countP fun
    | .closed _ fd' => fd' = fd
    | .accepted _ => false

/-- What the events say is what happens to the descriptors: a connection is open when it
    was accepted once more than it was closed. -/
def Balanced (s : Server n) (out : List (ServerEvent n)) : Prop :=
  ∀ fd, accepts fd out = closes fd out + if fd ∈ s.openFds then 1 else 0

/-- A step that closes what it takes from the open ones keeps the balance. -/
theorem Balanced.step {s s' : Server n} {out o : List (ServerEvent n)} (h : s.Balanced out)
    (hstep : Closes s (.ok (s', o))) : s'.Balanced (out ++ o) := by
  intro fd
  have hfd := h fd
  simp only [accepts, closes, List.count_append, List.countP_append] at hfd ⊢
  cases hstep with
  | quiet _ hfds => simpa [hfds] using hfd
  | @accepted _ fd' _ hnew hfds =>
    -- Only the count of the accepted descriptor changes, together with its place in the set.
    rw [hfds]
    by_cases heq : fd = fd'
    · subst heq
      simp [hnew] at hfd ⊢
      omega
    · have : fd' ≠ fd := Ne.symm heq
      simp [heq, this] at hfd ⊢
      omega
  | @closed _ i fd' _ hopen hfds _ =>
    rw [hfds]
    by_cases heq : fd = fd'
    · subst heq
      simp [hopen] at hfd ⊢
      omega
    · have : fd' ≠ fd := Ne.symm heq
      simp [heq, this] at hfd ⊢
      omega

/-- The descriptors in the hands of a thread, and those in the queue. -/
def held (s : Server n) : ServerTid n → Multiset (Option Int)
  | none => s.main.fds s.dropped (s.queue.threads none).kont
  | some w => (s.workers w).fds

/-- The connections in the queue. -/
def queued (s : Server n) : Multiset (Option Int) :=
  ((MessageQueue.contents s.queue.data).map some : Multiset (Option Int))

/-- Every open connection is in one place: in the hands of the accept loop, in the queue,
    or in the hands of one worker. -/
def Owned (s : Server n) : Prop := s.openFds.val.map some = s.queued + ∑ i, s.held i

/-- The thread `i` closes `fd` in a step from `s` to `s'`, and it is the only owner. -/
structure ClosesOwn (s s' : Server n) (i : ServerTid n) (fd : Int) : Prop where
  releases : s.Releases i fd
  was_open : fd ∈ s.openFds
  held : some fd ∈ s.held i
  others : ∀ j, j ≠ i → some fd ∉ s.held j
  not_queued : some fd ∉ s.queued
  closed : fd ∉ s'.openFds ∧ some fd ∉ s'.queued ∧ ∀ j, some fd ∉ s'.held j

/-- What a call of the queue holds is the same with and without addresses. -/
theorem kontFds_forget (k : Option (Kont Ptr Int)) :
    kontFds (k.map Kont.forget) = kontFds k := by
  rcases k with _ | ⟨_ | _⟩ <;> rfl

/-- The invariant speaks about the descriptors where the code has them. -/
theorem Inv.owned {s : Server n} {t : Queue.QState (ServerTid n) Int} (h : Inv s t) :
    s.Owned := by
  obtain ⟨l, hrep⟩ := h.corr.1
  -- The abstract queue holds what the list in memory holds.
  have hqueued : s.queued = t.data.fds := by
    rw [queued, MessageQueue.contents, hrep.list.messages_eq, hrep.items]
    rfl
  have hkont : (t.threads none).kont = (s.queue.threads none).kont.map Kont.forget := by
    rw [h.corr.threads_eq, Status.kont_map]
  have hmain : s.held none = s.main.fds s.dropped (t.threads none).kont := by
    rw [hkont, held]
    cases s.main with
    | putting => exact (kontFds_forget _).symm
    | _ => rfl
  rw [Owned, Fintype.sum_option, hqueued, hmain, h.fds]
  show _ = t.data.fds + (_ + ∑ w, (s.workers w).fds)
  abel

/-- Whatever is in some hands or in the queue is open. -/
theorem Owned.mem {s : Server n} (h : s.Owned) {fd : Int} :
    some fd ∈ s.queued + ∑ i, s.held i ↔ fd ∈ s.openFds := by
  rw [← h, Multiset.mem_map]
  simp

/-- What one thread holds, nobody else holds. -/
theorem Owned.disjoint {s : Server n} (h : s.Owned) {fd : Int} {i : ServerTid n}
    (hi : some fd ∈ s.held i) : some fd ∉ s.queued ∧ ∀ j, j ≠ i → some fd ∉ s.held j := by
  -- The open descriptors are a set, so no two places share one.
  have hnodup : (s.queued + ∑ i, s.held i).Nodup := by
    rw [← h]
    exact s.openFds.nodup.map (Option.some_injective _)
  obtain ⟨-, hsum, hdisjoint⟩ := Multiset.nodup_add.mp hnodup
  refine ⟨fun hq => ?_, fun j hj hmem => ?_⟩
  · apply Multiset.disjoint_left.mp hdisjoint hq
    exact Multiset.mem_sum.mpr ⟨i, Finset.mem_univ i, hi⟩
  · rw [← Finset.add_sum_erase _ _ (Finset.mem_univ i)] at hsum
    apply Multiset.disjoint_left.mp (Multiset.nodup_add.mp hsum).2.2 hi
    exact Multiset.mem_sum.mpr ⟨j, Finset.mem_erase.mpr ⟨hj, Finset.mem_univ j⟩, hmem⟩

/-- A thread that is about to close a connection holds it. -/
theorem Releases.held {s : Server n} {i : ServerTid n} {fd : Int} (h : s.Releases i fd) :
    some fd ∈ s.held i := by
  cases i with
  | none =>
    obtain ⟨amount, k, hmain, hk, hdrop⟩ := h
    simp only [Server.held, hmain, MainPoint.fds, Multiset.mem_coe]
    rw [List.drop_eq_getElem_cons (by simp only [List.length_range]; omega)]
    simp [hdrop]
  | some w =>
    obtain ⟨m, hpoint, rfl⟩ := h
    simp [Server.held, Worker.fds, hpoint]

/-- A closing step closes what its thread alone holds. -/
theorem Closes.own {s s' : Server n} {o : List (ServerEvent n)} {i : ServerTid n} {fd : Int}
    (h : Closes s (.ok (s', o))) (howned : s.Owned) (hmem : .closed i fd ∈ o) :
    s.ClosesOwn s' i fd := by
  cases h with
  | quiet => exact absurd hmem List.not_mem_nil
  | accepted => simp at hmem
  | @closed _ i' fd' hinv hopen hfds hrel =>
    obtain ⟨rfl, rfl⟩ : i = i' ∧ fd = fd' := by simpa using hmem
    obtain ⟨t', hinv'⟩ := hinv
    obtain ⟨hqueued, hothers⟩ := howned.disjoint hrel.held
    have hclosed : fd ∉ s'.openFds := by
      rw [hfds]
      exact Finset.notMem_erase fd s.openFds
    refine ⟨hrel, hopen, hrel.held, hothers, hqueued, hclosed, fun hq => hclosed ?_,
      fun j hj => hclosed ?_⟩
    · exact hinv'.owned.mem.mp (Multiset.mem_add.mpr (.inl hq))
    · apply hinv'.owned.mem.mp
      exact Multiset.mem_add.mpr (.inr (Multiset.mem_sum.mpr ⟨j, Finset.mem_univ j, hj⟩))

/-- The invariant holds in a server that starts. -/
theorem inv_initial {queueSize : Int} (schedPolicy : MQSchedPolicy) (hsize : 1 ≤ queueSize) :
    Inv (initial n queueSize schedPolicy)
      (Monitor.initial (Queue.initial queueSize schedPolicy)) where
  corr := MessageQueue.corresponds_initial queueSize schedPolicy
  history := ⟨[], Queue.exec_history (Machine.exec_nil _ _)⟩
  capacity := hsize
  dropSize := rfl
  amounts _ _ _ _ _ h := nomatch h
  main_in _ h := nomatch h
  worker_in _ _ h := nomatch h
  worker_got _ _ _ h := nomatch h
  closing _ _ h := nomatch h
  fds := by simp [initial, MainPoint.fds, Queue.fds, Queue.contents, Queue.initial,
    Monitor.initial, Worker.fds]
  metas_nodup := by simp [allMetas, initial, MainPoint.metas, Queue.metas, Queue.initial,
    Monitor.initial, Worker.metas]
  metas_live := by simp [allMetas, initial, MainPoint.metas, Queue.metas, Queue.initial,
    Monitor.initial, Worker.metas]

/-- The invariant holds after every run, and the events of the run are balanced. -/
theorem exec_inv {queueSize : Int} {schedPolicy : MQSchedPolicy} (hsize : 1 ≤ queueSize)
    {acts : List (ServerAction n)} {s : Server n} {out : List (ServerEvent n)}
    (h : (machine n).exec (initial n queueSize schedPolicy) acts = .ok (s, out)) :
    (∃ t, Inv s t) ∧ s.Balanced out := by
  refine Machine.exec_invariant (I := fun s out => (∃ t, Inv s t) ∧ s.Balanced out)
    ⟨⟨_, inv_initial schedPolicy hsize⟩, fun _ => rfl⟩ ?_ h
  -- The step lemma is `Inv.step`; its result says how the events and the descriptors agree.
  intro s out a s' o h hstep
  obtain ⟨⟨t, hinv⟩, hbalanced⟩ := h
  have hcloses := hinv.step a
  rw [hstep] at hcloses
  refine ⟨?_, hbalanced.step hcloses⟩
  cases hcloses with
  | quiet hinv' => exact hinv'
  | accepted hinv' => exact hinv'
  | closed hinv' => exact hinv'

/-- In every run of the server, every open connection is in one place, and every next step
    succeeds in all it does with memory and descriptors: it touches no freed block, frees
    none twice, and closes only a connection that its thread alone holds. -/
theorem server_ownership (queueSize : Int) (schedPolicy : MQSchedPolicy) (hsize : 1 ≤ queueSize)
    (acts : List (ServerAction n)) (s : Server n) (out : List (ServerEvent n))
    (h : (machine n).exec (initial n queueSize schedPolicy) acts = .ok (s, out)) :
    s.Owned ∧ s.Balanced out ∧
      ∀ a, (∀ e, (machine n).step s a ≠ .fault e) ∧
        ∀ s' o, (machine n).step s a = .ok (s', o) →
          ∀ i fd, .closed i fd ∈ o → s.ClosesOwn s' i fd := by
  obtain ⟨⟨t, hinv⟩, hbalanced⟩ := exec_inv hsize h
  refine ⟨hinv.owned, hbalanced, fun a => ⟨fun e he => ?_, fun s' o hstep i fd hmem => ?_⟩⟩
  · have hcloses := hinv.step a
    rw [he] at hcloses
    cases hcloses
  · have hcloses := hinv.step a
    rw [hstep] at hcloses
    exact hcloses.own hinv.owned hmem

/-- One worker, a drop-head queue of capacity 1 and two connections: the first is dropped
    and closed by the accept loop, the second is served and closed by the worker. -/
def dropHeadServerRun : List (ServerAction 1) :=
  let block : MetaData := ⟨⟨0, 0⟩, ⟨0, 0⟩, 0, 0, 0, 0⟩
  [.accept 5, .build block ⟨1, 0⟩, .put, .run none [] none,
   .accept 6, .build block ⟨2, 0⟩, .put, .run none [] none, .run none [] none,
   .closeDropped, .closeDropped, .get 0, .run (some 0) [] none, .dispatch 0 ⟨3, 0⟩, .handle 0 1,
   .free 0]

theorem server_ownership_dropHeadServerRun :
    ∃ s out, (machine 1).exec (initial 1 1 .dropHead) dropHeadServerRun = .ok (s, out) ∧
      out = [.accepted 5, .accepted 6, .closed none 5] ∧ s.openFds = {6} ∧
      s.Owned ∧ s.Balanced out ∧
      ∀ a, (∀ e, (machine 1).step s a ≠ .fault e) ∧
        ∀ s' o, (machine 1).step s a = .ok (s', o) →
          ∀ i fd, .closed i fd ∈ o → s.ClosesOwn s' i fd :=
  ⟨_, _, rfl, rfl, by decide, server_ownership 1 .dropHead (by decide) dropHeadServerRun _ _ rfl⟩

end Server

end OsWet
