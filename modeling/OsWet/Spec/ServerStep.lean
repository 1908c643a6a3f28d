import OsWet.Spec.DropBuffer
import OsWet.Spec.QueueProgress
import OsWet.Spec.ServerOwnership

/-!
# The steps of the server

What one step of the server can do. In a step through the queue the code follows the abstract
queue, the metadata blocks that the queue frees are freed in the server's memory, and the caller
goes on with what it was returned. In any other step one thread moves to its next point.

- `queueRun_cases`, `queueCall_cases`, `queueWake_cases`: the steps through the queue
- `Outside`: the steps of one thread outside the queue
- `step_cases`: all of them
-/

namespace OsWet

/-- Every step of the abstract queue only adds to the freed blocks. -/
theorem Queue.step_metaFrees {Tid : Type} [DecidableEq Tid] [Fintype Tid]
    {t t' : Queue.QState Tid Int} {a : Monitor.Action Tid (List Nat) (Call Int)}
    {o : List (Tid × Ret Int)} (h : (Queue.monitor Int).machine.step t a = .ok (t', o)) :
    ∃ frees, t'.data.metaFrees = t.data.metaFrees ++ frees := by
  cases a with
  | call i c =>
    obtain ⟨-, hdata, -⟩ := Queue.call_cases h
    exact ⟨[], by rw [hdata, List.append_nil]⟩
  | run i rands woken =>
    obtain ⟨k, g, -, hmove, hdata, -⟩ := Queue.run_cases h
    obtain ⟨frees, hfrees, -⟩ := hmove.metas_eq
    exact ⟨frees, hdata ▸ hfrees⟩
  | spurious i =>
    obtain ⟨hdata, -⟩ := Queue.spurious_cases h
    exact ⟨[], by rw [hdata, List.append_nil]⟩

/-- Where the accept loop goes on outside the queue. -/
inductive MainPoint.Next {n : Nat} : ServerAction n → MainPoint → MainPoint → Prop
  | accept (connfd : Int) : Next (.accept connfd) .accepting (.accepted connfd)
  | build (block : MetaData) (now : Timeval) (connfd : Int) (metaData : Nat) :
    Next (.build block now) (.accepted connfd) (.created ⟨connfd, metaData⟩)
  | closeOne {amount : Int} {i : Nat} (h : (i : Int) < amount) :
    Next .closeDropped (.closing amount i) (.closing amount (i + 1))
  | closeEnd {amount : Int} {i : Nat} (h : ¬ (i : Int) < amount) :
    Next .closeDropped (.closing amount i) .accepting

/-- Where a worker goes on outside the queue. -/
inductive WorkerPoint.Next {n : Nat} (w : Fin n) :
    ServerAction n → WorkerPoint → WorkerPoint → Prop
  | dispatch (now : Timeval) (m : Message Int) :
    Next w (.dispatch w now) (.got .success (some m)) (.dispatched m)
  | handle (isStatic : Int) (m : Message Int) :
    Next w (.handle w isStatic) (.dispatched m) (.handled m)
  | free (m : Message Int) : Next w (.free w) (.handled m) (.freed m)
  | close (m : Message Int) : Next w (.close w) (.freed m) .idle

/-- A state of the code corresponds to one abstract queue only. -/
theorem MessageQueue.Corresponds.unique {Tid : Type} {α : Type}
    {s : Monitor.State Tid (QueueMem α) (Kont Ptr α) CondVar} {t t' : Queue.QState Tid α}
    (h : MessageQueue.Corresponds s t) (h' : MessageQueue.Corresponds s t') : t' = t := by
  obtain ⟨⟨l, hrep⟩, hlock, hthreads⟩ := h
  obtain ⟨⟨l', hrep'⟩, hlock', hthreads'⟩ := h'
  have hitems : t'.data.items = t.data.items := by
    rw [← hrep'.items, ← hrep.items, ← hrep'.list.messages_eq, hrep.list.messages_eq]
  obtain ⟨data, lock, threads⟩ := t
  obtain ⟨data', lock', threads'⟩ := t'
  obtain ⟨capacity, schedPolicy, items, metaFrees⟩ := data
  obtain ⟨capacity', schedPolicy', items', metaFrees'⟩ := data'
  cases hrep.capacity.symm.trans hrep'.capacity
  cases hrep.schedPolicy.symm.trans hrep'.schedPolicy
  cases hrep.metaFrees.symm.trans hrep'.metaFrees
  cases hlock.trans hlock'.symm
  cases hthreads.trans hthreads'.symm
  cases hitems
  rfl

namespace Server

variable {n : Nat} {s s' : Server n} {t : Queue.QState (ServerTid n) Int}

/-- The queue takes the step of the abstract queue, and its blocks are freed. -/
theorem queueStep_cases {a : Monitor.Action (ServerTid n) (List Nat) (Call Int)}
    (hR : MessageQueue.Corresponds s.queue t) (h : s.queueStep a = .ok s') :
    ∃ queue t' o frees metas, (Queue.monitor Int).machine.step t a = .ok (t', o) ∧
      MessageQueue.Corresponds queue t' ∧ t'.data.metaFrees = t.data.metaFrees ++ frees ∧
      freeMetas frees s.metas = .ok metas ∧
      s' = ({ s with queue := queue, metas := metas } : Server n).returned o := by
  unfold Server.queueStep at h
  split at h
  · cases h
  · cases h
  · -- The step of the pointer queue is one of the abstract queue.
    rename_i queue o hstep
    obtain ⟨t', hstep', hR'⟩ := MessageQueue.monitor_refines.simulates _ _ _ _ _ hR hstep
    obtain ⟨l, hrep⟩ := hR.1
    obtain ⟨l', hrep'⟩ := hR'.1
    -- What the list of freed blocks has grown by.
    obtain ⟨frees, hfrees⟩ := Queue.step_metaFrees hstep'
    have hdrop : queue.data.metaFrees.drop s.queue.data.metaFrees.length = frees := by
      rw [hrep'.metaFrees, hrep.metaFrees, hfrees, List.drop_left]
    rw [hdrop] at h
    -- The metadata of the dropped messages is freed right after it.
    split at h
    · cases h
    · cases h
    · rename_i metas hmetas
      cases h
      exact ⟨queue, t', o, frees, metas, hstep', hR', hfrees, hmetas, rfl⟩

/-- A segment of the queue, run by the thread `i`, which has `k` to do and ends with `g`. -/
structure QueueRun (s : Server n) (t : Queue.QState (ServerTid n) Int) (i : ServerTid n)
    (k : Kont Unit Int) (g : Queue.End Int) (s' : Server n)
    (t' : Queue.QState (ServerTid n) Int) : Prop where
  step : ∃ a o, (Queue.monitor Int).machine.step t a = .ok (t', o)
  runnable : t.runnable i = some k
  move : Queue.Move t.data k g
  completes : k.Completes
  data : t'.data = g.data
  kont : ∀ u, (t'.threads u).kont = Function.update (fun u => (t.threads u).kont) i g.kont u
  awake : Monitor.awakeCount t'.threads + (if g.waits then 1 else 0) ≤
    Monitor.awakeCount t.threads
  corr : MessageQueue.Corresponds s'.queue t'
  after : ∃ queue frees metas, g.data.metaFrees = t.data.metaFrees ++ frees ∧
    freeMetas frees s.metas = .ok metas ∧
    s' = ({ s with queue := queue, metas := metas } : Server n).returned
      ((Queue.End.ret g).toList.map fun r => (i, r))

/-- A thread runs its segment of the queue. -/
theorem queueRun_cases {i : ServerTid n} {rands : List Nat} {woken : Option (ServerTid n)}
    (h : Inv s t) (hs : s.queueStep (.run i rands woken) = .ok s') :
    ∃ k g t', QueueRun s t i k g s' t' := by
  obtain ⟨queue, t', o, frees, metas, hstep, hR', hfrees, hmetas, rfl⟩ :=
    queueStep_cases h.corr hs
  obtain ⟨k, g, hrun, hseg, hdata, hkont, rfl⟩ := Monitor.run_cases hstep
  obtain ⟨out, hhistory⟩ := h.history
  refine ⟨k, g, t', ⟨_, _, hstep⟩, hrun, Queue.segment_eq_ok hseg,
    hhistory.completes i k (Monitor.State.kont_of_runnable hrun), hdata, hkont,
    Monitor.awakeCount_run hstep hrun hseg, ?_, ?_⟩
  · rwa [returned_queue]
  · exact ⟨queue, frees, metas, hdata ▸ hfrees, hmetas, by rw [Queue.ret_eq]⟩

/-- A call of the queue by the thread `i`, which has `k` to do then. -/
structure QueueCall (s : Server n) (t : Queue.QState (ServerTid n) Int) (i : ServerTid n)
    (k : Kont Unit Int) (s' : Server n) (t' : Queue.QState (ServerTid n) Int) : Prop where
  step : ∃ a o, (Queue.monitor Int).machine.step t a = .ok (t', o)
  data : t'.data = t.data
  kont : ∀ u, (t'.threads u).kont = Function.update (fun u => (t.threads u).kont) i (some k) u
  awake : Monitor.awakeCount t'.threads = Monitor.awakeCount t.threads + 1
  corr : MessageQueue.Corresponds s'.queue t'
  after : ∃ queue, s' = { s with queue := queue }

/-- Nothing is freed when the abstract queue frees nothing. -/
private theorem frees_eq_nil {t' : Queue.QState (ServerTid n) Int} {frees : List Nat}
    {metas : Heap MetaData} (hdata : t'.data = t.data)
    (hfrees : t'.data.metaFrees = t.data.metaFrees ++ frees)
    (hmetas : freeMetas frees s.metas = .ok metas) : metas = s.metas := by
  rw [hdata, List.self_eq_append_right] at hfrees
  subst hfrees
  exact (Outcome.ok.inj hmetas).symm

/-- A thread calls the queue. -/
theorem queueCall_cases {i : ServerTid n} {c : Call Int} {k : Kont Unit Int}
    (hR : MessageQueue.Corresponds s.queue t) (hc : Queue.call c t.data = .ok (t.data, .inl k))
    (hs : s.queueStep (.call i c) = .ok s') : ∃ t', QueueCall s t i k s' t' := by
  obtain ⟨queue, t', o, frees, metas, hstep, hR', hfrees, hmetas, rfl⟩ := queueStep_cases hR hs
  have hawake := Monitor.awakeCount_call hstep hc
  obtain ⟨-, hdata, -, ⟨k', hc', rfl, hkont⟩ | ⟨r, hc', -⟩⟩ := Queue.call_cases hstep
  · cases hc'.symm.trans hc
    cases frees_eq_nil hdata hfrees hmetas
    exact ⟨t', ⟨_, _, hstep⟩, hdata, hkont, hawake, hR', queue, rfl⟩
  · cases hc'.symm.trans hc

/-- A spurious wake-up. -/
structure QueueWake (s : Server n) (t : Queue.QState (ServerTid n) Int) (s' : Server n)
    (t' : Queue.QState (ServerTid n) Int) : Prop where
  step : ∃ a o, (Queue.monitor Int).machine.step t a = .ok (t', o)
  data : t'.data = t.data
  kont : ∀ u, (t'.threads u).kont = (t.threads u).kont
  awake : Monitor.awakeCount t'.threads = Monitor.awakeCount t.threads + 1
  corr : MessageQueue.Corresponds s'.queue t'
  after : ∃ queue, s' = { s with queue := queue }

/-- A thread that waits wakes up for no reason. -/
theorem queueWake_cases {i : ServerTid n} (hR : MessageQueue.Corresponds s.queue t)
    (hs : s.queueStep (.spurious i) = .ok s') : ∃ t', QueueWake s t s' t' := by
  obtain ⟨queue, t', o, frees, metas, hstep, hR', hfrees, hmetas, rfl⟩ := queueStep_cases hR hs
  obtain ⟨hdata, -, rfl, hkont⟩ := Queue.spurious_cases hstep
  cases frees_eq_nil hdata hfrees hmetas
  exact ⟨t', ⟨_, _, hstep⟩, hdata, hkont, Monitor.awakeCount_spurious hstep, hR', queue, rfl⟩

/-! ## Where the accept loop and a worker go on -/

/-- A segment of the accept loop: it stays inside `MQPut`, or goes on to the next connection or
    to closing those that were dropped. -/
theorem QueueRun.main_cases {k : Kont Unit Int} {g : Queue.End Int}
    {t' : Queue.QState (ServerTid n) Int} (h : Inv s t) (hrun : QueueRun s t none k g s' t') :
    s.main = .putting ∧ s'.workers = s.workers ∧ s'.openFds = s.openFds ∧
    ∃ point message out, k = .put point () message out ∧
      ((∃ point' out', Queue.End.ret g = none ∧ g.kont = some (.put point' () message out') ∧
        s'.main = .putting) ∨
      ∃ out', Queue.End.ret g = some (.put (some message) out') ∧ g.kont = none ∧
        s'.main = if out'.result = .drop then .closing out'.droppedAmount 0 else .accepting) := by
  obtain ⟨hmain, hput⟩ := h.main_in k (Monitor.State.kont_of_runnable hrun.runnable)
  obtain ⟨queue, frees, metas, -, -, rfl⟩ := hrun.after
  cases k with
  | get => exact absurd trivial hput
  | put point newNode message out =>
    -- Either the put goes on, or it returns, and the loop over what was dropped is next.
    rcases hrun.move.put_cases with ⟨point', out', hret, hkont⟩ | ⟨out', hret, hkont⟩
    · rw [hret]
      exact ⟨hmain, rfl, rfl, point, message, out, rfl, .inl ⟨point', out', rfl, hkont, hmain⟩⟩
    · refine ⟨hmain, ?_, ?_, point, message, out, rfl, .inr ⟨out', hret, hkont, ?_⟩⟩
      · rw [hret]
        rfl
      · rw [hret]
        rfl
      · rw [hret]
        show (if out'.result = .drop then MainPoint.closing out'.droppedAmount 0
          else if out'.result = .success then .accepting else .stopped) = _
        -- The code is never one that would stop the accept loop.
        rcases hrun.move.completes_ret hrun.completes hret with hresult | hresult
        · rw [if_pos hresult]
        · rw [if_pos hresult, if_pos hresult]

/-- A segment of a worker: it stays inside `MQGet`, or has got a message. -/
theorem QueueRun.worker_cases {w : Fin n} {k : Kont Unit Int} {g : Queue.End Int}
    {t' : Queue.QState (ServerTid n) Int} (h : Inv s t)
    (hrun : QueueRun s t (some w) k g s' t') :
    (s.workers w).point = .getting ∧ k = .get ∧ s'.main = s.main ∧ s'.openFds = s.openFds ∧
      s'.metas = s.metas ∧
    ((Queue.End.ret g = none ∧ g.kont = some .get ∧ s'.workers = s.workers) ∨
      ∃ m, Queue.End.ret g = some (.get .success (some m)) ∧ g.kont = none ∧
        (t.data.items.head? = some m ∧ t'.data.items = t.data.items.tail) ∧
        s'.workers =
          Function.update s.workers w { s.workers w with point := .got .success m }) := by
  obtain ⟨hpoint, hget⟩ := h.worker_in w k (Monitor.State.kont_of_runnable hrun.runnable)
  obtain ⟨queue, frees, metas, hfrees, hmetas, rfl⟩ := hrun.after
  cases k with
  | put => exact absurd hget id
  | get =>
    -- The worker waits again, or has the oldest message.
    rcases hrun.move.get_cases with ⟨hret, hkont, hdata⟩ | ⟨m, items, hitems, hdata, hret, hkont⟩
    · -- In both cases nothing was dropped, so nothing is freed.
      rw [hdata, List.self_eq_append_right] at hfrees
      subst hfrees
      cases hmetas
      rw [hret]
      exact ⟨hpoint, rfl, rfl, rfl, rfl, .inl ⟨rfl, hkont, rfl⟩⟩
    · rw [hdata, List.self_eq_append_right] at hfrees
      subst hfrees
      cases hmetas
      rw [hret]
      refine ⟨hpoint, rfl, rfl, rfl, rfl, .inr ⟨m, rfl, hkont, ⟨?_, ?_⟩, rfl⟩⟩
      · rw [hitems]
        rfl
      · rw [hrun.data, hdata, hitems]
        rfl

/-! ## The steps outside the queue -/

/-- A step outside the queue: one thread moves. A block that is live afterwards is in its hands
    then, or was live before and not in its hands. -/
inductive Outside (s : Server n) : ServerAction n → Server n → Prop
  | main {a : ServerAction n} {s' : Server n} (next : MainPoint.Next a s.main s'.main)
    (queue : s'.queue = s.queue) (workers : s'.workers = s.workers)
    (live : ∀ (k : Option (Kont Unit Int)) b, s'.metas.cell b ≠ none →
      b ∈ s'.main.metas k ∨ s.metas.cell b ≠ none ∧ b ∉ s.main.metas k) : Outside s a s'
  | worker {a : ServerAction n} {s' : Server n} {w : Fin n} {worker : Worker}
    (next : WorkerPoint.Next w a (s.workers w).point worker.point) (queue : s'.queue = s.queue)
    (main : s'.main = s.main) (workers : s'.workers = Function.update s.workers w worker)
    (live : ∀ b, s'.metas.cell b ≠ none → b ∈ worker.metas ∨
      s.metas.cell b ≠ none ∧ b ∉ (s.workers w).metas) : Outside s a s'

/-- A step that keeps the blocks as they are, by a thread that keeps its own. -/
private theorem live_of_same {held held' : Multiset Nat} {heap heap' : Heap MetaData}
    (hheld : held' = held) (hheap : ∀ b, heap'.cell b = none ↔ heap.cell b = none) (b : Nat)
    (hb : heap'.cell b ≠ none) : b ∈ held' ∨ heap.cell b ≠ none ∧ b ∉ held := by
  by_cases hmem : b ∈ held
  · exact .inl (hheld ▸ hmem)
  · exact .inr ⟨fun hnone => hb ((hheap b).mpr hnone), hmem⟩

/-- An access to metadata that succeeds. -/
theorem onMetas_eq_ok {β : Type} {x : Outcome MemFault β} {y : β} :
    onMetas x = .ok y ↔ x = .ok y := by
  cases x <;> simp [onMetas]

/-- A connection is accepted. -/
theorem accept_cases {connfd : Int} {o : List (ServerEvent n)}
    (h : s.accept connfd = .ok (s', o)) : Outside s (.accept connfd) s' := by
  unfold Server.accept at h
  split at h
  · rename_i hmain
    split at h
    · cases h
    · cases h
      exact .main (by rw [hmain]; exact .accept connfd) rfl rfl
        fun k => live_of_same (by rw [hmain]; rfl) fun _ => Iff.rfl
  · cases h

/-- Its message is built. -/
theorem build_cases {block : MetaData} {now : Timeval} (h : s.build block now = .ok s') :
    Outside s (.build block now) s' := by
  unfold Server.build at h
  split at h
  · rename_i connfd hmain
    obtain ⟨metas, hstore, h⟩ := Outcome.bind_eq_ok.mp h
    have hcell := Heap.store_cell_eq_none (onMetas_eq_ok.mp hstore)
    cases h
    refine .main (by rw [hmain]; exact .build block now connfd _) rfl rfl fun k b hb => ?_
    -- The new block is in the hands of the accept loop, which had none before.
    by_cases hnew : b = s.metas.next
    · exact .inl (by simp [MainPoint.metas, hnew])
    · refine .inr ⟨fun hnone => hb ((hcell b).mpr ?_), by simp [hmain, MainPoint.metas]⟩
      exact (Heap.alloc_cell_of_ne block hnew).trans hnone
  · cases h

/-- A descriptor is closed. -/
theorem closeFd_cases {s₁ : Server n} {i : ServerTid n} {fd : Int} {o : List (ServerEvent n)}
    (h : s₁.closeFd i fd = .ok (s', o)) : s' = { s₁ with openFds := s₁.openFds.erase fd } := by
  unfold Server.closeFd at h
  split at h
  · cases h
    rfl
  · cases h

/-- The accept loop closes what was dropped. -/
theorem closeDropped_cases {o : List (ServerEvent n)} (h : s.closeDropped = .ok (s', o)) :
    Outside s .closeDropped s' := by
  unfold Server.closeDropped at h
  split at h
  · rename_i amount i hmain
    split at h
    · rename_i hi
      split at h
      · split at h
        · cases h
        · rw [closeFd_cases h]
          exact .main (by rw [hmain]; exact .closeOne hi) rfl rfl
            fun k => live_of_same (by rw [hmain]; rfl) fun _ => Iff.rfl
      · cases h
    · rename_i hi
      cases h
      exact .main (by rw [hmain]; exact .closeEnd hi) rfl rfl
        fun k => live_of_same (by rw [hmain]; rfl) fun _ => Iff.rfl
  · cases h

/-- The worker keeps its block, and fills it in. -/
theorem dispatch_cases {w : Fin n} {now : Timeval} (hinv : Inv s t)
    (h : s.dispatch w now = .ok s') : Outside s (.dispatch w now) s' := by
  unfold Server.dispatch at h
  simp only at h
  split at h
  · cases h
  · rename_i code m hpoint
    obtain ⟨rfl, -⟩ := hinv.worker_got w code _ hpoint
    obtain ⟨block, hload, h⟩ := Outcome.bind_eq_ok.mp h
    rw [if_pos rfl] at h
    obtain ⟨metas, hstore, h⟩ := Outcome.bind_eq_ok.mp h
    cases h
    exact .worker (by rw [hpoint]; exact .dispatch now m) rfl rfl rfl
      (live_of_same (by simp [Worker.metas, hpoint])
        (Heap.store_cell_eq_none (onMetas_eq_ok.mp hstore)))
  · cases h

/-- A worker handles the request. -/
theorem handle_cases {w : Fin n} {isStatic : Int} (h : s.handle w isStatic = .ok s') :
    Outside s (.handle w isStatic) s' := by
  unfold Server.handle at h
  simp only at h
  split at h
  · -- The worker is at `requestHandle`, whose result decides what the message block is told.
    rename_i m hpoint
    split at h
    · cases h
      exact .worker (by rw [hpoint]; exact .handle isStatic m) rfl rfl rfl
        (live_of_same (by simp [Worker.metas, hpoint]) fun _ => Iff.rfl)
    · split at h
      · obtain ⟨block, hload, h⟩ := Outcome.bind_eq_ok.mp h
        obtain ⟨metas, hstore, h⟩ := Outcome.bind_eq_ok.mp h
        cases h
        refine .worker ?_ rfl rfl rfl (live_of_same ?_
          (Heap.store_cell_eq_none (onMetas_eq_ok.mp hstore)))
        · rw [hpoint]
          split <;> exact .handle isStatic m
        · split <;> simp [Worker.metas, hpoint]
      · cases h
  · cases h

/-- A worker frees the metadata. -/
theorem free_cases {w : Fin n} (h : s.free w = .ok s') : Outside s (.free w) s' := by
  unfold Server.free at h
  simp only at h
  split at h
  · rename_i m hpoint
    obtain ⟨metas, hfree, h⟩ := Outcome.bind_eq_ok.mp h
    obtain ⟨hgone, hsame⟩ := Heap.free_cell (onMetas_eq_ok.mp hfree)
    cases h
    refine .worker (by rw [hpoint]; exact .free m) rfl rfl rfl fun b hb => .inr ?_
    have hb' : b ≠ m.metaData := fun heq => hb (heq ▸ hgone)
    exact ⟨by rw [← hsame b hb']; exact hb, by simp [Worker.metas, hpoint, hb']⟩
  · cases h

/-- A worker closes the connection. -/
theorem close_cases {w : Fin n} {o : List (ServerEvent n)} (h : s.close w = .ok (s', o)) :
    Outside s (.close w) s' := by
  unfold Server.close at h
  simp only at h
  split at h
  · rename_i m hpoint
    rw [closeFd_cases h]
    exact .worker (by rw [hpoint]; exact .close m) rfl rfl rfl
      (live_of_same (by simp [Worker.metas, hpoint]) fun _ => Iff.rfl)
  · cases h

/-! ## All steps -/

/-- One step of the server, with the abstract queue before and after it. -/
inductive Steps (s : Server n) (t : Queue.QState (ServerTid n) Int) :
    ServerAction n → Server n → Queue.QState (ServerTid n) Int → Prop
  | outside {a : ServerAction n} {s' : Server n} (h : Outside s a s') : Steps s t a s' t
  | put {message : Message Int} {out : PutOut Int} {s' : Server n}
    {t' : Queue.QState (ServerTid n) Int} (hmain : s.main = .created message)
    (hwork : out.work = 0)
    (hcall : QueueCall { s with main := .putting } t none (.put .loop () message out) s' t') :
    Steps s t .put s' t'
  | get {w : Fin n} {s' : Server n} {t' : Queue.QState (ServerTid n) Int}
    (hpoint : (s.workers w).point = .idle)
    (hcall : QueueCall (s.setWorker w { s.workers w with point := .getting }) t (some w) .get
      s' t') : Steps s t (.get w) s' t'
  | run {i : ServerTid n} {rands : List Nat} {woken : Option (ServerTid n)} {k : Kont Unit Int}
    {g : Queue.End Int} {s' : Server n} {t' : Queue.QState (ServerTid n) Int}
    (hrun : QueueRun s t i k g s' t') : Steps s t (.run i rands woken) s' t'
  | wake {i : ServerTid n} {s' : Server n} {t' : Queue.QState (ServerTid n) Int}
    (hwake : QueueWake s t s' t') : Steps s t (.wakeSpuriously i) s' t'

/-- An action without output is done. -/
private theorem ok_of_silent {r : Outcome ServerFault (Server n)} {o : List (ServerEvent n)} :
    silent r = .ok (s', o) → r = .ok s' := by
  intro h
  obtain ⟨s₁, hr, h⟩ := Outcome.bind_eq_ok.mp h
  cases h
  exact hr

/-- A step of the machine is a step outside the queue, or one of the queue. -/
theorem step_cases (hinv : Inv s t) {a : ServerAction n} {o : List (ServerEvent n)}
    (h : (machine n).step s a = .ok (s', o)) : ∃ t', Steps s t a s' t' := by
  -- What does not touch the queue leaves its abstract copy `t`.
  cases a with
  | accept connfd => exact ⟨t, .outside (accept_cases h)⟩
  | build block now => exact ⟨t, .outside (build_cases (ok_of_silent h))⟩
  -- A call of the queue is one step of the queue.
  | put =>
    have hput : s.put = .ok s' := ok_of_silent h
    unfold Server.put at hput
    split at hput
    · rename_i message hmain
      have hcorr : MessageQueue.Corresponds ({ s with main := .putting } : Server n).queue t :=
        hinv.corr
      obtain ⟨t', hcall⟩ := queueCall_cases hcorr rfl hput
      exact ⟨t', .put hmain rfl hcall⟩
    · cases hput
  | closeDropped => exact ⟨t, .outside (closeDropped_cases h)⟩
  | get w =>
    have hget : s.get w = .ok s' := ok_of_silent h
    unfold Server.get at hget
    split at hget
    · rename_i hpoint
      have hcorr : MessageQueue.Corresponds
          (s.setWorker w { s.workers w with point := .getting }).queue t := hinv.corr
      obtain ⟨t', hcall⟩ := queueCall_cases hcorr rfl hget
      exact ⟨t', .get hpoint hcall⟩
    · cases hget
  | run i rands woken =>
    obtain ⟨k, g, t', hrun⟩ := queueRun_cases hinv (ok_of_silent h)
    exact ⟨t', .run hrun⟩
  | wakeSpuriously i =>
    obtain ⟨t', hwake⟩ := queueWake_cases hinv.corr (ok_of_silent h)
    exact ⟨t', .wake hwake⟩
  | dispatch w now => exact ⟨t, .outside (dispatch_cases hinv (ok_of_silent h))⟩
  | handle w isStatic => exact ⟨t, .outside (handle_cases (ok_of_silent h))⟩
  | free w => exact ⟨t, .outside (free_cases (ok_of_silent h))⟩
  | close w => exact ⟨t, .outside (close_cases h)⟩

/-- The next state of the abstract queue. -/
theorem Steps.queue {a : ServerAction n} {t' : Queue.QState (ServerTid n) Int}
    (h : Steps s t a s' t') (hinv : Inv s t) :
    MessageQueue.Corresponds s'.queue t' ∧
      (t' = t ∨ ∃ b o, (Queue.monitor Int).machine.step t b = .ok (t', o)) := by
  cases h with
  | outside h =>
    refine ⟨?_, .inl rfl⟩
    cases h with
    | main next queue => exact queue ▸ hinv.corr
    | worker next queue => exact queue ▸ hinv.corr
  | put hmain hwork hcall => exact ⟨hcall.corr, .inr hcall.step⟩
  | get hpoint hcall => exact ⟨hcall.corr, .inr hcall.step⟩
  | run hrun => exact ⟨hrun.corr, .inr hrun.step⟩
  | wake hwake => exact ⟨hwake.corr, .inr hwake.step⟩

/-- A step of a server that keeps its invariant, and what it is. -/
theorem Inv.step_cases (hinv : Inv s t) {a : ServerAction n} {o : List (ServerEvent n)}
    (h : (machine n).step s a = .ok (s', o)) : ∃ t', Steps s t a s' t' ∧ Inv s' t' := by
  obtain ⟨t', hstep⟩ := Server.step_cases hinv h
  have hcloses := hinv.step a
  rw [h] at hcloses
  have hinv' : ∃ t'', Inv s' t'' := by
    cases hcloses with
    | quiet hinv' => exact hinv'
    | accepted hinv' => exact hinv'
    | closed hinv' => exact hinv'
  obtain ⟨t'', hinv'⟩ := hinv'
  exact ⟨t', hstep, hinv'.corr.unique (hstep.queue hinv).1 ▸ hinv'⟩

end Server

end OsWet
