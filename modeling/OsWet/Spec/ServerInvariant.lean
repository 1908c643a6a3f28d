import OsWet.Spec.QueueOwnership

/-!
# Who owns a connection: the invariant

A connection descriptor and the metadata block that goes with it are passed from the
accept loop through the queue to a worker, or back to the accept loop when the queue
drops the message. The invariant counts both resources: at every moment the open
descriptors are the ones in the hands of the accept loop, in the queue and in the hands
of the workers, once each, and the blocks still in use are allocated and distinct.

This module shows that the segments of the queue keep it.
-/

namespace OsWet

/-! ## The parties -/

/-- The descriptors in the hands of the accept loop; `k` is where it stands in `MQPut`. -/
def MainPoint.fds {ν : Type} (dropped : Nat → Option Int) (k : Option (Kont ν Int)) :
    MainPoint → Multiset (Option Int)
  | .accepting | .stopped => 0
  | .accepted connfd => {some connfd}
  | .created message => {some message.content}
  | .putting => kontFds k
  | .closing droppedAmount i => (((List.range droppedAmount.toNat).drop i).map dropped :
      Multiset (Option Int))

/-- The metadata block in the hands of the accept loop. -/
def MainPoint.metas {ν : Type} (k : Option (Kont ν Int)) : MainPoint → Multiset Nat
  | .created message => {message.metaData}
  | .putting => kontMetas k
  | _ => 0

/-- The descriptor in the hands of a worker. -/
def Worker.fds (worker : Worker) : Multiset (Option Int) :=
  match worker.point with
  | .got _ (some message) | .dispatched message | .handled message | .freed message =>
    {some message.content}
  | _ => 0

/-- The metadata block in the hands of a worker. -/
def Worker.metas (worker : Worker) : Multiset Nat :=
  match worker.point with
  | .got _ (some message) | .dispatched message | .handled message => {message.metaData}
  | _ => 0

namespace Server

variable {n : Nat}

/-- The blocks in the hands of the workers, of the queue and of the accept loop. -/
def allMetas (s : Server n) (t : Queue.QState (ServerTid n) Int) : Multiset Nat :=
  s.main.metas (t.threads none).kont + t.data.metas + ∑ w, (s.workers w).metas

/-- The invariant, with the abstract queue `t`. -/
structure Inv (s : Server n) (t : Queue.QState (ServerTid n) Int) : Prop where
  corr : MessageQueue.Corresponds s.queue t
  history : ∃ out, Queue.HistoryInv t out
  capacity : 1 ≤ t.data.capacity
  dropSize : s.dropSize = dropSizeOf t.data.capacity t.data.schedPolicy
  amounts : ∀ i point node message out, (t.threads i).kont = some (.put point node message out) →
    Queue.AmountOk s.dropSize out
  -- Only the accept loop puts, and only from `MQPut`.
  main_in : ∀ k, (t.threads none).kont = some k → s.main = .putting ∧ ¬ Queue.IsGet k
  worker_in : ∀ w k, (t.threads (some w)).kont = some k →
    (s.workers w).point = .getting ∧ Queue.IsGet k
  worker_got : ∀ w code message, (s.workers w).point = .got code message →
    code = .success ∧ ∃ m, message = some m
  -- The dropped array has room for what is to be closed.
  closing : ∀ amount i, s.main = .closing amount i → amount ≤ s.dropSize
  -- Open descriptors are distinct, so equal multisets say "in one place each".
  fds : s.openFds.val.map some =
    s.main.fds s.dropped (t.threads none).kont + t.data.fds + ∑ w, (s.workers w).fds
  metas_nodup : (s.allMetas t).Nodup
  metas_live : ∀ a ∈ s.allMetas t, ∃ block, s.metas.cell a = some block

/-- Nothing went wrong, and the invariant holds. -/
def Good : Outcome ServerFault (Server n) → Prop
  | .stuck => True
  | .fault _ => False
  | .ok s => ∃ t, Inv s t

/-- Freeing distinct live blocks succeeds and leaves the others alone. -/
theorem freeMetas_run {frees : List Nat} (metas : Heap MetaData) (hnodup : frees.Nodup)
    (hlive : ∀ a ∈ frees, ∃ block, metas.cell a = some block) :
    ∃ metas', freeMetas frees metas = .ok metas' ∧
      ∀ a, a ∉ frees → metas'.cell a = metas.cell a := by
  -- The blocks are distinct, so freeing the first leaves the others live.
  induction frees generalizing metas with
  | nil => exact ⟨metas, rfl, fun _ _ => rfl⟩
  | cons a frees ih =>
    obtain ⟨block, hblock⟩ := hlive a List.mem_cons_self
    obtain ⟨ha, hnodup⟩ := List.nodup_cons.mp hnodup
    have hother : ∀ b, b ≠ a →
        (metas.setCell a none (Heap.lt_next hblock)).cell b = metas.cell b :=
      fun b hb => Heap.setCell_cell_of_ne _ hb
    obtain ⟨metas', hrun, hsame⟩ := ih (metas.setCell a none (Heap.lt_next hblock)) hnodup
      (fun b hb => by
        rw [hother b fun h => ha (h ▸ hb)]
        exact hlive b (List.mem_cons_of_mem _ hb))
    refine ⟨metas', ?_, fun b hb => ?_⟩
    · simp only [freeMetas, Heap.free_eq_ok hblock, Outcome.ok_bind, hrun]
    · rw [List.mem_cons, not_or] at hb
      rw [hsame b hb.2, hother b hb.1]

/-- A step of the queue: it cannot go wrong, the code follows the abstract queue, and what
    is left to show is the invariant behind it. -/
theorem good_queueStep {s : Server n} {t : Queue.QState (ServerTid n) Int}
    {a : Monitor.Action (ServerTid n) (List Nat) (Call Int)}
    (hR : MessageQueue.Corresponds s.queue t) (hcap : 1 ≤ t.data.capacity)
    (hnext : ∀ queue t' o, (Queue.monitor Int).machine.step t a = .ok (t', o) →
      MessageQueue.Corresponds queue t' →
      ∃ frees, t'.data.metaFrees = t.data.metaFrees ++ frees ∧ frees.Nodup ∧
        (∀ b ∈ frees, ∃ block, s.metas.cell b = some block) ∧
        ∀ metas, (∀ b, b ∉ frees → metas.cell b = s.metas.cell b) →
          Inv (({ s with queue := queue, metas := metas } : Server n).returned o) t') :
    Good (s.queueStep a) := by
  unfold Server.queueStep
  -- The pointer queue is never in a fault, and its step is one of the abstract queue.
  cases hstep : (MessageQueue.monitor Int .succeed).machine.step s.queue a with
  | stuck => trivial
  | fault e => exact absurd hstep (MessageQueue.step_ne_fault hR (fun _ => by omega) a e)
  | ok r =>
    obtain ⟨queue, o⟩ := r
    obtain ⟨t', hstep', hR'⟩ := MessageQueue.monitor_refines.simulates _ _ _ _ _ hR hstep
    obtain ⟨frees, hfrees, hnodup, hlive, hinv⟩ := hnext queue t' o hstep' hR'
    -- The server frees what the list of freed blocks has grown by, which is `frees`.
    have hdrop : queue.data.metaFrees.drop s.queue.data.metaFrees.length = frees := by
      obtain ⟨l, hrep⟩ := hR.1
      obtain ⟨l', hrep'⟩ := hR'.1
      rw [hrep'.metaFrees, hrep.metaFrees, hfrees, List.drop_left]
    obtain ⟨metas, hrun, hsame⟩ := freeMetas_run s.metas hnodup hlive
    simp only [hdrop, hrun]
    exact ⟨t', hinv metas hsame⟩

/-- Blocks that are freed leave the hands they were in; the others stay live. -/
theorem metas_split {held held' : Multiset Nat} {frees : List Nat} {heap : Heap MetaData}
    (h : held = held' + (frees : Multiset Nat)) (hnodup : held.Nodup)
    (hlive : ∀ a ∈ held, ∃ block, heap.cell a = some block) :
    frees.Nodup ∧ (∀ b ∈ frees, ∃ block, heap.cell b = some block) ∧ held'.Nodup ∧
      ∀ heap' : Heap MetaData, (∀ b, b ∉ frees → heap'.cell b = heap.cell b) →
        ∀ a ∈ held', ∃ block, heap'.cell a = some block := by
  subst h
  -- No block is both freed and still held.
  obtain ⟨hheld, hfrees, hdisjoint⟩ := Multiset.nodup_add.mp hnodup
  refine ⟨Multiset.coe_nodup.mp hfrees, fun b hb => hlive b ?_, hheld, fun heap' hsame a ha => ?_⟩
  · exact Multiset.mem_add.mpr (.inr (Multiset.mem_coe.mpr hb))
  · have hnot : a ∉ frees := fun hb =>
      Multiset.disjoint_left.mp hdisjoint ha (Multiset.mem_coe.mpr hb)
    rw [hsame a hnot]
    exact hlive a (Multiset.mem_add.mpr (.inl ha))

/-- The amounts stay as the server has provided for when a thread runs a segment. -/
theorem Inv.amounts_run {s : Server n} {t t' : Queue.QState (ServerTid n) Int}
    (h : Inv s t) {i : ServerTid n} {k : Kont Unit Int}
    {g : Queue.End Int} (hrun : t.runnable i = some k) (hmove : Queue.Move t.data k g)
    (hkont : ∀ u, (t'.threads u).kont =
      Function.update (fun u => (t.threads u).kont) i g.kont u) :
    (∀ u point node message out, (t'.threads u).kont = some (.put point node message out) →
      Queue.AmountOk s.dropSize out) ∧
    ∀ message out, g.ret = some (.put message out) → Queue.AmountOk s.dropSize out := by
  have hk := Monitor.State.kont_of_runnable hrun
  obtain ⟨hamount, hret⟩ := hmove.amount h.capacity fun point node message out hput =>
    h.dropSize ▸ h.amounts i point node message out (hput ▸ hk)
  rw [← h.dropSize] at hamount hret
  refine ⟨fun u point node message out hu => ?_, hret⟩
  rw [hkont] at hu
  -- Only the thread that ran has a new amount to report.
  by_cases hui : u = i
  · subst hui
    rw [Function.update_self] at hu
    exact hamount _ _ _ _ hu
  · rw [Function.update_of_ne hui] at hu
    exact h.amounts u _ _ _ _ hu

/-- The entries behind `(*dropped)[0]` that a returning `MQPut` reports are in the array
    of the accept loop afterwards. -/
theorem fds_closing {out : PutOut Int} {ν : Type} (dropped : Nat → Option Int)
    (k : Option (Kont ν Int)) (hresult : out.result = .drop)
    (hsome : ∀ x ∈ out.reported, ∃ fd : Int, x = some fd) :
    (MainPoint.closing out.droppedAmount 0).fds (fun i => (out.dropped i).or (dropped i)) k =
      (out.reported : Multiset (Option Int)) := by
  simp only [MainPoint.fds, List.drop_zero, PutOut.reported, hresult, if_true] at hsome ⊢
  congr 1
  refine List.map_congr_left fun i hi => ?_
  obtain ⟨fd, hfd⟩ := hsome _ (List.mem_map_of_mem hi)
  rw [hfd]
  rfl

/-- A segment of the accept loop inside `MQPut`. -/
theorem Inv.run_main {s : Server n} {t : Queue.QState (ServerTid n) Int}
    (h : Inv s t) (rands : List Nat)
    (woken : Option (ServerTid n)) : Good (s.queueStep (.run none rands woken)) := by
  refine good_queueStep h.corr h.capacity fun queue t' o hstep hR' => ?_
  obtain ⟨k, g, hrun, hmove, hdata, hkont, rfl, -⟩ := Queue.run_cases hstep
  have hk := Monitor.State.kont_of_runnable hrun
  obtain ⟨out, hhistory⟩ := h.history
  have hcompletes := hhistory.completes none k hk
  have hfds := (hhistory.settles hrun hmove).fds_eq hmove hcompletes
  obtain ⟨frees, hfrees, hmetas⟩ := hmove.metas_eq
  obtain ⟨hamounts, hretamount⟩ := h.amounts_run hrun hmove hkont
  obtain ⟨hmain, hput⟩ := h.main_in k hk
  -- The workers' calls are the same.
  have hother : ∀ w, (t'.threads (some w)).kont = (t.threads (some w)).kont := fun w => by
    rw [hkont, Function.update_of_ne (Option.some_ne_none w)]
  have hnone : (t'.threads none).kont = g.kont := by
    rw [hkont, Function.update_self]
  -- The accounts of the segment replace the shares of the accept loop and of the queue.
  have hall : s.allMetas t =
      (Queue.End.metas g + t'.data.metas + ∑ w, (s.workers w).metas) + (frees : Multiset Nat) := by
    rw [Server.allMetas, hmain, MainPoint.metas, hk, hdata, add_comm (kontMetas (some k)), hmetas]
    abel
  have hopen : s.openFds.val.map some =
      Queue.End.fds g + t'.data.fds + ∑ w, (s.workers w).fds := by
    rw [h.fds, hmain, MainPoint.fds, hk, hdata, add_comm (kontFds (some k)), hfds]
    abel
  obtain ⟨hnodup, hlive, hnodup', hlive'⟩ := metas_split hall h.metas_nodup h.metas_live
  -- Capacity and policy never change, so neither does the size of the dropped array.
  refine ⟨frees, hdata ▸ hfrees, hnodup, hlive, fun metas hsame => ?_⟩
  have hcap : t'.data.capacity = t.data.capacity := hdata ▸ hmove.params.1
  have hpol : t'.data.schedPolicy = t.data.schedPolicy := hdata ▸ hmove.params.2
  have hsize : s.dropSize = dropSizeOf t'.data.capacity t'.data.schedPolicy := by
    rw [hcap, hpol]
    exact h.dropSize
  cases k with
  | get => exact absurd trivial hput
  | put point newNode message pout =>
    rcases hmove.put_cases with ⟨point', pout', hret, hgk⟩ | ⟨pout', hret, hgk⟩
    · -- The accept loop stays inside `MQPut`.
      have hin : ∀ k', (t'.threads none).kont = some k' → s.main = .putting ∧ ¬ Queue.IsGet k' := by
        intro k' hk'
        rw [hnone, hgk] at hk'
        cases hk'
        exact ⟨hmain, id⟩
      have hheld : s.main.metas (t'.threads none).kont = Queue.End.metas g := by
        rw [hmain, hnone, Queue.End.metas, hret]
        rfl
      have hfd : s.main.fds s.dropped (t'.threads none).kont = Queue.End.fds g := by
        rw [hmain, hnone, Queue.End.fds, hret]
        rfl
      rw [← hheld] at hnodup' hlive'
      rw [← hfd] at hopen
      rw [hret]
      exact ⟨hR', ⟨_, hhistory.step hstep⟩, hcap ▸ h.capacity, hsize, hamounts, hin,
        fun w k' hk' => h.worker_in w k' (hother w ▸ hk'), h.worker_got, h.closing, hopen, hnodup',
        hlive' metas hsame⟩
    · -- `MQPut` returns.
      -- Outside the call the accept loop has no continuation.
      have hout : ∀ k' : Kont Unit Int, (t'.threads none).kont ≠ some k' := by
        rw [hnone, hgk]
        exact fun k' hk' => by cases hk'
      have hreported : Queue.End.fds g = (pout'.reported : Multiset (Option Int)) := by
        rw [Queue.End.fds, hret]
        rfl
      -- Every reported entry was written: it is one of the open descriptors.
      have hsome : ∀ x ∈ pout'.reported, ∃ fd : Int, x = some fd := by
        intro x hx
        have hmem : x ∈ s.openFds.val.map some := by
          rw [hopen, hreported]
          simp [hx]
        obtain ⟨fd, -, rfl⟩ := Multiset.mem_map.mp hmem
        exact ⟨fd, rfl⟩
      have hheld : Queue.End.metas g = 0 := by
        rw [Queue.End.metas, hret]
        rfl
      rw [hheld] at hnodup' hlive'
      rw [hreported] at hopen
      have hworkers : ∀ w k', (t'.threads (some w)).kont = some k' →
          (s.workers w).point = .getting ∧ Queue.IsGet k' :=
        fun w k' hk' => h.worker_in w k' (hother w ▸ hk')
      have hin : ∀ {main : MainPoint} k', (t'.threads none).kont = some k' →
          main = .putting ∧ ¬ Queue.IsGet k' := fun k' hk' => absurd hk' (hout k')
      rw [hret]
      -- What is next depends on the code that `MQPut` has returned.
      simp only [Option.toList_some, List.map_cons, List.map_nil, Server.returned]
      rcases hmove.completes_ret hcompletes hret with hresult | hresult
      · -- Back to `Accept`: a put that succeeded has nothing to report.
        rw [if_neg (by rw [hresult]; exact fun h => by cases h), if_pos hresult]
        have hnothing : pout'.reported = [] :=
          if_neg (by rw [hresult]; exact fun h => by cases h)
        rw [hnothing] at hopen
        exact ⟨hR', ⟨_, hhistory.step hstep⟩, hcap ▸ h.capacity, hsize, hamounts, hin, hworkers,
          h.worker_got, (fun _ _ h => by cases h), hopen, hnodup', hlive' metas hsame⟩
      · -- On to closing the dropped connections.
        rw [if_pos hresult]
        rw [← fds_closing s.dropped (t'.threads none).kont hresult hsome] at hopen
        -- The amount is the one that the dropped array was allocated for.
        refine ⟨hR', ⟨_, hhistory.step hstep⟩, hcap ▸ h.capacity, hsize, hamounts, hin, hworkers,
          h.worker_got, ?_, hopen, hnodup', hlive' metas hsame⟩
        intro amount i h
        obtain ⟨⟩ := h
        exact (hretamount _ _ hret hresult).le

/-- A worker that is set has its new state. -/
@[simp] theorem setWorker_self (s : Server n) (w : Fin n) (worker : Worker) :
    (s.setWorker w worker).workers w = worker := by
  simp [setWorker]

/-- The other workers have theirs. -/
theorem setWorker_of_ne (s : Server n) {u w : Fin n} (h : u ≠ w) (worker : Worker) :
    (s.setWorker w worker).workers u = s.workers u := by
  simp [setWorker, Function.update_of_ne h]

/-- Moving a worker that is not inside `MQGet` leaves those that are where they are. -/
theorem getting_setWorker {s : Server n} {u w : Fin n} {worker : Worker}
    (hpoint : (s.workers w).point ≠ .getting) (hu : (s.workers u).point = .getting) :
    ((s.setWorker w worker).workers u).point = .getting := by
  have huw : u ≠ w := fun huw => hpoint (huw ▸ hu)
  rw [setWorker_of_ne s huw]
  exact hu

/-- Moving a worker to a point other than the return of `MQGet` makes no worker return. -/
theorem got_setWorker {s : Server n} {u w : Fin n} {worker : Worker} {code : MQRetCode}
    {message : Option (Message Int)} (hgot : ∀ code m, worker.point ≠ .got code m)
    (hu : ((s.setWorker w worker).workers u).point = .got code message) :
    (s.workers u).point = .got code message := by
  by_cases huw : u = w
  · subst huw
    rw [setWorker_self] at hu
    exact absurd hu (hgot code message)
  · rwa [setWorker_of_ne s huw] at hu

/-- What the workers hold, when one of them changes. -/
theorem sum_fds_setWorker (s : Server n) (w : Fin n) (worker : Worker) :
    ∑ u, ((s.setWorker w worker).workers u).fds + (s.workers w).fds =
      ∑ u, (s.workers u).fds + worker.fds :=
  sum_update Worker.fds s.workers w worker

/-- What the workers hold changes by what one of them holds. -/
theorem sum_metas_setWorker (s : Server n) (w : Fin n) (worker : Worker) :
    ∑ u, ((s.setWorker w worker).workers u).metas + (s.workers w).metas =
      ∑ u, (s.workers u).metas + worker.metas :=
  sum_update Worker.metas s.workers w worker

/-- A worker that keeps what it holds. -/
theorem sum_fds_of_eq {s : Server n} {w : Fin n} {worker : Worker}
    (h : worker.fds = (s.workers w).fds) :
    ∑ u, ((s.setWorker w worker).workers u).fds = ∑ u, (s.workers u).fds :=
  add_right_cancel (h ▸ sum_fds_setWorker s w worker)

/-- A worker that holds the same changes nothing in what all hold. -/
theorem sum_metas_of_eq {s : Server n} {w : Fin n} {worker : Worker}
    (h : worker.metas = (s.workers w).metas) :
    ∑ u, ((s.setWorker w worker).workers u).metas = ∑ u, (s.workers u).metas :=
  add_right_cancel (h ▸ sum_metas_setWorker s w worker)

/-- A segment of a worker inside `MQGet`. -/
theorem Inv.run_worker {s : Server n} {t : Queue.QState (ServerTid n) Int}
    (h : Inv s t) (w : Fin n) (rands : List Nat)
    (woken : Option (ServerTid n)) : Good (s.queueStep (.run (some w) rands woken)) := by
  refine good_queueStep h.corr h.capacity fun queue t' o hstep hR' => ?_
  obtain ⟨k, g, hrun, hmove, hdata, hkont, rfl, -⟩ := Queue.run_cases hstep
  have hk := Monitor.State.kont_of_runnable hrun
  obtain ⟨out, hhistory⟩ := h.history
  obtain ⟨hamounts, -⟩ := h.amounts_run hrun hmove hkont
  obtain ⟨hpoint, hget⟩ := h.worker_in w k hk
  have hnone : (t'.threads none).kont = (t.threads none).kont := by
    rw [hkont, Function.update_of_ne (Option.some_ne_none w).symm]
  have hother : ∀ u, u ≠ w → (t'.threads (some u)).kont = (t.threads (some u)).kont :=
    fun u hu => by rw [hkont, Function.update_of_ne (fun h => hu (Option.some.inj h))]
  have hself : (t'.threads (some w)).kont = g.kont := by
    rw [hkont, Function.update_self]
  have hcap : t'.data.capacity = t.data.capacity := hdata ▸ hmove.params.1
  have hpol : t'.data.schedPolicy = t.data.schedPolicy := hdata ▸ hmove.params.2
  have hsize : s.dropSize = dropSizeOf t'.data.capacity t'.data.schedPolicy := by
    rw [hcap, hpol]
    exact h.dropSize
  -- The accept loop is where it was.
  have hin : ∀ k', (t'.threads none).kont = some k' → s.main = .putting ∧ ¬ Queue.IsGet k' :=
    fun k' hk' => h.main_in k' (hnone ▸ hk')
  cases k with
  | put point newNode message pout => exact absurd hget id
  | get =>
    rcases hmove.get_cases with ⟨hret, hgk, hgd⟩ | ⟨m, items, hitems, hgd, hret, hgk⟩
    · -- The worker waits: nothing changes hands.
      rw [hgd] at hdata
      refine ⟨[], by rw [hdata, List.append_nil], List.nodup_nil, fun _ hb => (by cases hb),
        fun metas hsame => ?_⟩
      -- All blocks are where they were.
      have hall : s.allMetas t' = s.allMetas t := by
        rw [Server.allMetas, Server.allMetas, hnone, hdata]
      have hworkers : ∀ u k', (t'.threads (some u)).kont = some k' →
          (s.workers u).point = .getting ∧ Queue.IsGet k' := by
        intro u k' hk'
        by_cases hu : u = w
        · subst hu
          rw [hself, hgk] at hk'
          cases hk'
          exact ⟨hpoint, trivial⟩
        · exact h.worker_in u k' (hother u hu ▸ hk')
      have hlive : ∀ a ∈ s.allMetas t', ∃ block, metas.cell a = some block := by
        intro a ha
        rw [hsame a List.not_mem_nil]
        exact h.metas_live a (hall ▸ ha)
      rw [hret]
      exact ⟨hR', ⟨_, hhistory.step hstep⟩, hcap ▸ h.capacity, hsize, hamounts, hin, hworkers,
        h.worker_got, h.closing, by rw [hnone, hdata]; exact h.fds, hall ▸ h.metas_nodup, hlive⟩
    · -- The worker takes the first message.
      rw [hgd] at hdata
      refine ⟨[], by rw [hdata, List.append_nil], List.nodup_nil, fun _ hb => (by cases hb),
        fun metas hsame => ?_⟩
      rw [hret]
      simp only [Option.toList_some, List.map_cons, List.map_nil, Server.returned]
      generalize hworker : ({ s.workers w with point := .got .success (some m) } : Worker) = worker
      have hwfds : worker.fds = {some m.content} := by rw [← hworker]; rfl
      have hwmetas : worker.metas = {m.metaData} := by rw [← hworker]; rfl
      have hold : (s.workers w).fds = 0 ∧ (s.workers w).metas = 0 := by
        simp [Worker.fds, Worker.metas, hpoint]
      have hsumfds := sum_fds_setWorker s w worker
      have hsummetas := sum_metas_setWorker s w worker
      rw [hold.1, hwfds, add_zero] at hsumfds
      rw [hold.2, hwmetas, add_zero] at hsummetas
      -- The first message moves from the queue to the worker.
      have hqfds : t.data.fds = {some m.content} + t'.data.fds := by
        rw [hdata]
        simp [Queue.fds, Queue.contents, hitems, ← Multiset.cons_coe]
      have hqmetas : t.data.metas = {m.metaData} + t'.data.metas := by
        rw [hdata]
        simp [Queue.metas, hitems, ← Multiset.cons_coe]
      have hworkers : ∀ u k', (t'.threads (some u)).kont = some k' →
          ((s.setWorker w worker).workers u).point = .getting ∧ Queue.IsGet k' := by
        intro u k' hk'
        by_cases hu : u = w
        · subst hu
          rw [hself, hgk] at hk'
          cases hk'
        · rw [setWorker_of_ne s hu]
          exact h.worker_in u k' (hother u hu ▸ hk')
      have hall : s.allMetas t = s.main.metas (t'.threads none).kont + t'.data.metas +
          ∑ u, ((s.setWorker w worker).workers u).metas := by
        rw [Server.allMetas, hnone, hqmetas, hsummetas]
        abel
      have hnodup := h.metas_nodup
      rw [hall] at hnodup
      refine ⟨hR', ⟨_, hhistory.step hstep⟩, hcap ▸ h.capacity, hsize, hamounts, hin, hworkers,
        ?_, h.closing, ?_, hnodup, fun a ha => ?_⟩
      · -- Only this worker has got a message, and with it the code of success.
        intro u code message hu
        replace hu : ((s.setWorker w worker).workers u).point = .got code message := hu
        by_cases huw : u = w
        · subst huw
          rw [setWorker_self, ← hworker] at hu
          cases hu
          exact ⟨rfl, m, rfl⟩
        · rw [setWorker_of_ne s huw] at hu
          exact h.worker_got u code message hu
      · show s.openFds.val.map some = s.main.fds s.dropped (t'.threads none).kont + t'.data.fds +
          ∑ u, ((s.setWorker w worker).workers u).fds
        rw [h.fds, hnone, hqfds, hsumfds]
        abel
      · show ∃ block, metas.cell a = some block
        rw [hsame a List.not_mem_nil]
        exact h.metas_live a (hall ▸ ha)

/-- A segment of the queue. -/
theorem Inv.run {s : Server n} {t : Queue.QState (ServerTid n) Int} (h : Inv s t)
    (i : ServerTid n) (rands : List Nat) (woken : Option (ServerTid n)) :
    Good (s.queueStep (.run i rands woken)) := by
  cases i with
  | none => exact h.run_main rands woken
  | some w => exact h.run_worker w rands woken

/-- A step of the queue that frees nothing and returns nothing, when the invariant is
    kept by the state around it. -/
theorem good_quietStep {s : Server n} {t : Queue.QState (ServerTid n) Int}
    {a : Monitor.Action (ServerTid n) (List Nat) (Call Int)}
    (hR : MessageQueue.Corresponds s.queue t) (hcap : 1 ≤ t.data.capacity)
    (hnext : ∀ queue t' o, (Queue.monitor Int).machine.step t a = .ok (t', o) →
      MessageQueue.Corresponds queue t' → t'.data = t.data ∧ o = [] ∧
        ∀ metas, (∀ b, metas.cell b = s.metas.cell b) →
          Inv ({ s with queue := queue, metas := metas } : Server n) t') :
    Good (s.queueStep a) := by
  refine good_queueStep hR hcap fun queue t' o hstep hR' => ?_
  obtain ⟨hdata, rfl, hinv⟩ := hnext queue t' o hstep hR'
  exact ⟨[], by rw [hdata, List.append_nil], List.nodup_nil, fun _ hb => (by cases hb),
    fun metas hsame => hinv metas fun b => hsame b List.not_mem_nil⟩

/-- A spurious wake-up. -/
theorem Inv.spurious {s : Server n} {t : Queue.QState (ServerTid n) Int} (h : Inv s t)
    (i : ServerTid n) : Good (s.queueStep (.spurious i)) := by
  refine good_quietStep h.corr h.capacity fun queue t' o hstep hR' => ?_
  obtain ⟨hdata, -, rfl, hkont⟩ := Queue.spurious_cases hstep
  refine ⟨hdata, rfl, fun metas hsame => ?_⟩
  obtain ⟨out, hhistory⟩ := h.history
  have hall : ({ s with queue := queue, metas := metas } : Server n).allMetas t' =
      s.allMetas t := by
    simp only [Server.allMetas, hkont, hdata]
  refine ⟨hR', ⟨_, hhistory.step hstep⟩, hdata ▸ h.capacity, hdata ▸ h.dropSize, ?_, ?_, ?_,
    h.worker_got, h.closing, ?_, hall ▸ h.metas_nodup, fun a ha => ?_⟩
  · exact fun u point node message pout hu => h.amounts u point node message pout (hkont u ▸ hu)
  · exact fun k hk => h.main_in k (hkont none ▸ hk)
  · exact fun w k hk => h.worker_in w k (hkont (some w) ▸ hk)
  · show s.openFds.val.map some = s.main.fds s.dropped (t'.threads none).kont + t'.data.fds +
      ∑ u, (s.workers u).fds
    rw [hkont, hdata]
    exact h.fds
  · show ∃ block, metas.cell a = some block
    rw [hsame]
    exact h.metas_live a (hall ▸ ha)

/-- The accept loop calls `MQPut`. -/
theorem Inv.put {s : Server n} {t : Queue.QState (ServerTid n) Int} (h : Inv s t) :
    Good s.put := by
  unfold Server.put
  cases hmain : s.main with
  | created m =>
    refine good_quietStep h.corr h.capacity fun queue t' o hstep hR' => ?_
    obtain ⟨hout, hdata, -, ⟨k, hc, rfl, hkont⟩ | ⟨r, hc, -⟩⟩ := Queue.call_cases hstep
    · cases hc
      refine ⟨hdata, rfl, fun metas hsame => ?_⟩
      obtain ⟨out, hhistory⟩ := h.history
      -- Building the message and calling `MQPut` hand the same resources over.
      have hnone : (t'.threads none).kont = some (.put .loop () m (PutOut.start 0)) := by
        rw [hkont, Function.update_self]
      have hother : ∀ w, (t'.threads (some w)).kont = (t.threads (some w)).kont := fun w => by
        rw [hkont, Function.update_of_ne (Option.some_ne_none w)]
      have hall : ({ s with main := .putting, queue := queue, metas := metas } :
          Server n).allMetas t' = s.allMetas t := by
        simp only [Server.allMetas, MainPoint.metas, hnone, kontMetas, hdata, hmain]
      -- The clauses of the invariant, where the call changes something.
      refine ⟨hR', ⟨_, hhistory.step hstep⟩, hdata ▸ h.capacity, hdata ▸ h.dropSize, ?_, ?_, ?_,
        h.worker_got, ?_, ?_, hall ▸ h.metas_nodup, fun a ha => ?_⟩
      · -- The new put has no report yet.
        intro i point node message pout hi
        cases i with
        | none =>
          rw [hnone] at hi
          cases hi
          exact fun hdrop => by cases hdrop
        | some w => exact h.amounts (some w) point node message pout (hother w ▸ hi)
      · intro k hk
        rw [hnone] at hk
        cases hk
        exact ⟨rfl, id⟩
      · exact fun w k hk => h.worker_in w k (hother w ▸ hk)
      · exact fun _ _ h => by cases h
      · show s.openFds.val.map some = kontFds (t'.threads none).kont + t'.data.fds +
          ∑ u, (s.workers u).fds
        rw [hnone, hdata, h.fds, hmain]
        rfl
      · show ∃ block, metas.cell a = some block
        rw [hsame]
        exact h.metas_live a (hall ▸ ha)
    · cases hc
  | _ => trivial

/-- A worker calls `MQGet`. -/
theorem Inv.get {s : Server n} {t : Queue.QState (ServerTid n) Int} (h : Inv s t) (w : Fin n) :
    Good (s.get w) := by
  unfold Server.get
  cases hpoint : (s.workers w).point with
  | idle =>
    refine good_quietStep h.corr h.capacity fun queue t' o hstep hR' => ?_
    obtain ⟨hout, hdata, -, ⟨k, hc, rfl, hkont⟩ | ⟨r, hc, -⟩⟩ := Queue.call_cases hstep
    · cases hc
      refine ⟨hdata, rfl, fun metas hsame => ?_⟩
      obtain ⟨out, hhistory⟩ := h.history
      have hnone : (t'.threads none).kont = (t.threads none).kont := by
        rw [hkont, Function.update_of_ne (Option.some_ne_none w).symm]
      have hself : (t'.threads (some w)).kont = some .get := by
        rw [hkont, Function.update_self]
      have hother : ∀ u, u ≠ w → (t'.threads (some u)).kont = (t.threads (some u)).kont :=
        fun u hu => by rw [hkont, Function.update_of_ne (fun h => hu (Option.some.inj h))]
      -- A worker that calls `MQGet` holds nothing, before and after.
      generalize hworker : ({ s.workers w with point := .getting } : Worker) = worker
      have hfds : worker.fds = (s.workers w).fds := by
        rw [← hworker]
        simp [Worker.fds, hpoint]
      have hmetas : worker.metas = (s.workers w).metas := by
        rw [← hworker]
        simp [Worker.metas, hpoint]
      have hall : s.allMetas t = s.main.metas (t'.threads none).kont + t'.data.metas +
          ∑ u, ((s.setWorker w worker).workers u).metas := by
        rw [Server.allMetas, hnone, hdata, sum_metas_of_eq hmetas]
      have hnodup := h.metas_nodup
      rw [hall] at hnodup
      -- The clauses of the invariant, where the call changes something.
      refine ⟨hR', ⟨_, hhistory.step hstep⟩, hdata ▸ h.capacity, hdata ▸ h.dropSize, ?_, ?_, ?_,
        ?_, h.closing, ?_, hnodup, fun a ha => ?_⟩
      · intro i point node message pout hi
        by_cases hiw : i = some w
        · subst hiw
          rw [hself] at hi
          cases hi
        · rw [hkont, Function.update_of_ne hiw] at hi
          exact h.amounts i point node message pout hi
      · exact fun k hk => h.main_in k (hnone ▸ hk)
      · -- This worker is inside `MQGet` now, the others as before.
        intro u k hk
        by_cases hu : u = w
        · subst hu
          rw [hself] at hk
          cases hk
          show ((s.setWorker u worker).workers u).point = .getting ∧ _
          rw [setWorker_self, ← hworker]
          exact ⟨rfl, trivial⟩
        · show ((s.setWorker w worker).workers u).point = .getting ∧ _
          rw [setWorker_of_ne s hu]
          exact h.worker_in u k (hother u hu ▸ hk)
      · intro u code message hu
        refine h.worker_got u code message (got_setWorker (fun _ _ hp => ?_) hu)
        rw [← hworker] at hp
        cases hp
      · show s.openFds.val.map some = s.main.fds s.dropped (t'.threads none).kont + t'.data.fds +
          ∑ u, ((s.setWorker w worker).workers u).fds
        rw [hnone, hdata, sum_fds_of_eq hfds]
        exact h.fds
      · show ∃ block, metas.cell a = some block
        rw [hsame]
        exact h.metas_live a (hall ▸ ha)
    · cases hc
  | _ => trivial

end Server

end OsWet
