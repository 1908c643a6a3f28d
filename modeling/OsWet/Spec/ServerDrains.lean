import OsWet.Spec.ServerLeaks
import OsWet.ForStd.Progress

/-!
# The server comes to rest

A connection that was accepted costs a bounded number of steps, whatever the schedule, and as
long as one is open some thread can go on. So a server that accepts no more always comes to
rest, with every connection closed, every metadata block freed and every worker asleep in
`MQGet`. That is a server in which every allocation succeeds and `requestHandle` always
returns, as in `OsWet.Native.Server`.

- `Serving`: the invariant of a server that runs
- `work`: the steps that are left, at most
- `drains`: the steps bring the work down, and one is possible unless the server is at rest
-/

namespace OsWet

/-- The steps that the accept loop still makes for its connection, and those that it makes a
    worker make. -/
def MainPoint.work {ν : Type} (k : Option (Kont ν Int)) : MainPoint → Nat
  | .accepting | .stopped => 0
  | .accepted _ => 14
  | .created _ => 13
  | .putting => 11 + (k.map Kont.work).getD 0
  | .closing droppedAmount i => droppedAmount.toNat - i + 1

/-- The steps that a worker still makes before it is inside `MQGet`. -/
def WorkerPoint.work : WorkerPoint → Nat
  | .getting | .stopped => 0
  | .idle => 2
  | .freed _ => 3
  | .handled _ => 4
  | .dispatched _ => 5
  | .got _ _ => 6

namespace Server

variable {n : Nat} {s s' : Server n} {t t' : Queue.QState (ServerTid n) Int}

/-- The steps left in all: a message in the queue is worth 8. -/
def work (s : Server n) (t : Queue.QState (ServerTid n) Int) : Nat :=
  s.main.work (t.threads none).kont + ∑ w, (s.workers w).point.work +
    Monitor.awakeCount t.threads + 8 * t.data.items.length

/-- The steps that the server makes on its own. -/
def own : ServerAction n → Bool
  | .accept _ | .wakeSpuriously _ => false
  | _ => true

/-- The steps that an input leads to. -/
def cost : ServerAction n → Nat
  | .accept _ => 14
  | .wakeSpuriously _ => 1
  | _ => 0

/-- A step outside the queue brings the work down, or costs what an input costs. -/
theorem work_of_outside {a : ServerAction n} (h : Outside s a s') :
    s'.work t + (if own a then 1 else 0) ≤ s.work t + cost a := by
  cases h with
  -- `accept` is paid by its cost; every other move of the accept loop lowers its work.
  | main next queue workers live =>
    rw [work, work, workers]
    generalize s.main = p at next
    generalize s'.main = p' at next
    cases next with
    | accept | build =>
      simp only [MainPoint.work, own, cost, if_true, Bool.false_eq_true, if_false]
      omega
    | closeOne hi | closeEnd hi =>
      simp only [MainPoint.work, own, cost, if_true]
      omega
  | @worker w worker next queue main workers live =>
    -- Only one term of the sum changes.
    have hsum := sum_update (fun worker => worker.point.work) s.workers w worker
    rw [work, work, main, workers]
    generalize (s.workers w).point = p at next hsum
    generalize worker.point = p' at next hsum
    cases next with
    | dispatch | handle | free | close =>
      simp only [WorkerPoint.work, own, cost, if_true] at hsum ⊢
      omega

/-- What is left to do when a worker goes to another point. -/
theorem sum_work_point (s : Server n) (w : Fin n) (p : WorkerPoint) :
    ∑ u, (Function.update s.workers w { s.workers w with point := p } u).point.work +
      (s.workers w).point.work = ∑ u, (s.workers u).point.work + p.work :=
  sum_update (fun worker => worker.point.work) s.workers w { s.workers w with point := p }

/-- A segment of `MQPut` or `MQGet` costs at least one step. -/
theorem QueueRun.work_lt {i : ServerTid n} {k : Kont Unit Int} {g : Queue.End Int}
    (h : QueueRun s t i k g s' t') (hinv : Inv s t) (hpol : t.data.schedPolicy ≠ .invalid) :
    s'.work t' + 1 ≤ s.work t := by
  have hk := Monitor.State.kont_of_runnable h.runnable
  have hawake := h.awake
  rw [work, work, h.data]
  cases i with
  | none =>
    obtain ⟨hmain, hworkers, -, point, message, out, rfl, hgo⟩ := h.main_cases hinv
    have hnone : (t'.threads none).kont = g.kont := by rw [h.kont, Function.update_self]
    have hbefore : s.main.work (t.threads none).kont = 11 + out.work := by
      -- The accept loop is inside `MQPut`, where the closing loop is still to come.
      rw [hmain, hk]
      rfl
    rw [hworkers, hbefore, hnone]
    rcases h.move.put_work hpol with ⟨point', out', hret, hkont, hle⟩ |
      ⟨out', hret, hkont, hwaits, hlt⟩
    · -- The accept loop stays inside `MQPut`.
      have hmain' : s'.main = .putting := by
        rcases hgo with ⟨-, -, -, -, hmain'⟩ | ⟨_, hret', -⟩
        · exact hmain'
        · cases hret.symm.trans hret'
      have hafter : s'.main.work g.kont = 11 + out'.work := by
        rw [hmain', hkont]
        rfl
      rw [hafter]
      split at hle <;> simp_all <;> omega
    · -- `MQPut` returns, and the rounds of the closing loop are what it has reported.
      have hafter : s'.main.work g.kont = out'.work := by
        rcases hgo with ⟨-, -, hret', -, -⟩ | ⟨out'', hret', -, hmain'⟩
        · cases hret.symm.trans hret'
        · cases hret.symm.trans hret'
          rw [hmain', PutOut.work]
          split <;> rfl
      rw [hwaits] at hawake
      rw [hafter]
      simp only [Bool.false_eq_true, if_false, add_zero] at hawake
      omega
  | some w =>
    obtain ⟨hpoint, rfl, hmain, -, -, hgo⟩ := h.worker_cases hinv
    have hnone : (t'.threads none).kont = (t.threads none).kont := by
      rw [h.kont, Function.update_of_ne (Option.some_ne_none w).symm]
    rw [hmain, hnone]
    -- The worker waits again, which is paid by its being awake, or it takes a message.
    rcases h.move.get_work with ⟨hret, -, hwaits, hdata⟩ | ⟨m, hret, -, hwaits, hlen⟩
    · have hworkers : s'.workers = s.workers := by
        rcases hgo with ⟨-, -, hworkers⟩ | ⟨_, hret', -⟩
        · exact hworkers
        · cases hret.symm.trans hret'
      rw [hwaits, if_pos rfl] at hawake
      rw [hworkers, hdata]
      omega
    · -- The message was worth 8, and the worker has 6 left to do with it.
      have hworkers : s'.workers = Function.update s.workers w
          { s.workers w with point := .got .success (some m) } := by
        rcases hgo with ⟨hret', -, -⟩ | ⟨m', hret', -, -, hworkers⟩
        · cases hret.symm.trans hret'
        · cases hret.symm.trans hret'
          exact hworkers
      have hsum := sum_work_point s w (.got .success (some m))
      rw [hpoint] at hsum
      have hgetting : WorkerPoint.getting.work = 0 := rfl
      have hgot : (WorkerPoint.got .success (some m)).work = 6 := rfl
      rw [hwaits] at hawake
      simp only [Bool.false_eq_true, if_false, add_zero] at hawake
      rw [hworkers]
      omega

/-- A step of the server itself brings the work down; an input adds its cost. -/
theorem Steps.work_le {a : ServerAction n} (h : Steps s t a s' t') (hinv : Inv s t)
    (hpol : t.data.schedPolicy ≠ .invalid) :
    s'.work t' + (if own a then 1 else 0) ≤ s.work t + cost a := by
  cases h with
  | outside h => exact work_of_outside h
  -- A call begins: what the caller had left is now the work of the call.
  | @put message out s' t' hmain hwork hcall =>
    obtain ⟨queue, rfl⟩ := hcall.after
    have hnone : (t'.threads none).kont = some (.put .loop () message out) := by
      rw [hcall.kont, Function.update_self]
    rw [work, work, hmain, hcall.awake, hcall.data, hnone]
    simp only [MainPoint.work, Option.map_some, Option.getD_some, Kont.work, hwork, own, cost,
      if_true]
    omega
  -- The worker stops being idle and wakes inside the monitor.
  | @get w s' t' hpoint hcall =>
    obtain ⟨queue, rfl⟩ := hcall.after
    have hnone : (t'.threads none).kont = (t.threads none).kont := by
      rw [hcall.kont, Function.update_of_ne (Option.some_ne_none w).symm]
    have hsum := sum_work_point s w .getting
    rw [hpoint] at hsum
    rw [work, work, hcall.awake, hcall.data, hnone]
    show s.main.work _ + ∑ u, (Function.update s.workers w _ u).point.work + _ + _ + 1 ≤ _
    have hgetting : WorkerPoint.getting.work = 0 := rfl
    have hidle : WorkerPoint.idle.work = 2 := rfl
    omega
  | run hrun =>
    have hlt := hrun.work_lt hinv hpol
    exact hlt
  -- A spurious wake-up is no own step and is paid from outside.
  | wake hwake =>
    obtain ⟨queue, rfl⟩ := hwake.after
    rw [work, work, hwake.awake, hwake.data, hwake.kont]
    simp only [own, cost, Bool.false_eq_true, if_false]
    omega

/-! ## The invariant of a server that runs -/

/-- A server that runs, with a queue of these parameters: who is in `MQPut` or `MQGet` by its
    program point is inside the queue, and nobody has stopped. -/
structure Serving (capacity : Int) (schedPolicy : MQSchedPolicy) (s : Server n)
    (t : Queue.QState (ServerTid n) Int) : Prop where
  inv : Inv s t
  accounted : s.Accounted t
  reached : ∃ acts out, (Queue.monitor Int).machine.exec
    (Monitor.initial (Queue.initial capacity schedPolicy)) acts = .ok (t, out)
  putting : s.main = .putting → ∃ k, (t.threads none).kont = some k
  main_running : s.main ≠ .stopped
  getting : ∀ w, (s.workers w).point = .getting → ∃ k, (t.threads (some w)).kont = some k
  worker_running : ∀ w, (s.workers w).point ≠ .stopped

variable {capacity : Int} {schedPolicy : MQSchedPolicy}

/-- A step keeps the threads where the queue has them. -/
theorem Steps.inside {a : ServerAction n} (h : Steps s t a s' t')
    (hs : Serving capacity schedPolicy s t) :
    (s'.main = .putting → ∃ k, (t'.threads none).kont = some k) ∧ s'.main ≠ .stopped ∧
    (∀ w, (s'.workers w).point = .getting → ∃ k, (t'.threads (some w)).kont = some k) ∧
    ∀ w, (s'.workers w).point ≠ .stopped := by
  cases h with
  | outside h =>
    cases h with
    | main next queue workers live =>
      rw [workers]
      -- The accept loop moves to a point that is neither inside `MQPut` nor the end.
      refine ⟨?_, ?_, hs.getting, hs.worker_running⟩ <;>
        · generalize s.main = p at next
          generalize s'.main = p' at next
          cases next <;> simp
    | @worker w worker next queue main workers live =>
      rw [main, workers]
      have hpoint : worker.point ≠ .getting ∧ worker.point ≠ .stopped := by
        generalize (s.workers w).point = p at next
        generalize worker.point = p' at next ⊢
        cases next <;> simp
      refine ⟨hs.putting, hs.main_running, fun u hu => ?_, fun u => ?_⟩
      · -- A worker other than the one that moves is where it was.
        by_cases huw : u = w
        · subst huw
          rw [Function.update_self] at hu
          exact absurd hu hpoint.1
        · rw [Function.update_of_ne huw] at hu
          exact hs.getting u hu
      · by_cases huw : u = w
        · subst huw
          rw [Function.update_self]
          exact hpoint.2
        · rw [Function.update_of_ne huw]
          exact hs.worker_running u
  -- The accept loop enters `MQPut`, and the workers' calls are the same.
  | @put message out s' t' hmain hwork hcall =>
    obtain ⟨queue, rfl⟩ := hcall.after
    refine ⟨fun _ => ⟨_, by rw [hcall.kont, Function.update_self]⟩, by simp, fun u hu => ?_,
      hs.worker_running⟩
    rw [hcall.kont, Function.update_of_ne (Option.some_ne_none u)]
    exact hs.getting u hu
  -- The worker enters `MQGet`.
  | @get w s' t' hpoint hcall =>
    obtain ⟨queue, rfl⟩ := hcall.after
    have hother : ∀ u, u ≠ some w → (t'.threads u).kont = (t.threads u).kont := by
      intro u hu
      rw [hcall.kont, Function.update_of_ne hu]
    refine ⟨fun hmain => ?_, hs.main_running, fun u hu => ?_, fun u => ?_⟩
    · rw [hother none (Option.some_ne_none w).symm]
      exact hs.putting hmain
    · by_cases huw : u = w
      · exact ⟨.get, by rw [huw, hcall.kont, Function.update_self]⟩
      · rw [hother (some u) fun h => huw (Option.some.inj h)]
        exact hs.getting u (by rwa [← setWorker_of_ne s huw])
    · by_cases huw : u = w
      · simp [huw, setWorker]
      · show ((s.setWorker w _).workers u).point ≠ .stopped
        rw [setWorker_of_ne s huw]
        exact hs.worker_running u
  -- A segment is run by one thread; what the others have left is the same.
  | @run i rands woken k g s' t' hrun =>
    have hother : ∀ u, u ≠ i → (t'.threads u).kont = (t.threads u).kont := by
      intro u hu
      rw [hrun.kont, Function.update_of_ne hu]
    cases i with
    | none =>
      obtain ⟨hmain, hworkers, -, point, message, out, rfl, hgo⟩ := hrun.main_cases hs.inv
      rw [hworkers]
      refine ⟨fun hmain' => ?_, ?_, fun w hw => ?_, hs.worker_running⟩
      · -- Either the call goes on, or it returns and the accept loop is no more at `MQPut`.
        rcases hgo with ⟨point', out', -, hkont, -⟩ | ⟨out', -, -, hmain''⟩
        · exact ⟨_, by rw [hrun.kont, Function.update_self, hkont]⟩
        · rw [hmain''] at hmain'
          split at hmain' <;> cases hmain'
      · rcases hgo with ⟨point', out', -, -, hmain'⟩ | ⟨out', -, -, hmain'⟩
        · simp [hmain']
        · rw [hmain']
          split <;> simp
      · rw [hother (some w) (Option.some_ne_none w)]
        exact hs.getting w hw
    | some w =>
      obtain ⟨hpoint, rfl, hmain, -, -, hgo⟩ := hrun.worker_cases hs.inv
      rw [hmain]
      refine ⟨fun hmain' => ?_, hs.main_running, fun u hu => ?_, fun u => ?_⟩
      · rw [hother none (Option.some_ne_none w).symm]
        exact hs.putting hmain'
      · by_cases huw : u = w
        · subst huw
          rcases hgo with ⟨-, hkont, -⟩ | ⟨m, -, -, -, hworkers⟩
          · exact ⟨.get, by rw [hrun.kont, Function.update_self, hkont]⟩
          · -- A worker that has got a message is not at the call any more.
            rw [hworkers, Function.update_self] at hu
            cases hu
        · rw [hother (some u) fun h => huw (Option.some.inj h)]
          rcases hgo with ⟨-, -, hworkers⟩ | ⟨m, -, -, -, hworkers⟩
          · exact hs.getting u (hworkers ▸ hu)
          · rw [hworkers, Function.update_of_ne huw] at hu
            exact hs.getting u hu
      · rcases hgo with ⟨-, -, hworkers⟩ | ⟨m, -, -, -, hworkers⟩
        · exact hworkers ▸ hs.worker_running u
        · by_cases huw : u = w
          · simp [hworkers, huw]
          · rw [hworkers, Function.update_of_ne huw]
            exact hs.worker_running u
  -- A wake-up changes no continuation.
  | wake hwake =>
    obtain ⟨queue, rfl⟩ := hwake.after
    simp only [hwake.kont]
    exact ⟨hs.putting, hs.main_running, hs.getting, hs.worker_running⟩

/-- Every step keeps the invariant. -/
theorem Serving.step (hs : Serving capacity schedPolicy s t) {a : ServerAction n}
    {o : List (ServerEvent n)} (h : (machine n).step s a = .ok (s', o)) :
    ∃ t', Steps s t a s' t' ∧ Serving capacity schedPolicy s' t' := by
  obtain ⟨t', hsteps, hinv'⟩ := hs.inv.step_cases h
  obtain ⟨hputting, hmain, hgetting, hworkers⟩ := hsteps.inside hs
  refine ⟨t', hsteps, hinv', hsteps.accounted hs.inv hs.accounted, ?_, hputting, hmain, hgetting,
    hworkers⟩
  obtain ⟨acts, out, hrun⟩ := hs.reached
  rcases (hsteps.queue hs.inv).2 with rfl | ⟨b, o', hstep⟩
  · exact ⟨acts, out, hrun⟩
  · exact ⟨_, _, Machine.exec_append hrun (Machine.exec_singleton hstep)⟩

/-- The invariant holds in a server that starts. -/
theorem serving_initial (hsize : 1 ≤ capacity) : Serving capacity schedPolicy
    (initial n capacity schedPolicy) (Monitor.initial (Queue.initial capacity schedPolicy)) where
  inv := inv_initial schedPolicy hsize
  accounted := fun b hb => absurd rfl hb
  reached := ⟨[], [], rfl⟩
  putting := fun h => by cases h
  main_running := by simp [initial]
  getting := fun w h => by cases h
  worker_running := fun w => by simp [initial]

/-! ## Some thread can go on -/

/-- The server can make a step on its own. -/
def CanMove (s : Server n) : Prop :=
  ∃ a s' o, own a ∧ (machine n).step s a = .ok (s', o)

/-- Nothing goes wrong, so a step is possible unless it has to wait. -/
private theorem Serving.canMove_of_ne_stuck (hs : Serving capacity schedPolicy s t)
    (a : ServerAction n) (hown : own a) (hstuck : (machine n).step s a ≠ .stuck) :
    s.CanMove := by
  have hcloses := hs.inv.step a
  cases hstep : (machine n).step s a with
  | stuck => exact absurd hstep hstuck
  | fault e =>
    rw [hstep] at hcloses
    cases hcloses
  | ok r => exact ⟨a, r.1, r.2, hown, hstep⟩

/-- An access to metadata is done or faults. -/
private theorem onMetas_ne_stuck {β : Type} {x : Outcome MemFault β} (h : x ≠ .stuck) :
    onMetas x ≠ .stuck := by
  cases x <;> simp_all [onMetas]

/-- An action without output is possible if its computation is. -/
private theorem silent_ne_stuck {r : Outcome ServerFault (Server n)} (h : r ≠ .stuck) :
    silent r ≠ .stuck :=
  Outcome.bind_ne_stuck h fun _ _ => by simp

/-- Freeing what was dropped is done or faults. -/
theorem freeMetas_ne_stuck (frees : List Nat) (metas : Heap MetaData) :
    freeMetas frees metas ≠ .stuck := by
  induction frees generalizing metas with
  | nil => simp [freeMetas]
  | cons a frees ih => exact Outcome.bind_ne_stuck (Heap.free_ne_stuck _ _) fun metas _ => ih metas

/-- A step of the queue that is possible is possible in the server. -/
private theorem queueStep_ne_stuck {a : Monitor.Action (ServerTid n) (List Nat) (Call Int)}
    (h : ∃ queue o, (MessageQueue.monitor Int .succeed).machine.step s.queue a = .ok (queue, o)) :
    s.queueStep a ≠ .stuck := by
  obtain ⟨queue, o, hstep⟩ := h
  unfold queueStep
  rw [hstep]
  simp only
  split
  · rename_i hfrees
    exact absurd hfrees (freeMetas_ne_stuck _ _)
  · simp
  · simp

/-- A thread that is not inside the queue can call it. -/
private theorem exists_call {s : Server n} {i : ServerTid n} {c : Call Int} {k : Kont Unit Int}
    (hR : MessageQueue.Corresponds s.queue t) (hc : Queue.call c t.data = .ok (t.data, .inl k))
    (hout : (t.threads i).kont = none) :
    ∃ queue o, (MessageQueue.monitor Int .succeed).machine.step s.queue (.call i c) =
      .ok (queue, o) := by
  have hout' : (s.queue.threads i).kont = none := by
    rw [hR.threads_eq, Status.kont_map, Option.map_eq_none_iff] at hout
    exact hout
  have hst : s.queue.threads i = .outside := by
    cases hst : s.queue.threads i <;> simp_all [Status.kont]
  obtain ⟨r, hcall⟩ := MessageQueue.monitor_refines.call_of_ok hR hst hc
  exact Monitor.exists_step_call hout' hcall

/-- With a thread awake inside the queue, some thread can go on. -/
theorem Serving.canMove_of_awake (hs : Serving capacity schedPolicy s t) {i : ServerTid n}
    (hi : (t.threads i).isAwake = true) : s.CanMove := by
  obtain ⟨acts, out, hrun⟩ := hs.reached
  obtain ⟨hheld, howned⟩ := Queue.locked hrun
  obtain ⟨u, k, hu⟩ := Monitor.exists_runnable hheld howned hi
  obtain ⟨rands, g, hseg⟩ := Queue.exists_segment hs.inv.capacity k
  obtain ⟨woken, queue, o, hstep⟩ :=
    MessageQueue.monitor_refines.exists_step_run hs.inv.corr hu hseg
  exact hs.canMove_of_ne_stuck (.run u rands woken) rfl
    (silent_ne_stuck (queueStep_ne_stuck ⟨queue, o, hstep⟩))

/-- A worker that is not inside `MQGet` can go on. -/
theorem Serving.canMove_of_worker (hs : Serving capacity schedPolicy s t) (w : Fin n)
    (hw : (s.workers w).point ≠ .getting) : s.CanMove := by
  -- One case for each point of a worker: the next statement is executable there.
  cases hpoint : (s.workers w).point with
  | idle =>
    refine hs.canMove_of_ne_stuck (.get w) rfl (silent_ne_stuck ?_)
    simp only [Server.get, hpoint]
    have hout : (t.threads (some w)).kont = none := by
      refine Option.eq_none_iff_forall_ne_some.mpr fun k hk => hw (hs.inv.worker_in w k hk).1
    have hcorr : MessageQueue.Corresponds
        (s.setWorker w { s.workers w with point := .getting }).queue t := hs.inv.corr
    exact queueStep_ne_stuck (exists_call hcorr rfl hout)
  | getting => exact absurd hpoint hw
  | got code message =>
    obtain ⟨rfl, m, rfl⟩ := hs.inv.worker_got w code message hpoint
    refine hs.canMove_of_ne_stuck (.dispatch w ⟨0, 0⟩) rfl (silent_ne_stuck ?_)
    -- The load and the store may be faults, but not stuck.
    simp only [Server.dispatch, hpoint, if_true]
    exact Outcome.bind_ne_stuck (onMetas_ne_stuck (Heap.load_ne_stuck _ _)) fun _ _ =>
      Outcome.bind_ne_stuck (onMetas_ne_stuck (Heap.store_ne_stuck _ _ _)) fun _ _ => by simp
  | dispatched m =>
    refine hs.canMove_of_ne_stuck (.handle w (-1)) rfl (silent_ne_stuck ?_)
    simp [Server.handle, hpoint]
  | handled m =>
    refine hs.canMove_of_ne_stuck (.free w) rfl (silent_ne_stuck ?_)
    simp only [Server.free, hpoint]
    exact Outcome.bind_ne_stuck (onMetas_ne_stuck (Heap.free_ne_stuck _ _)) fun _ _ => by simp
  | freed m =>
    refine hs.canMove_of_ne_stuck (.close w) rfl ?_
    show s.close w ≠ .stuck
    simp only [Server.close, hpoint, closeFd]
    split <;> simp
  | stopped => exact absurd hpoint (hs.worker_running w)

/-- The accept loop can go on unless it waits for a connection or is inside `MQPut`. -/
theorem Serving.canMove_of_main (hs : Serving capacity schedPolicy s t)
    (haccepting : s.main ≠ .accepting) (hputting : s.main ≠ .putting) : s.CanMove := by
  -- The same for the accept loop; only `accept` itself waits for the outside.
  cases hmain : s.main with
  | accepting => exact absurd hmain haccepting
  | accepted connfd =>
    refine hs.canMove_of_ne_stuck (.build ⟨⟨0, 0⟩, ⟨0, 0⟩, 0, 0, 0, 0⟩ ⟨0, 0⟩) rfl
      (silent_ne_stuck ?_)
    simp only [Server.build, hmain]
    exact Outcome.bind_ne_stuck (onMetas_ne_stuck (Heap.store_ne_stuck _ _ _)) fun _ _ => by simp
  | created message =>
    refine hs.canMove_of_ne_stuck .put rfl (silent_ne_stuck ?_)
    simp only [Server.put, hmain]
    have hout : (t.threads none).kont = none := by
      -- Nobody who is at a call is inside another one.
      refine Option.eq_none_iff_forall_ne_some.mpr fun k hk => ?_
      cases hmain.symm.trans (hs.inv.main_in k hk).1
    have hcorr : MessageQueue.Corresponds ({ s with main := .putting } : Server n).queue t :=
      hs.inv.corr
    exact queueStep_ne_stuck (exists_call hcorr rfl hout)
  | putting => exact absurd hmain hputting
  | closing amount i =>
    refine hs.canMove_of_ne_stuck .closeDropped rfl ?_
    show s.closeDropped ≠ .stuck
    simp only [Server.closeDropped, hmain, closeFd]
    split
    · split
      · split
        · simp
        · split <;> simp
      · simp
    · simp
  | stopped => exact absurd hmain hs.main_running

/-! ## At rest -/

/-- The accept loop waits for a connection, the workers sleep in `MQGet`, the queue is empty, no
    connection is open and no metadata block is allocated. -/
structure AtRest (s : Server n) : Prop where
  main : s.main = .accepting
  workers : ∀ w, s.queue.threads (some w) = .waiting .condPut .asleep .get
  queue : MessageQueue.messages s.queue.data = []
  openFds : s.openFds = ∅
  metas : ∀ b, s.metas.cell b = none

/-- A worker inside the queue that is not awake sleeps on `condPut`. -/
theorem Serving.asleep_of_not_awake (hs : Serving capacity schedPolicy s t) {w : Fin n}
    (hw : (s.workers w).point = .getting) (hawake : (t.threads (some w)).isAwake = false) :
    t.threads (some w) = .waiting .condPut .asleep .get := by
  obtain ⟨k, hk⟩ := hs.getting w hw
  have hget := (hs.inv.worker_in w k hk).2
  obtain ⟨acts, out, hrun⟩ := hs.reached
  cases hst : t.threads (some w) with
  -- Outside and runnable threads are not asleep.
  | outside => simp [hst, Status.kont] at hk
  | ready | holding => simp [hst, Status.isAwake] at hawake
  | waiting c wake k' =>
    rw [hst] at hk hawake
    obtain rfl : k' = k := Option.some.inj hk
    cases wake with
    | signalled | spurious => simp [Status.isAwake] at hawake
    | asleep =>
      -- Only putters wait on `condGet`.
      have hcond : c = .condPut := by
        cases c with
        | condPut => rfl
        | condGet => exact absurd hget ((Queue.putRule.exec_inv hrun).mine_of_waiting _ _ _ hst)
      subst hcond
      cases k' with
      | get => rfl
      | put => exact absurd hget id

/-- With every worker asleep there is no message in the queue. -/
theorem Serving.items_of_asleep (hs : Serving capacity schedPolicy s t) (hn : 0 < n)
    (hawake : ∀ i, (t.threads i).isAwake = false)
    (hworkers : ∀ w, t.threads (some w) = .waiting .condPut .asleep .get) :
    t.data.items = [] := by
  obtain ⟨acts, out, hrun⟩ := hs.reached
  by_contra hitems
  refine Queue.not_someAsleep_of_message hrun hawake hitems ⟨some ⟨0, hn⟩, ?_⟩
  rw [hworkers]
  rfl

/-- A server that cannot move on its own is at rest. -/
theorem Serving.atRest_of_not_canMove (hs : Serving capacity schedPolicy s t) (hn : 0 < n)
    (h : ¬ s.CanMove) : s.AtRest := by
  -- Nobody is awake, so every worker is inside `MQGet`, and hence the queue is empty.
  have hawake : ∀ i, (t.threads i).isAwake = false := fun i =>
    Bool.eq_false_iff.mpr fun hi => h (hs.canMove_of_awake hi)
  have hgetting : ∀ w, (s.workers w).point = .getting := fun w => by
    by_contra hw
    exact h (hs.canMove_of_worker w hw)
  have hworkers := fun w => hs.asleep_of_not_awake (hgetting w) (hawake (some w))
  have hitems := hs.items_of_asleep hn hawake hworkers
  have hmain : s.main = .accepting := by
    by_contra haccepting
    -- Inside `MQPut` the accept loop would sleep, although the queue has room.
    have hputting : s.main = .putting := by
      by_contra hputting
      exact h (hs.canMove_of_main haccepting hputting)
    obtain ⟨k, hk⟩ := hs.putting hputting
    obtain ⟨acts, out, hrun⟩ := hs.reached
    have hroom : (t.data.items.length : Int) < t.data.capacity := by
      have hcap := hs.inv.capacity
      rw [hitems]
      exact hcap
    refine Queue.not_someAsleep_of_room hrun hawake hroom ⟨none, ?_⟩
    have hnone := hawake none
    cases hst : t.threads none with
    | outside => simp [hst, Status.kont] at hk
    | ready | holding => simp [hst, Status.isAwake] at hnone
    | waiting c wake k' =>
      rw [hst] at hnone
      cases wake with
      | signalled | spurious => simp [Status.isAwake] at hnone
      | asleep =>
        -- The accept loop sleeps on `condGet`, for which there is room.
        cases c with
        | condGet => rfl
        | condPut =>
          have hget := (Queue.getRule.exec_inv hrun).mine_of_waiting _ _ _ hst
          exact absurd hget (hs.inv.main_in k' (by rw [hst]; rfl)).2
  -- An empty queue and idle workers hold no descriptor and no metadata.
  have hfds : s.openFds.val.map some = 0 := by
    rw [hs.inv.fds, hmain, Queue.fds, Queue.contents, hitems]
    simp [MainPoint.fds, Worker.fds, hgetting]
  obtain ⟨l, hrep⟩ := hs.inv.corr.1
  refine ⟨hmain, fun w => ?_, ?_, ?_, fun b => ?_⟩
  · have hw := hworkers w
    rw [hs.inv.corr.threads_eq, Status.map_eq_waiting] at hw
    obtain ⟨k, hk, hget⟩ := hw
    cases k with
    | get => exact hk
    | put => cases hget
  · rw [hrep.list.messages_eq, hrep.items, hitems]
  · exact Finset.val_eq_zero.mp (Multiset.map_eq_zero.mp hfds)
  · by_contra hlive
    have hmem := hs.accounted b hlive
    rw [allMetas, hmain, Queue.metas, hitems] at hmem
    simp [MainPoint.metas, Worker.metas, hgetting] at hmem

/-- The converse: at rest there is nothing to do. -/
theorem Serving.not_canMove_of_atRest (hs : Serving capacity schedPolicy s t) (h : s.AtRest) :
    ¬ s.CanMove := by
  rintro ⟨a, s', o, hown, hstep⟩
  have hpoint : ∀ w, (s.workers w).point = .getting := fun w => by
    refine (hs.inv.worker_in w .get ?_).1
    rw [hs.inv.corr.threads_eq, h.workers]
    rfl
  obtain ⟨t', hsteps⟩ := step_cases hs.inv hstep
  -- An own step needs a thread that is not asleep; there is none.
  cases hsteps with
  | outside houtside =>
    cases houtside with
    | main next =>
      rw [h.main] at next
      generalize s'.main = p at next
      cases next
      cases hown
    | @worker w _ next =>
      rw [hpoint] at next
      generalize Worker.point _ = p at next
      cases next
  | put hmain => cases h.main.symm.trans hmain
  | @get w _ _ hidle => cases (hpoint w).symm.trans hidle
  | @run i rands woken k g _ _ hrun =>
    cases i with
    -- The accept loop is at `accept`, not inside `MQPut`.
    | none =>
      obtain ⟨hmain, -⟩ := hrun.main_cases hs.inv
      cases h.main.symm.trans hmain
    | some w =>
      -- A worker that runs would have to be awake.
      have hrunnable := hrun.runnable
      rw [hs.inv.corr.runnable, Option.map_eq_some_iff] at hrunnable
      obtain ⟨k', hk', -⟩ := hrunnable
      have hawake := Monitor.isAwake_of_runnable hk'
      rw [h.workers] at hawake
      cases hawake
  | wake => cases hown

/-! ## Runs -/

/-- The work that is left, read off the memory of the server. -/
def stepsLeft (s : Server n) : Nat :=
  s.main.work (s.queue.threads none).kont + ∑ w, (s.workers w).point.work +
    Monitor.awakeCount s.queue.threads + 8 * (MessageQueue.messages s.queue.data).length

/-- The work is what the faithful server has left to do. -/
theorem Inv.work_eq (h : Inv s t) : s.work t = s.stepsLeft := by
  obtain ⟨l, hrep⟩ := h.corr.1
  have hlen : (MessageQueue.messages s.queue.data).length = t.data.items.length := by
    rw [hrep.list.messages_eq, hrep.items]
  have hawake : Monitor.awakeCount t.threads = Monitor.awakeCount s.queue.threads := by
    unfold Monitor.awakeCount
    congr 2
    funext i
    rw [h.corr.threads_eq]
    cases s.queue.threads i with
    | waiting c wake k => cases wake <;> rfl
    | _ => rfl
  have hmain : s.main.work (t.threads none).kont = s.main.work (s.queue.threads none).kont := by
    rw [h.corr.threads_eq, Status.kont_map]
    cases s.main with
    | putting => rcases (s.queue.threads none).kont with _ | ⟨_ | _⟩ <;> rfl
    | _ => rfl
  rw [work, stepsLeft, hlen, hawake, hmain]

/-- Left to itself, the server comes to rest. -/
theorem drains (hn : 0 < n) (hpol : schedPolicy ≠ .invalid) :
    (machine n).Drains (fun s => ∃ t, Serving capacity schedPolicy s t) own cost AtRest
      stepsLeft where
  keeps s a s' o h hstep := by
    obtain ⟨t, hs⟩ := h
    obtain ⟨t', -, hs'⟩ := hs.step hstep
    exact ⟨t', hs'⟩
  -- Own steps lower the work by at least one.
  own_step s a s' o h hown hstep := by
    obtain ⟨t, hs⟩ := h
    obtain ⟨t', hsteps, hs'⟩ := hs.step hstep
    obtain ⟨acts, out, hrun⟩ := hs.reached
    have hle := hsteps.work_le hs.inv (by rwa [(Queue.exec_params hrun).2])
    have hcost : cost a = 0 := by cases a <;> simp_all [own, cost]
    rw [hs.inv.work_eq, hs'.inv.work_eq, if_pos hown, hcost] at hle
    omega
  -- Inputs and wake-ups raise it by at most their cost.
  input_step s a s' o h hown hstep := by
    obtain ⟨t, hs⟩ := h
    obtain ⟨t', hsteps, hs'⟩ := hs.step hstep
    obtain ⟨acts, out, hrun⟩ := hs.reached
    have hle := hsteps.work_le hs.inv (by rwa [(Queue.exec_params hrun).2])
    rwa [hs.inv.work_eq, hs'.inv.work_eq, if_neg hown, add_zero] at hle
  progress s h hrest := by
    obtain ⟨t, hs⟩ := h
    by_contra hnot
    exact hrest (hs.atRest_of_not_canMove hn hnot)

/-- The number of connections that a run accepts, and of its spurious wake-ups. -/
def acceptCount (acts : List (ServerAction n)) : Nat :=
  acts.countP fun | .accept _ => true | _ => false

/-- The wake-ups for no reason in a run. -/
def spuriousCount (acts : List (ServerAction n)) : Nat :=
  acts.countP fun | .wakeSpuriously _ => true | _ => false

/-- What the inputs of a run cost. -/
theorem sum_cost (acts : List (ServerAction n)) :
    ((acts.filter fun a => !own a).map cost).sum = 14 * acceptCount acts + spuriousCount acts := by
  induction acts with
  | nil => rfl
  | cons a acts ih =>
    cases a <;> simp_all [acceptCount, spuriousCount, own, cost] <;> omega

/-- What a server has left to do before it has started. -/
theorem stepsLeft_initial (hsize : 1 ≤ capacity) :
    (initial n capacity schedPolicy).stepsLeft = 2 * n := by
  rw [← (inv_initial schedPolicy hsize).work_eq, work]
  simp [initial, Monitor.initial, Queue.initial, MainPoint.work, WorkerPoint.work,
    Monitor.awakeCount, Status.isAwake, mul_comm]

/-- With every connection closed, each descriptor was closed as often as it was accepted. -/
theorem Balanced.closes_of_empty {out : List (ServerEvent n)} (h : s.Balanced out)
    (hempty : s.openFds = ∅) (fd : Int) : closes fd out = accepts fd out := by
  have hfd := h fd
  rw [hempty] at hfd
  simpa using hfd.symm

/-- A server makes at most 14 steps for each connection, besides 2 for each worker and one for
    each spurious wake-up. It can always go on unless it is at rest, and from every state that it
    reaches it can come to rest without another connection; it has then closed every connection
    as often as it has accepted it. -/
theorem server_comes_to_rest (queueSize : Int) (schedPolicy : MQSchedPolicy) (hn : 0 < n)
    (hsize : 1 ≤ queueSize) (hpol : schedPolicy ≠ .invalid) (acts : List (ServerAction n))
    (s : Server n) (out : List (ServerEvent n))
    (h : (machine n).exec (initial n queueSize schedPolicy) acts = .ok (s, out)) :
    acts.countP own ≤ 2 * n + 14 * acceptCount acts + spuriousCount acts ∧
    ((∀ a s' o, own a → (machine n).step s a ≠ .ok (s', o)) ↔ s.AtRest) ∧
    ∃ acts' s' out', (∀ a ∈ acts', own a) ∧ (machine n).exec s acts' = .ok (s', out') ∧
      s'.AtRest ∧ ∀ fd, closes fd (out ++ out') = accepts fd (out ++ out') := by
  have hdrains : (machine n).Drains (fun s => ∃ t, Serving queueSize schedPolicy s t) own cost
      AtRest stepsLeft := drains hn hpol
  have hinit : ∃ t, Serving queueSize schedPolicy (initial n queueSize schedPolicy) t :=
    ⟨_, serving_initial hsize⟩
  obtain ⟨t, hs⟩ := hdrains.exec_keeps hinit h
  -- The bound, the two directions of being at rest, and a run that comes to rest.
  refine ⟨?_, ⟨fun hstuck => ?_, fun hrest a s' o hown hstep => ?_⟩, ?_⟩
  · have hle := hdrains.countP_add_le hinit h
    rw [sum_cost, stepsLeft_initial hsize] at hle
    omega
  · refine hs.atRest_of_not_canMove hn ?_
    rintro ⟨a, s', o, hown, hstep⟩
    exact hstuck a s' o hown hstep
  · exact hs.not_canMove_of_atRest hrest ⟨a, s', o, hown, hstep⟩
  · obtain ⟨acts', s', out', hown, hrun, hrest⟩ := hdrains.exists_exec ⟨t, hs⟩
    refine ⟨acts', s', out', hown, hrun, hrest, ?_⟩
    exact (exec_inv hsize (Machine.exec_append h hrun)).2.closes_of_empty hrest.openFds

/-- One worker, a drop-head queue of capacity 1 and two connections: from where the worker has
    one of them the server comes to rest. -/
theorem server_comes_to_rest_dropHeadServerRun :
    ∃ s out, (machine 1).exec (initial 1 1 .dropHead) dropHeadServerRun = .ok (s, out) ∧
      dropHeadServerRun.countP own = 14 ∧ acceptCount dropHeadServerRun = 2 ∧
      ((∀ a s' o, own a → (machine 1).step s a ≠ .ok (s', o)) ↔ s.AtRest) ∧
      ∃ acts' s' out', (∀ a ∈ acts', own a) ∧ (machine 1).exec s acts' = .ok (s', out') ∧
        s'.AtRest ∧ ∀ fd, closes fd (out ++ out') = accepts fd (out ++ out') := by
  have hrest := server_comes_to_rest 1 .dropHead (by decide) (by decide) (by decide)
    dropHeadServerRun _ _ rfl
  exact ⟨_, _, rfl, by decide, by decide, hrest.2⟩

end Server

end OsWet
