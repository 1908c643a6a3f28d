import OsWet.ForStd.MonitorRefinement
import OsWet.ForStd.Finset

/-!
# Progress in a monitor

A thread inside a monitor that does not sleep can run as soon as the mutex is free, and the
owner of the mutex can always run. So a monitor can only come to a halt with all its threads
outside or asleep.

- `exists_runnable`: with a thread that is awake some thread can run
- `exists_step_run`: a thread that can run can make a step, whatever its signal finds
- `run_cases`: what a step that runs a segment does
- `awakeCount_run`: how many threads are awake after it
-/

namespace OsWet

/-- The thread is inside, and runs without a signal once it gets the mutex. -/
def Status.isAwake {κ γ : Type*} : Status κ γ → Bool
  | .outside | .waiting _ .asleep _ => false
  | .ready _ | .holding _ | .waiting _ .signalled _ | .waiting _ .spurious _ => true

/-- The segment ends in a wait. -/
def Segment.waits {σ κ γ ο : Type*} : Segment σ κ γ ο → Bool
  | .wait _ _ _ => true
  | .again _ _ | .leave _ _ _ | .escape _ _ => false

/-- The value that the segment returns. -/
def Segment.ret {σ κ γ ο : Type*} : Segment σ κ γ ο → Option ο
  | .leave _ _ o | .escape _ o => some o
  | .again _ _ | .wait _ _ _ => none

namespace Monitor

variable {Tid σ κ γ χ ι ο ε : Type*} [DecidableEq Tid]

/-- A thread that holds the mutex is its owner. -/
def State.LockOwned (s : State Tid σ κ γ) : Prop :=
  ∀ t k, s.threads t = .holding k → s.lock = some t

/-- A thread that can run is awake. -/
theorem isAwake_of_runnable {s : State Tid σ κ γ} {t : Tid} {k : κ} (h : s.runnable t = some k) :
    (s.threads t).isAwake = true := by
  unfold State.runnable at h
  split at h <;> simp_all [Status.isAwake]

/-- A thread that can run finds the mutex free or owns it. -/
theorem lock_of_runnable {s : State Tid σ κ γ} {t u : Tid} {k : κ} (h : s.runnable t = some k)
    (hu : s.lock = some u) : u = t := by
  unfold State.runnable at h
  split at h <;> grind

/-- With a thread that is awake, that thread or the owner of the mutex can run. -/
theorem exists_runnable {s : State Tid σ κ γ} (hheld : s.LockHeld) (howned : s.LockOwned)
    {t : Tid} (ht : (s.threads t).isAwake = true) : ∃ u k, s.runnable u = some k := by
  cases hlock : s.lock with
  | some u =>
    obtain ⟨k, hu⟩ := hheld u hlock
    exact ⟨u, k, by simp only [State.runnable, hu, hlock, if_true]⟩
  | none =>
    cases hst : s.threads t with
    | outside => simp [hst, Status.isAwake] at ht
    | ready k => exact ⟨t, k, by simp only [State.runnable, hst, hlock, if_true]⟩
    | holding k =>
      -- The mutex would not be free.
      have howner := howned t k hst
      rw [hlock] at howner
      cases howner
    | waiting c w k =>
      cases w with
      | asleep => simp [hst, Status.isAwake] at ht
      | signalled | spurious => exact ⟨t, k, by simp only [State.runnable, hst, hlock, if_true]⟩

variable [Fintype Tid] [DecidableEq γ]

/-- A signal finds a thread to wake, or nobody sleeps. -/
theorem exists_signal (c : γ) (threads : Tid → Status κ γ) :
    ∃ woken threads', signal c woken threads = some threads' := by
  by_cases h : ∃ t, (threads t).waitsOn c .asleep = true
  · obtain ⟨t, ht⟩ := h
    exact ⟨some t, _, if_pos ht⟩
  · have hnone : ∀ t, (threads t).waitsOn c .asleep = false := by simpa using h
    exact ⟨none, threads, if_pos hnone⟩

variable {M : Monitor σ κ γ χ ι ο ε}

/-- A thread that can run a segment can make a step. -/
theorem exists_step_run {s : State Tid σ κ γ} {t : Tid} {k : κ} {x : χ} {g : Segment σ κ γ ο}
    (hrun : s.runnable t = some k) (hseg : M.segment x k s.data = .ok g) :
    ∃ woken s' out, M.machine.step s (.run t x woken) = .ok (s', out) := by
  cases g with
  | again d k' => exact ⟨none, _, _, step_iff.mpr (.again hrun hseg)⟩
  | wait d c k' => exact ⟨none, _, _, step_iff.mpr (.wait hrun hseg)⟩
  | leave d c o =>
    obtain ⟨woken, threads, hsig⟩ := exists_signal c (s.setThread t .outside)
    exact ⟨woken, _, _, step_iff.mpr (.leave hrun hseg hsig)⟩
  | escape d o => exact ⟨none, _, _, step_iff.mpr (.escape hrun hseg)⟩

/-- A thread outside can make a call that succeeds. -/
theorem exists_step_call {s : State Tid σ κ γ} {t : Tid} {i : ι} {r : σ × (κ ⊕ ο)}
    (hout : (s.threads t).kont = none) (hcall : M.call i s.data = .ok r) :
    ∃ s' out, M.machine.step s (.call t i) = .ok (s', out) := by
  have hst : s.threads t = .outside := by
    cases hst : s.threads t <;> simp_all [Status.kont]
  obtain ⟨d, k | o⟩ := r
  · exact ⟨_, _, step_iff.mpr (.call hst hcall)⟩
  · exact ⟨_, _, step_iff.mpr (.refuse hst hcall)⟩

variable {τ κ' : Type*} {N : Monitor τ κ' γ χ ι ο ε} {f : κ → κ'}
  {R : σ → (Tid → Option κ) → τ → Prop}

/-- What can run in a monitor can run in one that refines it. -/
theorem Refines.exists_step_run (href : Refines M N f R) {s : State Tid σ κ γ}
    {t : State Tid τ κ' γ} (hR : Related f R s t) {i : Tid} {k : κ'} {x : χ}
    {g : Segment τ κ' γ ο} (hrun : t.runnable i = some k) (hseg : N.segment x k t.data = .ok g) :
    ∃ woken s' out, M.machine.step s (.run i x woken) = .ok (s', out) := by
  rw [hR.runnable, Option.map_eq_some_iff] at hrun
  obtain ⟨k₀, hrun₀, rfl⟩ := hrun
  obtain ⟨g₀, hseg₀⟩ := href.segment_of_ok hR hrun₀ hseg
  exact Monitor.exists_step_run hrun₀ hseg₀

omit [Fintype Tid] [DecidableEq γ] in
/-- A thread that still holds the mutex after another one has moved. -/
private theorem holding_setThread {s : State Tid σ κ γ} {t u : Tid} {st : Status κ γ} {k : κ}
    (hst : ∀ k', st ≠ .holding k') (hu : s.setThread t st u = .holding k) :
    u ≠ t ∧ s.threads u = .holding k := by
  by_cases hut : u = t
  · subst hut
    rw [State.setThread, Function.update_self] at hu
    exact absurd hu (hst k)
  · rw [State.setThread, Function.update_of_ne hut] at hu
    exact ⟨hut, hu⟩

/-- A signal makes no thread hold the mutex. -/
private theorem holding_signal {c : γ} {woken : Option Tid} {threads threads' : Tid → Status κ γ}
    {u : Tid} {k : κ} (h : signal c woken threads = some threads')
    (hu : threads' u = .holding k) : threads u = .holding k := by
  cases woken with
  | none =>
    simp only [signal, Option.ite_none_right_eq_some, Option.some.injEq] at h
    rwa [h.2]
  | some v =>
    simp only [signal, Option.ite_none_right_eq_some, Option.some.injEq] at h
    obtain ⟨-, rfl⟩ := h
    by_cases huv : u = v
    · subst huv
      rw [Function.update_self] at hu
      cases hst : threads u <;> simp_all [Status.wake]
    · rwa [Function.update_of_ne huv] at hu

/-- Every step keeps the mutex with its owner. -/
theorem State.LockOwned.step {s s' : State Tid σ κ γ} {a : Action Tid χ ι}
    {out : List (Tid × ο)} (hs : s.LockOwned) (h : M.machine.step s a = .ok (s', out)) :
    s'.LockOwned := by
  -- Another thread that holds the mutex would be its owner, and `t` could not run.
  have hother : ∀ {t u : Tid} {k k' : κ}, s.runnable t = some k → u ≠ t →
      s.threads u ≠ .holding k' := fun hrun hut hu => hut (lock_of_runnable hrun (hs _ _ hu))
  cases step_iff.mp h with
  | call hout hcall =>
    intro u k' hu
    exact hs u k' (holding_setThread (by simp) hu).2
  | refuse hout hcall => exact hs
  -- The thread that runs goes on holding the mutex.
  | @again t x woken k k' d hrun hseg =>
    intro u k'' hu
    by_cases hut : u = t
    · rw [hut]
    · exact absurd ((Function.update_of_ne hut _ _).symm.trans hu) (hother hrun hut)
  -- The thread that runs gives the mutex up, so nobody holds it.
  | wait hrun hseg =>
    intro u k'' hu
    obtain ⟨hut, hu⟩ := holding_setThread (by simp) hu
    exact absurd hu (hother hrun hut)
  | leave hrun hseg hsig =>
    intro u k'' hu
    obtain ⟨hut, hu⟩ := holding_setThread (by simp) (holding_signal hsig hu)
    exact absurd hu (hother hrun hut)
  | escape hrun hseg =>
    intro u k'' hu
    obtain ⟨hut, hu⟩ := holding_setThread (by simp) hu
    exact absurd hu (hother hrun hut)
  | spurious hwait =>
    intro u k'' hu
    exact hs u k'' (holding_setThread (by simp) hu).2

/-- What a thread does when it runs. -/
theorem run_cases {s s' : State Tid σ κ γ} {t : Tid} {x : χ} {woken : Option Tid}
    {out : List (Tid × ο)} (h : M.machine.step s (.run t x woken) = .ok (s', out)) :
    ∃ k g, s.runnable t = some k ∧ M.segment x k s.data = .ok g ∧ s'.data = g.data ∧
      (∀ u, (s'.threads u).kont = Function.update (fun u => (s.threads u).kont) t g.kont u) ∧
      out = g.ret.toList.map fun o => (t, o) := by
  have hset := fun st => congrFun (kont_setThread s t st)
  cases step_iff.mp h with
  | again hrun hseg => exact ⟨_, _, hrun, hseg, rfl, hset (.holding _), rfl⟩
  | wait hrun hseg => exact ⟨_, _, hrun, hseg, rfl, hset (.waiting _ .asleep _), rfl⟩
  | leave hrun hseg hsig =>
    refine ⟨_, _, hrun, hseg, rfl, fun u => ?_, rfl⟩
    rw [signal_kont hsig u]
    exact hset .outside u
  | escape hrun hseg => exact ⟨_, _, hrun, hseg, rfl, hset .outside, rfl⟩

/-! ## Counting the threads that are awake -/

/-- How many threads are awake. -/
def awakeCount (threads : Tid → Status κ γ) : Nat :=
  (Finset.univ.filter fun t => (threads t).isAwake).card

omit [DecidableEq γ] in
/-- Changing one thread changes the number of threads that are awake by that thread alone. -/
theorem awakeCount_setThread (s : State Tid σ κ γ) (t : Tid) (st : Status κ γ) :
    awakeCount (s.setThread t st) + (if (s.threads t).isAwake then 1 else 0) =
      awakeCount s.threads + if st.isAwake then 1 else 0 :=
  card_filter_update s.threads Status.isAwake t st

/-- A signal wakes at most one thread. -/
theorem awakeCount_signal {c : γ} {woken : Option Tid} {threads threads' : Tid → Status κ γ}
    (h : signal c woken threads = some threads') :
    awakeCount threads' ≤ awakeCount threads + 1 := by
  cases woken with
  | none =>
    simp only [signal, Option.ite_none_right_eq_some, Option.some.injEq] at h
    rw [h.2]
    omega
  | some u =>
    simp only [signal, Option.ite_none_right_eq_some, Option.some.injEq] at h
    obtain ⟨-, rfl⟩ := h
    have hcount := card_filter_update threads Status.isAwake u ((threads u).wake .signalled)
    unfold awakeCount
    split at hcount <;> split at hcount <;> omega

/-- A thread that goes to sleep is one less that is awake, and a thread that leaves wakes at most
    one in its place. -/
theorem awakeCount_run {s s' : State Tid σ κ γ} {t : Tid} {x : χ} {woken : Option Tid} {k : κ}
    {g : Segment σ κ γ ο} {out : List (Tid × ο)}
    (h : M.machine.step s (.run t x woken) = .ok (s', out)) (hrun : s.runnable t = some k)
    (hseg : M.segment x k s.data = .ok g) :
    awakeCount s'.threads + (if g.waits then 1 else 0) ≤ awakeCount s.threads := by
  -- The thread was awake, so its new status decides.
  have hcount : ∀ st, awakeCount (s.setThread t st) + 1 =
      awakeCount s.threads + if st.isAwake then 1 else 0 := by
    intro st
    rw [← awakeCount_setThread s t st, if_pos (isAwake_of_runnable hrun)]
  have houtside : awakeCount (s.setThread t .outside) + 1 = awakeCount s.threads := hcount .outside
  cases step_iff.mp h with
  -- It stays awake, falls asleep, or leaves, when the signal may wake one other thread.
  | @again _ _ _ _ k' d hrun' hseg' =>
    cases hrun'.symm.trans hrun
    cases hseg'.symm.trans hseg
    have hholding : awakeCount (s.setThread t (.holding k')) + 1 = awakeCount s.threads + 1 :=
      hcount (.holding k')
    exact (Nat.succ.inj hholding).le
  | @wait _ _ _ _ k' d c hrun' hseg' =>
    cases hrun'.symm.trans hrun
    cases hseg'.symm.trans hseg
    have hasleep : awakeCount (s.setThread t (.waiting c .asleep k')) + 1 =
        awakeCount s.threads := hcount (.waiting c .asleep k')
    exact hasleep.le
  | @leave _ _ _ _ d c o threads hrun' hseg' hsig =>
    cases hrun'.symm.trans hrun
    cases hseg'.symm.trans hseg
    have hsignal := awakeCount_signal hsig
    show awakeCount threads + 0 ≤ awakeCount s.threads
    omega
  | escape hrun' hseg' =>
    cases hrun'.symm.trans hrun
    cases hseg'.symm.trans hseg
    show awakeCount (s.setThread t .outside) + 0 ≤ awakeCount s.threads
    omega

/-- A thread that enters is awake. -/
theorem awakeCount_call {s s' : State Tid σ κ γ} {t : Tid} {i : ι} {d : σ} {k : κ}
    {out : List (Tid × ο)} (h : M.machine.step s (.call t i) = .ok (s', out))
    (hcall : M.call i s.data = .ok (d, .inl k)) :
    awakeCount s'.threads = awakeCount s.threads + 1 := by
  cases step_iff.mp h with
  | call hout hcall' =>
    cases hcall'.symm.trans hcall
    have hcount := awakeCount_setThread s t (.ready k)
    rw [hout] at hcount
    exact hcount
  | refuse hout hcall' => cases hcall'.symm.trans hcall

/-- A spurious wake-up wakes one thread. -/
theorem awakeCount_spurious {s s' : State Tid σ κ γ} {t : Tid} {out : List (Tid × ο)}
    (h : M.machine.step s (.spurious t) = .ok (s', out)) :
    awakeCount s'.threads = awakeCount s.threads + 1 := by
  cases step_iff.mp h with
  | @spurious _ c k hwait =>
    have hcount := awakeCount_setThread s t (.waiting c .spurious k)
    rw [hwait] at hcount
    exact hcount

end Monitor

end OsWet
