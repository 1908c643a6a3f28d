import OsWet.ForStd.Monitor
import OsWet.ForStd.Finset

/-!
# No lost wake-ups

Suppose the threads that wait on a condition variable `c` wait for units of some
resource, and `need` counts the units that are free in the shared data. The plain
statement "if a unit is free and a thread sleeps on `c`, some thread has been
signalled" is not kept by the steps of a monitor. What is kept is a count: *as long
as a thread sleeps on `c`, the free units are at most as many as the signalled
threads*. `WakeupRule` lists what the segments have to do for the count to be kept.

Threads that woke up spuriously are not counted: the rule finds a thread that was
really signalled.
-/

namespace OsWet

namespace Monitor

variable {Tid σ κ γ χ ι ο ε : Type*} [DecidableEq Tid] [Fintype Tid] [DecidableEq γ]

/-- What calls and segments have to do so that no wake-up on `c` is lost. `mine`
    singles out the continuations of threads that may wait on `c`. -/
structure WakeupRule (M : Monitor σ κ γ χ ι ο ε) (c : γ) (mine : κ → Prop) (need : σ → Nat) :
    Prop where
  call : ∀ i s s' r, M.call i s = .ok (s', r) → need s' ≤ need s
  /-- A thread goes to sleep on `c` only when no unit is free. -/
  wait : ∀ x k s s' k', M.segment x k s = .ok (.wait s' c k') → need s' = 0 ∧ mine k'
  /-- A thread that may wait on `c` uses up a unit when it leaves, and a unit is only
      freed together with a signal on `c`. -/
  leave_mine : ∀ x k s s' c' o, mine k → M.segment x k s = .ok (.leave s' c' o) →
    need s' ≤ (need s - 1) + if c' = c then 1 else 0
  leave : ∀ x k s s' c' o, M.segment x k s = .ok (.leave s' c' o) →
    need s' ≤ need s + if c' = c then 1 else 0
  again : ∀ x k s s' k', M.segment x k s = .ok (.again s' k') →
    need s' = 0 ∨ ¬ mine k ∧ need s' ≤ need s
  wait_other : ∀ x k s s' c' k', c' ≠ c → M.segment x k s = .ok (.wait s' c' k') →
    need s' = 0 ∨ ¬ mine k ∧ need s' ≤ need s
  escape : ∀ x k s s' o, M.segment x k s = .ok (.escape s' o) →
    need s' = 0 ∨ ¬ mine k ∧ need s' ≤ need s

/-- The number of threads that were signalled on `c` and have not run since. -/
def signalledCount (c : γ) (threads : Tid → Status κ γ) : Nat :=
  (Finset.univ.filter fun t => (threads t).waitsOn c .signalled).card

/-- Some thread sleeps on `c`. -/
def SomeAsleep (c : γ) (threads : Tid → Status κ γ) : Prop :=
  ∃ t, (threads t).waitsOn c .asleep

/-- The counting invariant. -/
structure WakeupInv (c : γ) (mine : κ → Prop) (need : σ → Nat) (s : State Tid σ κ γ) : Prop where
  mine_of_waiting : ∀ t w k, s.threads t = .waiting c w k → mine k
  count : SomeAsleep c s.threads → need s.data ≤ signalledCount c s.threads

/-- Changing one thread changes the number of wake-ups under way by that thread alone. -/
private theorem signalledCount_update (c : γ) (threads : Tid → Status κ γ) (t : Tid)
    (st : Status κ γ) :
    signalledCount c (Function.update threads t st) +
        (if (threads t).waitsOn c .signalled then 1 else 0) =
      signalledCount c threads + (if st.waitsOn c .signalled then 1 else 0) :=
  card_filter_update threads (fun st => st.waitsOn c .signalled) t st

omit [Fintype Tid] in
/-- Moving one thread to a status that does not sleep on `c` makes nobody sleep. -/
private theorem someAsleep_of_update {c : γ} {threads : Tid → Status κ γ} {t : Tid}
    {st : Status κ γ} (hst : st.waitsOn c .asleep = false)
    (h : SomeAsleep c (Function.update threads t st)) : SomeAsleep c threads := by
  obtain ⟨u, hu⟩ := h
  by_cases hut : u = t
  · subst hut
    rw [Function.update_self, hst] at hu
    cases hu
  · rw [Function.update_of_ne hut] at hu
    exact ⟨u, hu⟩

omit [Fintype Tid] [DecidableEq γ] in
/-- A thread waiting on `c` stays accounted for by `mine` when another one moves. -/
private theorem mine_update {c : γ} {q : κ → Prop} {threads : Tid → Status κ γ} {t : Tid}
    {st : Status κ γ} (hold : ∀ t w k, threads t = .waiting c w k → q k)
    (hst : ∀ w k, st = .waiting c w k → q k) :
    ∀ u w k, Function.update threads t st u = .waiting c w k → q k := by
  intro u w k hu
  by_cases hut : u = t
  · subst hut
    rw [Function.update_self] at hu
    exact hst w k hu
  · rw [Function.update_of_ne hut] at hu
    exact hold u w k hu

variable {M : Monitor σ κ γ χ ι ο ε} {c : γ} {mine : κ → Prop} {need : σ → Nat}

/-- A running thread counts as signalled only if it may wait on `c`. -/
private theorem mine_of_signalled {s : State Tid σ κ γ} {t : Tid} {k : κ}
    (hinv : WakeupInv c mine need s) (hrun : s.runnable t = some k)
    (hsig : (s.threads t).waitsOn c .signalled = true) : mine k := by
  obtain ⟨k', hk'⟩ := Status.waitsOn_eq_true.mp hsig
  have hkont := State.kont_of_runnable hrun
  rw [hk'] at hkont
  cases Option.some.inj hkont
  exact hinv.mine_of_waiting t _ _ hk'

/-- A signal that wakes nobody was sent with nobody asleep; one that wakes a thread
    adds it to the signalled ones. -/
private theorem signal_count {c' : γ} {woken : Option Tid} {threads threads' : Tid → Status κ γ}
    (h : signal c' woken threads = some threads') :
    (SomeAsleep c threads' → SomeAsleep c threads) ∧
      (SomeAsleep c threads' →
        signalledCount c threads' = signalledCount c threads + if c' = c then 1 else 0) := by
  cases woken with
  | none =>
    simp only [signal, Option.ite_none_right_eq_some] at h
    obtain ⟨hnone, h⟩ := h
    cases h
    refine ⟨id, ?_⟩
    intro h
    obtain ⟨u, hu⟩ := h
    -- Nobody sleeps on the signalled variable, so it is not `c`.
    have hne : c' ≠ c := by
      rintro rfl
      rw [hnone u] at hu
      cases hu
    simp [hne]
  | some t =>
    simp only [signal, Option.ite_none_right_eq_some] at h
    obtain ⟨hasleep, h⟩ := h
    cases h
    -- The woken thread slept on the signalled variable, and is counted from now on.
    obtain ⟨k, hk⟩ := Status.waitsOn_eq_true.mp hasleep
    have hupdate := signalledCount_update c threads t (.waiting c' .signalled k)
    rw [hk] at hupdate ⊢
    refine ⟨someAsleep_of_update (by simp [Status.wake, Status.waitsOn]), fun _ => ?_⟩
    simpa [Status.wake, Status.waitsOn] using hupdate

/-- A signal leaves every waiting thread with its continuation. -/
private theorem mine_signal {q : κ → Prop} {c' : γ} {woken : Option Tid}
    {threads threads' : Tid → Status κ γ}
    (h : signal c' woken threads = some threads')
    (hold : ∀ t w k, threads t = .waiting c w k → q k) :
    ∀ t w k, threads' t = .waiting c w k → q k := by
  cases woken with
  | none =>
    simp only [signal, Option.ite_none_right_eq_some] at h
    cases h.2
    exact hold
  | some v =>
    simp only [signal, Option.ite_none_right_eq_some] at h
    cases h.2
    refine mine_update hold fun w k hw => ?_
    obtain ⟨k₀, hv⟩ := Status.waitsOn_eq_true.mp h.1
    rw [hv] at hw
    cases hw
    exact hold v _ _ hv

/-- A step of a thread that is not counted and does not start to sleep on `c` keeps the
    invariant if it frees no unit. -/
private theorem WakeupInv.setThread {s : State Tid σ κ γ} (hinv : WakeupInv c mine need s)
    {t : Tid} {st : Status κ γ} {d : σ} {lock : Option Tid}
    (hmine : ∀ w k, st = .waiting c w k → mine k) (hasleep : st.waitsOn c .asleep = false)
    (hcount : need d = 0 ∨
      (s.threads t).waitsOn c .signalled = false ∧ need d ≤ need s.data) :
    WakeupInv c mine need (⟨d, lock, s.setThread t st⟩ : State Tid σ κ γ) where
  mine_of_waiting := mine_update hinv.mine_of_waiting hmine
  count hsome := by
    have hle := hinv.count (someAsleep_of_update hasleep hsome)
    have hupdate := signalledCount_update c s.threads t st
    show need d ≤ signalledCount c (Function.update s.threads t st)
    -- The thread was not counted, so the count stays and the free units do not grow.
    rcases hcount with hz | ⟨hnot, hd⟩
    · omega
    · rw [hnot] at hupdate
      simp only [Bool.false_eq_true, if_false] at hupdate
      omega

/-- The counting invariant is kept by every step. -/
theorem WakeupRule.step (hrule : WakeupRule M c mine need) {s s' : State Tid σ κ γ}
    {a : Action Tid χ ι} {out : List (Tid × ο)} (hinv : WakeupInv c mine need s)
    (h : M.machine.step s a = .ok (s', out)) : WakeupInv c mine need s' := by
  -- A thread that may not wait on `c` is not among the signalled ones.
  have hother : ∀ {t k d}, s.runnable t = some k → need d = 0 ∨ ¬ mine k ∧ need d ≤ need s.data →
      need d = 0 ∨ (s.threads t).waitsOn c .signalled = false ∧ need d ≤ need s.data := by
    intro t k d hrun hd
    refine hd.imp id ?_
    intro h
    obtain ⟨hnot, hle⟩ := h
    refine ⟨?_, hle⟩
    by_contra hsig
    exact hnot (mine_of_signalled hinv hrun (by simpa using hsig))
  cases step_iff.mp h with
  | call hout hcall =>
    exact hinv.setThread (fun _ _ h => by cases h) rfl
      (.inr ⟨by rw [hout]; rfl, hrule.call _ _ _ _ hcall⟩)
  | refuse hout hcall =>
    exact ⟨hinv.mine_of_waiting, fun hs => (hrule.call _ _ _ _ hcall).trans (hinv.count hs)⟩
  | again hrun hseg =>
    exact hinv.setThread (fun _ _ h => by cases h) rfl (hother hrun (hrule.again _ _ _ _ _ hseg))
  | @wait t x woken k k' d c' hrun hseg =>
    -- Going to sleep on `c` is allowed only with no unit free.
    by_cases hc : c' = c
    · subst hc
      obtain ⟨hzero, hk'⟩ := hrule.wait _ _ _ _ _ hseg
      refine ⟨mine_update hinv.mine_of_waiting ?_, fun _ => ?_⟩
      · intro w k'' h
        cases h
        exact hk'
      · show need d ≤ _
        omega
    · refine hinv.setThread ?_ (by simp [Status.waitsOn, hc])
        (hother hrun (hrule.wait_other _ _ _ _ _ _ hc hseg))
      intro w k'' h
      cases h
      exact absurd rfl hc
  | @leave t x woken k d c' o threads hrun hseg hsig =>
    obtain ⟨hback, hcount⟩ := signal_count (c := c) hsig
    refine ⟨fun u w k' hu => ?_, fun hs => ?_⟩
    · have hset : ∀ v w k, s.setThread t .outside v = .waiting c w k → mine k :=
        mine_update hinv.mine_of_waiting fun _ _ h => by cases h
      exact mine_signal hsig hset u w k' hu
    · have hcnt := hcount hs
      have hsome := someAsleep_of_update (by rfl) (hback hs)
      have hle := hinv.count hsome
      have hupdate := signalledCount_update c s.threads t .outside
      show need d ≤ signalledCount c threads
      have hset : signalledCount c (s.setThread t .outside) =
          signalledCount c (Function.update s.threads t .outside) := rfl
      have hout : (Status.outside : Status κ γ).waitsOn c .signalled = false := rfl
      rw [hout] at hupdate
      -- A signalled thread that leaves is counted no more, but it has used up its unit.
      by_cases hwas : (s.threads t).waitsOn c .signalled = true
      · have hd := hrule.leave_mine _ _ _ _ _ _ (mine_of_signalled hinv hrun hwas) hseg
        simp only [hwas, Bool.false_eq_true, if_true, if_false] at hupdate
        omega
      · have hd := hrule.leave _ _ _ _ _ _ hseg
        simp only [hwas, Bool.false_eq_true, if_false] at hupdate
        omega
  | escape hrun hseg =>
    exact hinv.setThread (fun _ _ h => by cases h) rfl (hother hrun (hrule.escape _ _ _ _ _ hseg))
  | @spurious t c' k hwait =>
    refine hinv.setThread ?_ (by simp [Status.waitsOn])
      (.inr ⟨by simp [hwait, Status.waitsOn], le_rfl⟩)
    intro w k' h
    cases h
    exact hinv.mine_of_waiting t _ _ hwait

/-- The counting invariant holds after every run. -/
theorem WakeupRule.exec_inv (hrule : WakeupRule M c mine need) {data : σ}
    {acts : List (Action Tid χ ι)} {s : State Tid σ κ γ} {out : List (Tid × ο)}
    (h : M.machine.exec (initial data) acts = .ok (s, out)) : WakeupInv c mine need s := by
  refine Machine.exec_invariant_state (I := WakeupInv c mine need) ⟨?_, ?_⟩
    (fun _ _ _ _ hi hs => hrule.step hi hs) h
  · exact fun _ _ _ h => by cases h
  · intro h
    obtain ⟨t, ht⟩ := h
    cases ht

/-- No wake-up on `c` is lost: along every run, if a unit is free and a thread sleeps
    on `c`, some thread has been signalled on `c` and has not run yet. -/
theorem WakeupRule.signalled_of_asleep (hrule : WakeupRule M c mine need) {data : σ}
    {acts : List (Action Tid χ ι)} {s : State Tid σ κ γ} {out : List (Tid × ο)}
    (h : M.machine.exec (initial data) acts = .ok (s, out)) (hneed : 0 < need s.data)
    (hasleep : SomeAsleep c s.threads) : ∃ t k, s.threads t = .waiting c .signalled k := by
  have hpos : 0 < signalledCount c s.threads :=
    lt_of_lt_of_le hneed ((hrule.exec_inv h).count hasleep)
  obtain ⟨t, ht⟩ := Finset.card_pos.mp hpos
  exact ⟨t, Status.waitsOn_eq_true.mp (Finset.mem_filter.mp ht).2⟩

/-- If threads wait on `c` only when the shared data satisfies `P`, and `P` is never
    lost, then `P` holds whenever a thread is found waiting on `c`. -/
theorem exec_waiting {P : σ → Prop} (hcall : ∀ i s s' r, P s → M.call i s = .ok (s', r) → P s')
    (hseg : ∀ x k s g, P s → M.segment x k s = .ok g → P g.data)
    (hwait : ∀ x k s s' k', M.segment x k s = .ok (.wait s' c k') → P s') {data : σ}
    {acts : List (Action Tid χ ι)} {s : State Tid σ κ γ} {out : List (Tid × ο)}
    (h : M.machine.exec (initial data) acts = .ok (s, out)) {t : Tid} {w : Wake} {k : κ}
    (ht : s.threads t = .waiting c w k) : P s.data := by
  refine Machine.exec_invariant_state
    (I := fun s : State Tid σ κ γ => ∀ t w k, s.threads t = .waiting c w k → P s.data)
    ?_ ?_ h t w k ht
  · exact fun _ _ _ h => by cases h
  intro s a s' o hI hstep
  cases step_iff.mp hstep with
  | @call t i d k hout hc =>
    exact mine_update (q := fun _ => P d) (fun u w k hu => hcall _ _ _ _ (hI u w k hu) hc)
      (fun _ _ h => by cases h)
  | @refuse t i d o hout hc => exact fun u w k hu => hcall _ _ _ _ (hI u w k hu) hc
  | @again t x woken k k' d hrun hg =>
    exact mine_update (q := fun _ => P d) (fun u w k hu => hseg _ _ _ _ (hI u w k hu) hg)
      (fun _ _ h => by cases h)
  | @wait t x woken k k' d c' hrun hg =>
    refine mine_update (q := fun _ => P d) (fun u w k hu => hseg _ _ _ _ (hI u w k hu) hg) ?_
    intro w k'' h
    obtain ⟨⟩ := h
    exact hwait _ _ _ _ _ hg
  | @leave t x woken k d c' o threads hrun hg hsig =>
    exact mine_signal (q := fun _ => P d) hsig
      (mine_update (q := fun _ => P d) (fun u w k hu => hseg _ _ _ _ (hI u w k hu) hg)
        (fun _ _ h => by cases h))
  | @escape t x woken k d o hrun hg =>
    exact mine_update (q := fun _ => P d) (fun u w k hu => hseg _ _ _ _ (hI u w k hu) hg)
      (fun _ _ h => by cases h)
  | @spurious t c' k hw =>
    refine mine_update (q := fun _ => P s.data) hI ?_
    intro w k' h
    obtain ⟨⟩ := h
    exact hI t _ _ hw

end Monitor

end OsWet
