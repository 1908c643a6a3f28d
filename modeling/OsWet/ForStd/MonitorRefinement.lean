import OsWet.ForStd.Monitor

/-!
# Refinement between monitors

To show that a monitor does what a simpler one does, it is enough to compare single
calls and single segments. The comparison is a relation `R` between the data of the
two monitors that may also look at the continuations of all threads inside, since a
thread can own memory while it waits; `f` forgets what the simpler monitor does not
keep in a continuation. `Refines.simulates` lifts the comparison to the machines,
with any number of threads and in any order.
-/

namespace OsWet

/-- Two segments end the same way, with related data and continuations. `P` relates
    the data of the two, given the continuation the thread is left with. -/
inductive Segment.Matches {σ τ κ κ' γ ο : Type*} (f : κ → κ') (P : σ → Option κ → τ → Prop) :
    Segment σ κ γ ο → Segment τ κ' γ ο → Prop
  | again {s : σ} {t : τ} {k : κ} (h : P s (some k) t) :
      Matches f P (.again s k) (.again t (f k))
  | wait {s : σ} {t : τ} {k : κ} {c : γ} (h : P s (some k) t) :
      Matches f P (.wait s c k) (.wait t c (f k))
  | leave {s : σ} {t : τ} {c : γ} {o : ο} (h : P s none t) :
      Matches f P (.leave s c o) (.leave t c o)
  | escape {s : σ} {t : τ} {o : ο} (h : P s none t) :
      Matches f P (.escape s o) (.escape t o)

/-- Two calls both go for the mutex or both return the same value at once. -/
inductive CallMatches {σ τ κ κ' ο : Type*} (f : κ → κ') (P : σ → Option κ → τ → Prop) :
    σ × (κ ⊕ ο) → τ × (κ' ⊕ ο) → Prop
  | enter {s : σ} {t : τ} {k : κ} (h : P s (some k) t) :
      CallMatches f P (s, .inl k) (t, .inl (f k))
  | refuse {s : σ} {t : τ} {o : ο} (h : P s none t) : CallMatches f P (s, .inr o) (t, .inr o)

namespace Monitor

variable {Tid σ τ κ κ' γ χ ι ο ε : Type*} [DecidableEq Tid] [Fintype Tid] [DecidableEq γ]

/-- The data stays related when thread `i` is left with a continuation or with none. -/
abbrev After (R : σ → (Tid → Option κ) → τ → Prop) (ks : Tid → Option κ) (i : Tid) :
    σ → Option κ → τ → Prop :=
  fun s k t => R s (Function.update ks i k) t

/-- Calls and segments of `M` are matched by those of `N`. -/
structure Refines (M : Monitor σ κ γ χ ι ο ε) (N : Monitor τ κ' γ χ ι ο ε) (f : κ → κ')
    (R : σ → (Tid → Option κ) → τ → Prop) : Prop where
  call : ∀ s ks t i a, R s ks t → ks i = none →
    Outcome.Rel (CallMatches f (After R ks i)) (M.call a s) (N.call a t)
  segment : ∀ s ks t i x k, R s ks t → ks i = some k →
    Outcome.Rel (Segment.Matches f (After R ks i)) (M.segment x k s) (N.segment x (f k) t)

/-- The states of the two machines that correspond to each other. -/
def Related (f : κ → κ') (R : σ → (Tid → Option κ) → τ → Prop) (s : State Tid σ κ γ)
    (t : State Tid τ κ' γ) : Prop :=
  R s.data (fun i => (s.threads i).kont) t.data ∧ t.lock = s.lock ∧
    t.threads = fun i => (s.threads i).map f

omit [DecidableEq Tid] [Fintype Tid] [DecidableEq γ] in
/-- Related states have the same threads, up to the continuations. -/
theorem Related.threads_eq {f : κ → κ'} {R : σ → (Tid → Option κ) → τ → Prop}
    {s : State Tid σ κ γ} {t : State Tid τ κ' γ} (h : Related f R s t) (i : Tid) :
    t.threads i = (s.threads i).map f :=
  congrFun h.2.2 i

omit [Fintype Tid] [DecidableEq γ] in
/-- Setting a thread changes where that one goes on, and no other. -/
theorem kont_setThread (s : State Tid σ κ γ) (i : Tid) (st : Status κ γ) :
    (fun j => (s.setThread i st j).kont) =
      Function.update (fun j => (s.threads j).kont) i st.kont := by
  funext j
  by_cases hj : j = i
  · subst hj; simp [State.setThread]
  · simp [State.setThread, Function.update_of_ne hj]

omit [Fintype Tid] [DecidableEq γ] in
/-- Relating data across a move of one thread. -/
private theorem rel_setThread {R : σ → (Tid → Option κ) → τ → Prop} {s : State Tid σ κ γ}
    {i : Tid} (st : Status κ γ) {d : σ} {d' : τ}
    (h : R d (Function.update (fun j => (s.threads j).kont) i st.kont) d') :
    R d (fun j => (s.setThread i st j).kont) d' := by
  rw [kont_setThread]
  exact h

omit [Fintype Tid] [DecidableEq γ] in
/-- Moving the same thread in both machines keeps their threads in correspondence. -/
private theorem Related.setThread {f : κ → κ'} {R : σ → (Tid → Option κ) → τ → Prop}
    {s : State Tid σ κ γ} {t : State Tid τ κ' γ} (h : Related f R s t) (i : Tid)
    (st : Status κ γ) : t.setThread i (st.map f) = fun j => (s.setThread i st j).map f := by
  funext j
  simp only [State.setThread, h.2.2]
  by_cases hj : j = i
  · subst hj; simp
  · simp [Function.update_of_ne hj]

omit [Fintype Tid] [DecidableEq γ] in
/-- The same threads can run in both machines. -/
theorem Related.runnable {f : κ → κ'} {R : σ → (Tid → Option κ) → τ → Prop}
    {s : State Tid σ κ γ} {t : State Tid τ κ' γ} (h : Related f R s t) (i : Tid) :
    t.runnable i = (s.runnable i).map f := by
  obtain ⟨-, hlock, hthreads⟩ := h
  have hi : t.threads i = (s.threads i).map f := congrFun hthreads i
  unfold State.runnable
  rw [hlock, hi]
  cases s.threads i with
  | outside => rfl
  | ready k => simp only [Status.map]; split <;> rfl
  | holding k => simp only [Status.map]; split <;> rfl
  | waiting c w k =>
    cases w with
    | asleep => rfl
    | signalled => simp only [Status.map]; split <;> rfl
    | spurious => simp only [Status.map]; split <;> rfl

/-- A signal wakes the same thread in related states. -/
private theorem signal_map (f : κ → κ') (c : γ) (woken : Option Tid)
    (threads : Tid → Status κ γ) :
    signal c woken (fun j => (threads j).map f) =
      (signal c woken threads).map fun th j => (th j).map f := by
  cases woken with
  | none => simp only [signal, Status.waitsOn_map]; split <;> rfl
  | some u =>
    simp only [signal, Status.waitsOn_map]
    split
    · simp only [Option.map_some, Option.some.injEq]
      funext j
      by_cases hj : j = u
      · subst hj; simp
      · simp [Function.update_of_ne hj]
    · rfl

/-- A signal leaves the continuations as they were when the signalling thread left. -/
private theorem kont_signal {s : State Tid σ κ γ} {i : Tid} {c : γ} {woken : Option Tid}
    {threads : Tid → Status κ γ} (h : signal c woken (s.setThread i .outside) = some threads) :
    (fun j => (threads j).kont) = Function.update (fun j => (s.threads j).kont) i none := by
  funext j
  rw [signal_kont h j]
  exact congrFun (kont_setThread s i .outside) j

variable {M : Monitor σ κ γ χ ι ο ε} {N : Monitor τ κ' γ χ ι ο ε} {f : κ → κ'}
  {R : σ → (Tid → Option κ) → τ → Prop}

omit [Fintype Tid] [DecidableEq γ] in
/-- A call of `M` that returns is a call of `N` that returns. -/
private theorem Refines.call_ok (href : Refines M N f R) {s : State Tid σ κ γ}
    {t : State Tid τ κ' γ} (hR : Related f R s t) {i : Tid} (hout : s.threads i = .outside)
    {a : ι} {r : σ × (κ ⊕ ο)} (hcall : M.call a s.data = .ok r) :
    ∃ r', N.call a t.data = .ok r' ∧
      CallMatches f (After R (fun j => (s.threads j).kont) i) r r' := by
  have hrel := href.call _ _ _ i a hR.1 (by simp [hout, Status.kont])
  rw [hcall] at hrel
  generalize N.call a t.data = y at hrel
  cases hrel with
  | ok h => exact ⟨_, rfl, h⟩

omit [Fintype Tid] [DecidableEq γ] in
/-- A segment of `M` that ends is a segment of `N` that ends the same way. -/
private theorem Refines.segment_ok (href : Refines M N f R) {s : State Tid σ κ γ}
    {t : State Tid τ κ' γ} (hR : Related f R s t) {i : Tid} {k : κ}
    (hrun : s.runnable i = some k) {x : χ} {g : Segment σ κ γ ο}
    (hseg : M.segment x k s.data = .ok g) :
    ∃ g', N.segment x (f k) t.data = .ok g' ∧
      g.Matches f (After R (fun j => (s.threads j).kont) i) g' := by
  have hrel := href.segment _ _ _ i x k hR.1 (State.kont_of_runnable hrun)
  rw [hseg] at hrel
  generalize N.segment x (f k) t.data = y at hrel
  cases hrel with
  | ok h => exact ⟨_, rfl, h⟩

omit [Fintype Tid] [DecidableEq γ] in
/-- A call of `N` that returns is a call of `M` that returns. -/
theorem Refines.call_of_ok (href : Refines M N f R) {s : State Tid σ κ γ}
    {t : State Tid τ κ' γ} (hR : Related f R s t) {i : Tid} (hout : s.threads i = .outside)
    {a : ι} {r' : τ × (κ' ⊕ ο)} (hcall : N.call a t.data = .ok r') :
    ∃ r, M.call a s.data = .ok r := by
  have hrel := href.call _ _ _ i a hR.1 (by simp [hout, Status.kont])
  rw [hcall] at hrel
  generalize M.call a s.data = y at hrel ⊢
  cases hrel with
  | ok h => exact ⟨_, rfl⟩

omit [Fintype Tid] [DecidableEq γ] in
/-- A segment of `N` that ends is a segment of `M` that ends. -/
theorem Refines.segment_of_ok (href : Refines M N f R) {s : State Tid σ κ γ}
    {t : State Tid τ κ' γ} (hR : Related f R s t) {i : Tid} {k : κ}
    (hrun : s.runnable i = some k) {x : χ} {g' : Segment τ κ' γ ο}
    (hseg : N.segment x (f k) t.data = .ok g') : ∃ g, M.segment x k s.data = .ok g := by
  have hrel := href.segment _ _ _ i x k hR.1 (State.kont_of_runnable hrun)
  rw [hseg] at hrel
  generalize M.segment x k s.data = y at hrel ⊢
  cases hrel with
  | ok h => exact ⟨_, rfl⟩

/-- Matching calls and segments make a simulation of the whole machines. -/
theorem Refines.simulates (href : Refines M N f R) :
    Machine.Simulates M.machine N.machine (Related f R) := by
  intro s t a s' out hR hstep
  have hlock := hR.2.1
  have hthreads := hR.2.2
  -- One case for each rule of the step: `M` gives the answer, and `N` a related one.
  cases step_iff.mp hstep with
  | @call i _ d k hout hcall =>
    obtain ⟨_, hcall', hm⟩ := href.call_ok hR hout hcall
    cases hm with
    | @enter _ d' _ hR' =>
      refine ⟨⟨d', t.lock, t.setThread i (.ready (f k))⟩,
        step_iff.mpr (.call (by simp [hthreads, hout, Status.map]) hcall'), ?_, hlock, ?_⟩
      · exact rel_setThread (.ready k) hR'
      · exact hR.setThread i (.ready k)
  | @refuse i _ d o hout hcall =>
    obtain ⟨_, hcall', hm⟩ := href.call_ok hR hout hcall
    cases hm with
    | @refuse _ d' _ hR' =>
      -- Outside, no continuation changes.
      have hsame : Function.update (fun j => (s.threads j).kont) i none =
          fun j => (s.threads j).kont := by
        rw [Function.update_eq_self_iff, hout]
        rfl
      refine ⟨⟨d', t.lock, t.threads⟩,
        step_iff.mpr (.refuse (by simp [hthreads, hout, Status.map]) hcall'), ?_, hlock, hthreads⟩
      simpa only [After, hsame] using hR'
  -- The thread goes on with the lock.
  | @again i x woken k k' d hrun hseg =>
    obtain ⟨_, hseg', hm⟩ := href.segment_ok hR hrun hseg
    cases hm with
    | @again _ d' _ hP =>
      refine ⟨⟨d', some i, t.setThread i (.holding (f k'))⟩,
        step_iff.mpr (.again (by rw [hR.runnable, hrun]; rfl) hseg'), ?_, rfl, ?_⟩
      · exact rel_setThread (.holding k') hP
      · exact hR.setThread i (.holding k')
  -- The thread gives up the lock and sleeps.
  | @wait i x woken k k' d c hrun hseg =>
    obtain ⟨_, hseg', hm⟩ := href.segment_ok hR hrun hseg
    cases hm with
    | @wait _ d' _ _ hP =>
      refine ⟨⟨d', none, t.setThread i (.waiting c .asleep (f k'))⟩,
        step_iff.mpr (.wait (by rw [hR.runnable, hrun]; rfl) hseg'), ?_, rfl, ?_⟩
      · exact rel_setThread (.waiting c .asleep k') hP
      · exact hR.setThread i (.waiting c .asleep k')
  -- The thread leaves; which sleeper is woken does not depend on the map.
  | @leave i x woken k d c o threads hrun hseg hsig =>
    obtain ⟨_, hseg', hm⟩ := href.segment_ok hR hrun hseg
    cases hm with
    | @leave _ d' _ _ hP =>
      refine ⟨⟨d', none, fun j => (threads j).map f⟩,
        step_iff.mpr (.leave (by rw [hR.runnable, hrun]; rfl) hseg' ?_), ?_, rfl, rfl⟩
      · have hset : t.setThread i .outside = fun j => (s.setThread i .outside j).map f :=
          hR.setThread i .outside
        rw [hset, signal_map, hsig]
        rfl
      · simpa only [kont_signal hsig] using hP
  -- The thread leaves with the lock.
  | @escape i x woken k d o hrun hseg =>
    obtain ⟨_, hseg', hm⟩ := href.segment_ok hR hrun hseg
    cases hm with
    | @escape _ d' _ hP =>
      refine ⟨⟨d', some i, t.setThread i .outside⟩,
        step_iff.mpr (.escape (by rw [hR.runnable, hrun]; rfl) hseg'), ?_, rfl, ?_⟩
      · exact rel_setThread .outside hP
      · exact hR.setThread i .outside
  -- A wake-up changes no continuation and no data.
  | @spurious i c k hwait =>
    refine ⟨⟨t.data, t.lock, t.setThread i (.waiting c .spurious (f k))⟩,
      step_iff.mpr (.spurious (by simp [hthreads, hwait, Status.map])), ?_, hlock, ?_⟩
    · have hsame : (fun j => (s.setThread i (.waiting c .spurious k) j).kont) =
          fun j => (s.threads j).kont := by
        rw [kont_setThread, Function.update_eq_self_iff, hwait]
        rfl
      simpa only [hsame] using hR.1
    · exact hR.setThread i (.waiting c .spurious k)

/-- A step of `M` goes wrong only where a call or a segment of `N` does. -/
theorem Refines.fault (href : Refines M N f R) {s : State Tid σ κ γ} {t : State Tid τ κ' γ}
    (hR : Related f R s t) {a : Action Tid χ ι} {e : ε} (h : M.machine.step s a = .fault e) :
    (∃ c, N.call c t.data = .fault e) ∨
      ∃ i x k, t.runnable i = some k ∧ N.segment x k t.data = .fault e := by
  -- A fault of `M` comes from a call or a segment, and `N` has one there.
  cases a with
  | call i c =>
    simp only [machine] at h
    split at h
    · rename_i hout
      have hrel := href.call _ _ _ i c hR.1 (by simp [hout, Status.kont])
      split at h
      · cases h
      · rename_i e' hcall
        cases h
        rw [hcall] at hrel
        generalize hy : N.call c t.data = y at hrel
        cases hrel
        exact .inl ⟨c, hy⟩
      · cases h
      · cases h
    · cases h
  | run i x woken =>
    simp only [machine] at h
    split at h
    · cases h
    · rename_i k hrun
      have hrel := href.segment _ _ _ i x k hR.1 (State.kont_of_runnable hrun)
      split at h
      · cases h
      · rename_i e' hseg
        cases h
        rw [hseg] at hrel
        generalize hy : N.segment x (f k) t.data = y at hrel
        cases hrel
        exact .inr ⟨i, x, f k, by rw [hR.runnable, hrun]; rfl, hy⟩
      · cases h
      · cases h
      · split at h <;> cases h
      · cases h
  -- A wake-up is never a fault.
  | spurious i =>
    simp only [machine] at h
    split at h <;> cases h

end Monitor

end OsWet
