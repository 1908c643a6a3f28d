import OsWet.ForStd.Machine
import Mathlib.Data.Fintype.Basic
import Mathlib.Algebra.BigOperators.Group.Finset.Basic

/-!
# Monitors: one mutex and its condition variables

A monitor is shared data protected by one mutex. A thread enters with a *call*
(work done before the mutex is taken), and then runs in *segments*: from the
moment it owns the mutex to the next point where it waits on a condition variable,
leaves, or is about to go round a loop while still holding the mutex. Signalling
moves one sleeping thread to the threads that want the mutex back; a sleeping
thread can also wake up spuriously. A thread that wants the mutex competes with
every newcomer (signal-and-continue).

- `Monitor.machine`: the machine whose actions are calls, segments and spurious
  wake-ups, in any order
- `Monitor.step_iff`: what one step can do

Refinement between monitors is in `MonitorRefinement`, the rule against lost
wake-ups in `MonitorWakeup`.
-/

namespace OsWet

/-- Why a thread blocked in a wait is, or is not, ready to take the mutex again. -/
inductive Wake where
  | asleep
  | signalled
  | spurious
  deriving DecidableEq, Repr

/-- Where a thread stands. The continuation `k` is what it does once it owns the
    mutex. -/
inductive Status (κ γ : Type*) where
  | outside
  | ready (k : κ)
  | holding (k : κ)
  | waiting (c : γ) (w : Wake) (k : κ)
  deriving DecidableEq, Repr

/-- How a segment ends: still holding the mutex, waiting on `c`, leaving after
    signalling `c`, or leaving without releasing the mutex. -/
inductive Segment (σ κ γ ο : Type*) where
  | again (s : σ) (k : κ)
  | wait (s : σ) (c : γ) (k : κ)
  | leave (s : σ) (c : γ) (o : ο)
  | escape (s : σ) (o : ο)

/-- The shared data at the end of a segment. -/
def Segment.data {σ κ γ ο : Type*} : Segment σ κ γ ο → σ
  | .again s _ | .wait s _ _ | .leave s _ _ | .escape s _ => s

/-- The continuation at the end of a segment. -/
def Segment.kont {σ κ γ ο : Type*} : Segment σ κ γ ο → Option κ
  | .again _ k | .wait _ _ k => some k
  | .leave _ _ _ | .escape _ _ => none

/-- The code of a monitor. A call either returns at once or goes for the mutex; a
    segment also depends on what the environment supplies to it (`χ`). -/
structure Monitor (σ κ γ χ ι ο ε : Type*) where
  call : ι → σ → Outcome ε (σ × (κ ⊕ ο))
  segment : χ → κ → σ → Outcome ε (Segment σ κ γ ο)

namespace Status

variable {κ κ' γ : Type*}

/-- The continuation of a thread that is inside the monitor. -/
def kont : Status κ γ → Option κ
  | .outside => none
  | .ready k | .holding k | .waiting _ _ k => some k

/-- Replace the continuation. -/
def map (f : κ → κ') : Status κ γ → Status κ' γ
  | .outside => .outside
  | .ready k => .ready (f k)
  | .holding k => .holding (f k)
  | .waiting c w k => .waiting c w (f k)

variable [DecidableEq γ]

/-- The thread waits on `c`, woken up or not as `w` says. -/
def waitsOn (c : γ) (w : Wake) : Status κ γ → Bool
  | .waiting c' w' _ => c' = c && w' = w
  | _ => false

/-- Change why a waiting thread is or is not ready. -/
def wake (w : Wake) : Status κ γ → Status κ γ
  | .waiting c _ k => .waiting c w k
  | st => st

omit [DecidableEq γ] in
/-- Where a thread goes on, after its continuation was mapped. -/
@[simp] theorem kont_map (f : κ → κ') (st : Status κ γ) : (st.map f).kont = st.kont.map f := by
  cases st <;> rfl

/-- Whom a thread waits for does not depend on its continuation. -/
@[simp] theorem waitsOn_map (f : κ → κ') (c : γ) (w : Wake) (st : Status κ γ) :
    (st.map f).waitsOn c w = st.waitsOn c w := by
  cases st <;> rfl

omit [DecidableEq γ] in
/-- A mapped thread that waits comes from a thread that waits in the same way. -/
theorem map_eq_waiting {f : κ → κ'} {st : Status κ γ} {c : γ} {w : Wake} {k' : κ'} :
    st.map f = .waiting c w k' ↔ ∃ k, st = .waiting c w k ∧ f k = k' := by
  cases st with
  | waiting c₁ w₁ k₁ =>
    simp only [map, waiting.injEq]
    constructor
    · intro h
      obtain ⟨rfl, rfl, rfl⟩ := h
      exact ⟨k₁, ⟨rfl, rfl, rfl⟩, rfl⟩
    · intro h
      obtain ⟨k, ⟨rfl, rfl, rfl⟩, rfl⟩ := h
      exact ⟨rfl, rfl, rfl⟩
  | _ => simp [map]

omit [DecidableEq γ] in
/-- Waking a thread and mapping its continuation can be done in either order. -/
@[simp] theorem map_wake (f : κ → κ') (w : Wake) (st : Status κ γ) :
    (st.wake w).map f = (st.map f).wake w := by
  cases st <;> rfl

omit [DecidableEq γ] in
/-- Waking a thread does not change where it goes on. -/
@[simp] theorem kont_wake (w : Wake) (st : Status κ γ) : (st.wake w).kont = st.kont := by
  cases st <;> rfl

/-- A thread that waits for this has a place to go on from. -/
theorem waitsOn_eq_true {c : γ} {w : Wake} {st : Status κ γ} :
    st.waitsOn c w = true ↔ ∃ k, st = .waiting c w k := by
  cases st <;> simp [waitsOn]

end Status

namespace Monitor

variable {Tid σ κ γ χ ι ο ε : Type*}

/-- The shared data, the owner of the mutex, and where every thread stands. -/
structure State (Tid σ κ γ : Type*) where
  data : σ
  lock : Option Tid
  threads : Tid → Status κ γ

/-- What can happen next: a thread calls into the monitor, a thread that can own the
    mutex runs a segment (and its signal, if any, wakes `woken`), or a sleeping
    thread wakes up for no reason. -/
inductive Action (Tid χ ι : Type*) where
  | call (t : Tid) (i : ι)
  | run (t : Tid) (x : χ) (woken : Option Tid)
  | spurious (t : Tid)
  deriving DecidableEq, Repr

/-- The state before any thread has entered. -/
def initial (data : σ) : State Tid σ κ γ := ⟨data, none, fun _ => .outside⟩

variable [DecidableEq Tid]

/-- The continuation of a thread that can own the mutex now. -/
def State.runnable (s : State Tid σ κ γ) (t : Tid) : Option κ :=
  match s.threads t with
  | .ready k | .waiting _ .signalled k | .waiting _ .spurious k =>
    if s.lock = none then some k else none
  | .holding k => if s.lock = some t then some k else none
  | .outside | .waiting _ .asleep _ => none

/-- Move one thread to a new status. -/
def State.setThread (s : State Tid σ κ γ) (t : Tid) (st : Status κ γ) : Tid → Status κ γ :=
  Function.update s.threads t st

variable [Fintype Tid] [DecidableEq γ]

/-- `pthread_cond_signal`: wake one thread that sleeps on `c`; only when there is none
    does the signal go nowhere. -/
def signal (c : γ) (woken : Option Tid) (threads : Tid → Status κ γ) :
    Option (Tid → Status κ γ) :=
  match woken with
  | some t =>
    if (threads t).waitsOn c .asleep then
      some (Function.update threads t ((threads t).wake .signalled))
    else none
  | none => if ∀ t, (threads t).waitsOn c .asleep = false then some threads else none

/-- The machine of a monitor. Outputs are the values that calls return. -/
def machine (M : Monitor σ κ γ χ ι ο ε) :
    Machine (State Tid σ κ γ) (Action Tid χ ι) (Tid × ο) ε where
  step s
    | .call t i =>
      match s.threads t with
      | .outside =>
        match M.call i s.data with
        | .stuck => .stuck
        | .fault e => .fault e
        | .ok (d, .inl k) => .ok (⟨d, s.lock, s.setThread t (.ready k)⟩, [])
        | .ok (d, .inr o) => .ok (⟨d, s.lock, s.threads⟩, [(t, o)])
      | _ => .stuck
    | .run t x woken =>
      match s.runnable t with
      | none => .stuck
      | some k =>
        match M.segment x k s.data with
        | .stuck => .stuck
        | .fault e => .fault e
        | .ok (.again d k') => .ok (⟨d, some t, s.setThread t (.holding k')⟩, [])
        | .ok (.wait d c k') => .ok (⟨d, none, s.setThread t (.waiting c .asleep k')⟩, [])
        | .ok (.leave d c o) =>
          match signal c woken (s.setThread t .outside) with
          | none => .stuck
          | some threads => .ok (⟨d, none, threads⟩, [(t, o)])
        | .ok (.escape d o) => .ok (⟨d, some t, s.setThread t .outside⟩, [(t, o)])
    | .spurious t =>
      match s.threads t with
      | .waiting c .asleep k => .ok (⟨s.data, s.lock, s.setThread t (.waiting c .spurious k)⟩, [])
      | _ => .stuck

/-! ## What a step can do -/

/-- The possible steps of a monitor, one constructor for each way a step can end. -/
inductive Step (M : Monitor σ κ γ χ ι ο ε) (s : State Tid σ κ γ) :
    Action Tid χ ι → State Tid σ κ γ → List (Tid × ο) → Prop
  | call {t : Tid} {i : ι} {d : σ} {k : κ} (hout : s.threads t = .outside)
      (hcall : M.call i s.data = .ok (d, .inl k)) :
      Step M s (.call t i) ⟨d, s.lock, s.setThread t (.ready k)⟩ []
  | refuse {t : Tid} {i : ι} {d : σ} {o : ο} (hout : s.threads t = .outside)
      (hcall : M.call i s.data = .ok (d, .inr o)) :
      Step M s (.call t i) ⟨d, s.lock, s.threads⟩ [(t, o)]
  | again {t : Tid} {x : χ} {woken : Option Tid} {k k' : κ} {d : σ}
      (hrun : s.runnable t = some k) (hseg : M.segment x k s.data = .ok (.again d k')) :
      Step M s (.run t x woken) ⟨d, some t, s.setThread t (.holding k')⟩ []
  | wait {t : Tid} {x : χ} {woken : Option Tid} {k k' : κ} {d : σ} {c : γ}
      (hrun : s.runnable t = some k) (hseg : M.segment x k s.data = .ok (.wait d c k')) :
      Step M s (.run t x woken) ⟨d, none, s.setThread t (.waiting c .asleep k')⟩ []
  | leave {t : Tid} {x : χ} {woken : Option Tid} {k : κ} {d : σ} {c : γ} {o : ο}
      {threads : Tid → Status κ γ} (hrun : s.runnable t = some k)
      (hseg : M.segment x k s.data = .ok (.leave d c o))
      (hsig : signal c woken (s.setThread t .outside) = some threads) :
      Step M s (.run t x woken) ⟨d, none, threads⟩ [(t, o)]
  | escape {t : Tid} {x : χ} {woken : Option Tid} {k : κ} {d : σ} {o : ο}
      (hrun : s.runnable t = some k) (hseg : M.segment x k s.data = .ok (.escape d o)) :
      Step M s (.run t x woken) ⟨d, some t, s.setThread t .outside⟩ [(t, o)]
  | spurious {t : Tid} {c : γ} {k : κ} (hwait : s.threads t = .waiting c .asleep k) :
      Step M s (.spurious t) ⟨s.data, s.lock, s.setThread t (.waiting c .spurious k)⟩ []

/-- The machine steps exactly as `Step` says. -/
theorem step_iff {M : Monitor σ κ γ χ ι ο ε} {s s' : State Tid σ κ γ} {a : Action Tid χ ι}
    {out : List (Tid × ο)} : M.machine.step s a = .ok (s', out) ↔ Step M s a s' out := by
  constructor
  · -- From the code to the rule: one `split` for each choice the code makes.
    intro h
    cases a with
    | call t i =>
      simp only [machine] at h
      split at h
      · split at h
        · cases h
        · cases h
        · cases h; exact .call ‹_› ‹_›
        · cases h; exact .refuse ‹_› ‹_›
      · cases h
    -- A segment ends in one of four ways, or in a fault.
    | run t x woken =>
      simp only [machine] at h
      split at h
      · cases h
      · split at h
        · cases h
        · cases h
        · cases h; exact .again ‹_› ‹_›
        · cases h; exact .wait ‹_› ‹_›
        · split at h
          · cases h
          · cases h; exact .leave ‹_› ‹_› ‹_›
        · cases h; exact .escape ‹_› ‹_›
    | spurious t =>
      simp only [machine] at h
      split at h
      · cases h; exact .spurious ‹_›
      · cases h
  · -- From the rule to the code.
    intro h
    cases h with
    | call hout hcall => simp only [machine, hout, hcall]
    | refuse hout hcall => simp only [machine, hout, hcall]
    | again hrun hseg => simp only [machine, hrun, hseg]
    | wait hrun hseg => simp only [machine, hrun, hseg]
    | leave hrun hseg hsig => simp only [machine, hrun, hseg, hsig]
    | escape hrun hseg => simp only [machine, hrun, hseg]
    | spurious hwait => simp only [machine, hwait]

omit [Fintype Tid] [DecidableEq γ] in
/-- A thread that can run is inside the monitor with that continuation. -/
theorem State.kont_of_runnable {s : State Tid σ κ γ} {t : Tid} {k : κ}
    (h : s.runnable t = some k) : (s.threads t).kont = some k := by
  unfold State.runnable at h
  -- Four statuses can own the mutex, and each holds its continuation.
  split at h <;> grind [Status.kont]

/-- A signal keeps every continuation and only wakes sleeping threads. -/
theorem signal_kont {c : γ} {woken : Option Tid} {threads threads' : Tid → Status κ γ}
    (h : signal c woken threads = some threads') (t : Tid) :
    (threads' t).kont = (threads t).kont := by
  cases woken with
  | none =>
    simp only [signal, Option.ite_none_right_eq_some] at h
    obtain ⟨-, h⟩ := h
    cases h
    rfl
  | some u =>
    simp only [signal, Option.ite_none_right_eq_some] at h
    obtain ⟨-, h⟩ := h
    cases h
    -- Only the woken thread has a new status, with the same continuation.
    by_cases htu : t = u
    · subst htu; simp
    · rw [Function.update_of_ne htu]

/-- Only calls and segments change the shared data. -/
theorem step_data {M : Monitor σ κ γ χ ι ο ε} {s s' : State Tid σ κ γ} {a : Action Tid χ ι}
    {out : List (Tid × ο)} (h : M.machine.step s a = .ok (s', out)) :
    (∃ i r, M.call i s.data = .ok (s'.data, r)) ∨
      (∃ t x woken k g, a = .run t x woken ∧ s.runnable t = some k ∧
        M.segment x k s.data = .ok g ∧ g.data = s'.data) ∨ s'.data = s.data := by
  cases step_iff.mp h with
  | call _ hc | refuse _ hc => exact .inl ⟨_, _, hc⟩
  | again hrun hg | wait hrun hg | leave hrun hg _ | escape hrun hg =>
    exact .inr (.inl ⟨_, _, _, _, _, rfl, hrun, hg, rfl⟩)
  | spurious _ => exact .inr (.inr rfl)

/-- What calls and segments keep of the shared data holds along every run. -/
theorem exec_data_invariant {M : Monitor σ κ γ χ ι ο ε} {P : σ → Prop} {data : σ}
    (hcall : ∀ i s s' r, P s → M.call i s = .ok (s', r) → P s')
    (hseg : ∀ x k s g, P s → M.segment x k s = .ok g → P g.data) (hinit : P data)
    {acts : List (Action Tid χ ι)} {s : State Tid σ κ γ} {out : List (Tid × ο)}
    (h : M.machine.exec (initial data) acts = .ok (s, out)) : P s.data := by
  refine Machine.exec_invariant_state (I := fun s : State Tid σ κ γ => P s.data) hinit ?_ h
  intro s a s' o hs hstep
  rcases step_data hstep with ⟨i, r, hc⟩ | ⟨t, x, woken, k, g, -, -, hg, hd⟩ | hd
  · exact hcall _ _ _ _ hs hc
  · exact hd ▸ hseg _ _ _ _ hs hg
  · exact hd ▸ hs

omit [Fintype Tid] [DecidableEq γ] in
/-- The continuation of a thread when one thread moves to a new status. -/
private theorem kont_update {threads : Tid → Status κ γ} {t u : Tid} {st : Status κ γ} {k : κ}
    (h : (Function.update threads t st u).kont = some k) :
    (threads u).kont = some k ∨ u = t ∧ st.kont = some k := by
  by_cases hut : u = t
  · subst hut
    rw [Function.update_self] at h
    exact .inr ⟨rfl, h⟩
  · rw [Function.update_of_ne hut] at h
    exact .inl h

/-- A thread inside the monitor has the continuation it had before the step, or the one that
    the call or the segment of this step left it with. -/
theorem step_kont {M : Monitor σ κ γ χ ι ο ε} {s s' : State Tid σ κ γ} {a : Action Tid χ ι}
    {out : List (Tid × ο)} (h : M.machine.step s a = .ok (s', out)) {u : Tid} {k : κ}
    (hu : (s'.threads u).kont = some k) : (s.threads u).kont = some k ∨
      (∃ i, a = .call u i ∧ M.call i s.data = .ok (s'.data, .inl k)) ∨
      ∃ x woken k₀ g, a = .run u x woken ∧ s.runnable u = some k₀ ∧
        M.segment x k₀ s.data = .ok g ∧ g.data = s'.data ∧ g.kont = some k := by
  cases step_iff.mp h with
  -- Only the thread of the step gets a new continuation.
  | call hout hcall =>
    rcases kont_update hu with hold | ⟨rfl, hnew⟩
    · exact .inl hold
    · cases hnew
      exact .inr (.inl ⟨_, rfl, hcall⟩)
  | refuse hout hcall => exact .inl hu
  | again hrun hseg | wait hrun hseg =>
    rcases kont_update hu with hold | ⟨rfl, hnew⟩
    · exact .inl hold
    · exact .inr (.inr ⟨_, _, _, _, rfl, hrun, hseg, rfl, hnew⟩)
  -- The signal changes no continuation, and the thread that leaves has none.
  | leave hrun hseg hsig =>
    rw [signal_kont hsig] at hu
    rcases kont_update hu with hold | ⟨rfl, hnew⟩
    · exact .inl hold
    · cases hnew
  | escape hrun hseg =>
    rcases kont_update hu with hold | ⟨rfl, hnew⟩
    · exact .inl hold
    · cases hnew
  | spurious hwait =>
    rcases kont_update hu with hold | ⟨rfl, hnew⟩
    · exact .inl hold
    · -- The thread sleeps no longer, with the continuation it slept with.
      rw [hwait]
      exact .inl hnew

/-- What calls and segments establish for their own continuation, and keep for the
    others, holds of every thread inside along every run. -/
theorem exec_kont_invariant {M : Monitor σ κ γ χ ι ο ε} {P : σ → κ → Prop}
    (hcall : ∀ i s s' r, M.call i s = .ok (s', r) →
      (∀ k, P s k → P s' k) ∧ ∀ k, r = .inl k → P s' k)
    (hseg : ∀ x k s g, P s k → M.segment x k s = .ok g →
      (∀ k', P s k' → P g.data k') ∧ ∀ k', g.kont = some k' → P g.data k')
    {data : σ} {acts : List (Action Tid χ ι)} {s : State Tid σ κ γ} {out : List (Tid × ο)}
    (h : M.machine.exec (initial data) acts = .ok (s, out)) {t : Tid} {k : κ}
    (ht : (s.threads t).kont = some k) : P s.data k := by
  refine Machine.exec_invariant_state
    (I := fun s : State Tid σ κ γ => ∀ t k, (s.threads t).kont = some k → P s.data k)
    ?_ ?_ h t k ht
  · exact fun _ _ h => by cases h
  intro s a s' o hI hstep u k hu
  rcases step_kont hstep hu with hold | ⟨i, -, hc⟩ | ⟨x, woken, k₀, g, -, hrun, hg, hd, hk⟩
  · -- The thread has its old continuation; the data may have moved on.
    have hk := hI u k hold
    rcases step_data hstep with ⟨i, r, hc⟩ | ⟨t, x, woken, k₀, g, -, hrun, hg, hd⟩ | hd
    · exact (hcall _ _ _ _ hc).1 k hk
    · exact hd ▸ (hseg _ _ _ _ (hI t k₀ (State.kont_of_runnable hrun)) hg).1 k hk
    · exact hd ▸ hk
  · -- The continuation is new: it comes from a call or a segment.
    exact (hcall _ _ _ _ hc).2 k rfl
  · exact hd ▸ (hseg _ _ _ _ (hI u k₀ (State.kont_of_runnable hrun)) hg).2 k hk

/-- The mutex is held by nobody outside: its owner is a thread that runs a segment. -/
def State.LockHeld (s : State Tid σ κ γ) : Prop :=
  ∀ t, s.lock = some t → ∃ k, s.threads t = .holding k

/-- Every step keeps the mutex inside, but for a segment that leaves without releasing it. -/
theorem State.LockHeld.step {M : Monitor σ κ γ χ ι ο ε} {s s' : State Tid σ κ γ}
    {a : Action Tid χ ι} {out : List (Tid × ο)} (hs : s.LockHeld)
    (h : M.machine.step s a = .ok (s', out))
    (hescape : ∀ t x woken k d o, a = .run t x woken → s.runnable t = some k →
      M.segment x k s.data ≠ .ok (.escape d o)) : s'.LockHeld := by
  cases step_iff.mp h with
  | @call t i d k hout hcall =>
    intro u hu
    obtain ⟨k', hk'⟩ := hs u hu
    -- The thread that has the lock is not the one outside.
    have hut : u ≠ t := by
      rintro rfl
      rw [hout] at hk'
      cases hk'
    exact ⟨k', by rw [← hk']; exact Function.update_of_ne hut _ _⟩
  | refuse hout hcall => exact hs
  | @again t x woken k k' d hrun hseg =>
    intro u h
    obtain ⟨⟩ := h
    exact ⟨k', Function.update_self _ _ _⟩
  -- After a wait or a return nobody has the lock.
  | wait hrun hseg => exact fun u hu => by cases hu
  | leave hrun hseg hsig => exact fun u hu => by cases hu
  | escape hrun hseg => exact absurd hseg (hescape _ _ _ _ _ _ rfl hrun)
  | @spurious t c k hwait =>
    intro u hu
    obtain ⟨k', hk'⟩ := hs u hu
    -- The thread that has the lock is not the one that sleeps.
    have hut : u ≠ t := by
      rintro rfl
      rw [hwait] at hk'
      cases hk'
    exact ⟨k', by rw [← hk']; exact Function.update_of_ne hut _ _⟩

end Monitor

end OsWet
