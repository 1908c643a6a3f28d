import Mathlib.Data.List.Induction

/-!
# Executable machines with faults

A machine is a deterministic step function on states and actions: every choice
the environment has (who runs, what a system call returns) is part of the
action. A step can be *stuck* (the action is not possible in this state), can
*fault* (the program goes wrong) or can move on and emit outputs.

The rules proved here are the ones every model of this development uses:

- `exec_invariant`: an invariant of states and emitted outputs holds after every run
- `everyState_of_everyStep`: a property holds along every run whose steps meet a condition
- `everyStep_of_everyStep`: so does a property of steps
- `everyState_iff_everyStep`, `everyStep_iff`: a property of states or steps holds along a
  run exactly when every step of the run meets a condition
- `Simulates.exec`: a step-by-step simulation lifts to runs
- `SimulatesByRuns.exec`: so does one in which a run matches each step
-/

namespace OsWet

universe u v w

/-- Result of a computation that can be stuck for want of a suitable input, can
    go wrong, or can return a value. -/
inductive Outcome (ε : Type u) (α : Type v) where
  | stuck
  | fault (e : ε)
  | ok (a : α)
  deriving DecidableEq, Repr

namespace Outcome

variable {ε : Type u} {α β : Type v}

/-- Sequencing: the first stuck or faulting computation decides the result. -/
protected def bind : Outcome ε α → (α → Outcome ε β) → Outcome ε β
  | .stuck, _ => .stuck
  | .fault e, _ => .fault e
  | .ok a, f => f a

instance : Monad (Outcome ε) where
  pure := .ok
  bind := Outcome.bind

@[simp] theorem pure_eq_ok (a : α) : (pure a : Outcome ε α) = .ok a := rfl

@[simp] theorem ok_bind (a : α) (f : α → Outcome ε β) : (Outcome.ok a >>= f) = f a := rfl

@[simp] theorem fault_bind (e : ε) (f : α → Outcome ε β) :
    ((Outcome.fault e : Outcome ε α) >>= f) = .fault e := rfl

@[simp] theorem stuck_bind (f : α → Outcome ε β) :
    ((Outcome.stuck : Outcome ε α) >>= f) = .stuck := rfl

instance : LawfulMonad (Outcome ε) :=
  LawfulMonad.mk' _ (by intro α x; cases x <;> rfl) (by intros; rfl)
    (by intro α β γ x f g; cases x <;> rfl)

/-- A sequence that returns is a first part that returns and a rest that returns. -/
theorem bind_eq_ok {x : Outcome ε α} {f : α → Outcome ε β} {b : β} :
    (x >>= f) = .ok b ↔ ∃ a, x = .ok a ∧ f a = .ok b := by
  cases x with
  | stuck => simp
  | fault e => simp
  | ok a => simp

/-- A value that is returned together with another one. -/
theorem pair_eq_ok {x : Outcome ε α} {a : α} {b b' : β}
    (h : (do return (← x, b) : Outcome ε (α × β)) = .ok (a, b')) : x = .ok a ∧ b' = b := by
  obtain ⟨a', hx, h⟩ := bind_eq_ok.mp h
  cases h
  exact ⟨hx, rfl⟩

/-- A sequence of computations that are not stuck is not stuck. -/
theorem bind_ne_stuck {x : Outcome ε α} {f : α → Outcome ε β} (hx : x ≠ .stuck)
    (hf : ∀ a, x = .ok a → f a ≠ .stuck) : (x >>= f) ≠ .stuck := by
  cases x with
  | stuck => exact absurd rfl hx
  | fault e => simp
  | ok a => exact hf a rfl

/-- Two computations end the same way, with related values. -/
inductive Rel {γ : Type w} (P : α → γ → Prop) : Outcome ε α → Outcome ε γ → Prop
  | stuck : Rel P .stuck .stuck
  | fault (e : ε) : Rel P (.fault e) (.fault e)
  | ok {a : α} {c : γ} (h : P a c) : Rel P (.ok a) (.ok c)

end Outcome

/-- A machine with states `σ`, actions `ℓ`, outputs `ο` and faults `ε`. -/
structure Machine (σ ℓ ο ε : Type*) where
  step : σ → ℓ → Outcome ε (σ × List ο)

namespace Machine

variable {σ τ ℓ ο ε ε' : Type*} (M : Machine σ ℓ ο ε)

/-- Run a list of actions, collecting the outputs in order. -/
def exec : σ → List ℓ → Outcome ε (σ × List ο)
  | s, [] => .ok (s, [])
  | s, l :: ls =>
    match M.step s l with
    | .stuck => .stuck
    | .fault e => .fault e
    | .ok (s', o) =>
      match exec s' ls with
      | .stuck => .stuck
      | .fault e => .fault e
      | .ok (s'', os) => .ok (s'', o ++ os)

/-- The empty run stays where it is and puts out nothing. -/
@[simp] theorem exec_nil (s : σ) : M.exec s [] = .ok (s, []) := rfl

/-- A run of a nonempty list of actions is a first step and a run from there. -/
theorem exec_cons_eq_ok {s s'' : σ} {l : ℓ} {ls : List ℓ} {out : List ο} :
    M.exec s (l :: ls) = .ok (s'', out) ↔
      ∃ s' o os, M.step s l = .ok (s', o) ∧ M.exec s' ls = .ok (s'', os) ∧ out = o ++ os := by
  simp only [exec]
  -- The first action decides: stuck, faulting, or a run of the rest.
  cases hstep : M.step s l with
  | stuck => simp
  | fault e => simp
  | ok r =>
    obtain ⟨s', o⟩ := r
    cases hrest : M.exec s' ls with
    | stuck => simp [hrest]
    | fault e => simp [hrest]
    | ok r' => grind

/-- A run that ends with the action `l` is a shorter run and a last step. -/
theorem exec_snoc_eq_ok {s s'' : σ} {l : ℓ} {ls : List ℓ} {out : List ο} :
    M.exec s (ls ++ [l]) = .ok (s'', out) ↔
      ∃ s' os o, M.exec s ls = .ok (s', os) ∧ M.step s' l = .ok (s'', o) ∧ out = os ++ o := by
  induction ls generalizing s out with
  | nil =>
    simp only [List.nil_append, exec_cons_eq_ok, exec_nil]
    grind
  | cons l' ls ih =>
    simp only [List.cons_append, exec_cons_eq_ok, ih]
    constructor
    · -- Both decompositions have the same steps in the same order.
      intro h
      obtain ⟨s₁, o₁, os, h₁, ⟨s₂, os₂, o₂, h₂, h₃, rfl⟩, rfl⟩ := h
      exact ⟨s₂, o₁ ++ os₂, o₂, ⟨s₁, o₁, os₂, h₁, h₂, rfl⟩, h₃, by simp⟩
    · intro h
      obtain ⟨s₂, os, o₂, ⟨s₁, o₁, os₂, h₁, h₂, rfl⟩, h₃, rfl⟩ := h
      exact ⟨s₁, o₁, os₂ ++ o₂, h₁, ⟨s₂, os₂, o₂, h₂, h₃, rfl⟩, by simp⟩

variable {M}

/-- Invariant rule that may use what is known of reachable states already. -/
theorem exec_invariant_reachable {I : σ → List ο → Prop} {s₀ : σ} (hinit : I s₀ [])
    (hstep : ∀ ls s out l s' o, M.exec s₀ ls = .ok (s, out) → I s out →
      M.step s l = .ok (s', o) → I s' (out ++ o))
    {ls : List ℓ} {s : σ} {out : List ο} (h : M.exec s₀ ls = .ok (s, out)) : I s out := by
  -- The induction is on the end of the run, where the invariant has to move on.
  induction ls using List.reverseRecOn generalizing s out with
  | nil =>
    simp only [exec_nil, Outcome.ok.injEq, Prod.mk.injEq] at h
    obtain ⟨rfl, rfl⟩ := h
    exact hinit
  | append_singleton ls l ih =>
    obtain ⟨s', os, o, hrun, hlast, rfl⟩ := M.exec_snoc_eq_ok.mp h
    exact hstep _ _ _ _ _ _ hrun (ih hrun) hlast

/-- Invariant rule: what holds of the start and is kept by every step, looking at
    the state and at everything emitted so far, holds after every run. -/
theorem exec_invariant {I : σ → List ο → Prop} {s₀ : σ} (hinit : I s₀ [])
    (hstep : ∀ s out l s' o, I s out → M.step s l = .ok (s', o) → I s' (out ++ o))
    {ls : List ℓ} {s : σ} {out : List ο} (h : M.exec s₀ ls = .ok (s, out)) : I s out :=
  exec_invariant_reachable hinit (fun _ s out l s' o _ => hstep s out l s' o) h

/-- Invariant rule for properties of the state alone. -/
theorem exec_invariant_state {I : σ → Prop} {s₀ : σ} (hinit : I s₀)
    (hstep : ∀ s l s' o, I s → M.step s l = .ok (s', o) → I s')
    {ls : List ℓ} {s : σ} {out : List ο} (h : M.exec s₀ ls = .ok (s, out)) : I s :=
  exec_invariant (I := fun s _ => I s) hinit (fun s _ l s' o hs => hstep s l s' o hs) h

/-! ## Properties along a run -/

variable (M)

/-- `P` holds of every state that a run of `ls` from `s` passes through, its ends
    included. -/
def EveryState (P : σ → Prop) : σ → List ℓ → Prop
  | s, [] => P s
  | s, l :: ls => P s ∧ ∀ s' o, M.step s l = .ok (s', o) → EveryState P s' ls

/-- Every step that a run of `ls` from `s` makes is made in a state and on an
    action that meet `C`. -/
def EveryStep (C : σ → ℓ → Prop) : σ → List ℓ → Prop
  | _, [] => True
  | s, l :: ls => ∀ s' o, M.step s l = .ok (s', o) → C s l ∧ EveryStep C s' ls

variable {M}

/-- The property holds in the state that the run starts in. -/
theorem EveryState.head {P : σ → Prop} {s : σ} {ls : List ℓ} (h : M.EveryState P s ls) : P s := by
  cases ls with
  | nil => exact h
  | cons l ls => exact h.1

/-- If steps that meet `C` keep an invariant that implies `P`, then `P` holds along every
    run whose steps all meet `C`. -/
theorem everyState_of_everyStep {I P : σ → Prop} {C : σ → ℓ → Prop} {s₀ : σ} (hinit : I s₀)
    (himp : ∀ s, I s → P s)
    (hgood : ∀ s l s' o, I s → C s l → M.step s l = .ok (s', o) → I s') {ls : List ℓ}
    (h : M.EveryStep C s₀ ls) : M.EveryState P s₀ ls := by
  induction ls generalizing s₀ with
  | nil => exact himp _ hinit
  | cons l ls ih =>
    refine ⟨himp _ hinit, fun s' o hs => ?_⟩
    obtain ⟨hC, hr⟩ := h s' o hs
    exact ih (hgood _ _ _ _ hinit hC hs) hr

/-- If steps that meet `C` keep an invariant that implies `P`, and a step that does
    not meet `C` leads from the invariant to a state without `P`, then `P` holds
    along a run exactly when all its steps meet `C`. -/
theorem everyState_iff_everyStep {I P : σ → Prop} {C : σ → ℓ → Prop} {s₀ : σ} (hinit : I s₀)
    (himp : ∀ s, I s → P s)
    (hgood : ∀ s l s' o, I s → C s l → M.step s l = .ok (s', o) → I s')
    (hbad : ∀ s l s' o, I s → ¬ C s l → M.step s l = .ok (s', o) → ¬ P s') (ls : List ℓ) :
    M.EveryState P s₀ ls ↔ M.EveryStep C s₀ ls := by
  refine ⟨fun h => ?_, everyState_of_everyStep hinit himp hgood⟩
  induction ls generalizing s₀ with
  | nil => trivial
  | cons l ls ih =>
    intro s' o hs
    have hP := h.2 s' o hs
    -- A step that does not meet `C` would lead to a state without `P`.
    have hC : C s₀ l := by
      by_contra hC
      exact hbad _ _ _ _ hinit hC hs hP.head
    exact ⟨hC, ih (hgood _ _ _ _ hinit hC hs) hP⟩

/-- If steps that meet `C` keep an invariant and meet `D`, then all steps of a run meet `D`
    when all of them meet `C`. -/
theorem everyStep_of_everyStep {I : σ → Prop} {C D : σ → ℓ → Prop} {s₀ : σ} (hinit : I s₀)
    (hgood : ∀ s l s' o, I s → C s l → M.step s l = .ok (s', o) → I s' ∧ D s l) {ls : List ℓ}
    (h : M.EveryStep C s₀ ls) : M.EveryStep D s₀ ls := by
  induction ls generalizing s₀ with
  | nil => trivial
  | cons l ls ih =>
    intro s' o hs
    obtain ⟨hC, hr⟩ := h s' o hs
    obtain ⟨hI, hD⟩ := hgood _ _ _ _ hinit hC hs
    exact ⟨hD, ih hI hr⟩

/-- If steps that meet `C` keep an invariant and meet `D`, and steps that meet `D` from the
    invariant meet `C`, then all steps of a run meet the one exactly when all meet the other. -/
theorem everyStep_iff {I : σ → Prop} {C D : σ → ℓ → Prop} {s₀ : σ} (hinit : I s₀)
    (hgood : ∀ s l s' o, I s → C s l → M.step s l = .ok (s', o) → I s' ∧ D s l)
    (hbad : ∀ s l s' o, I s → D s l → M.step s l = .ok (s', o) → C s l) (ls : List ℓ) :
    M.EveryStep D s₀ ls ↔ M.EveryStep C s₀ ls := by
  refine ⟨everyStep_of_everyStep hinit fun s l s' o hI hD hs => ?_,
    everyStep_of_everyStep hinit hgood⟩
  have hC := hbad s l s' o hI hD hs
  exact ⟨(hgood s l s' o hI hC hs).1, hC⟩

/-! ## Simulation -/

/-- Every step of `M` is matched by a step of `N` on the same action with the same
    outputs, and related states stay related. -/
def Simulates (M : Machine σ ℓ ο ε) (N : Machine τ ℓ ο ε') (R : σ → τ → Prop) : Prop :=
  ∀ s t l s' o, R s t → M.step s l = .ok (s', o) → ∃ t', N.step t l = .ok (t', o) ∧ R s' t'

/-- A simulation lifts to runs. -/
theorem Simulates.exec {N : Machine τ ℓ ο ε'} {R : σ → τ → Prop} (hsim : Simulates M N R)
    {s s' : σ} {t : τ} {ls : List ℓ} {out : List ο} (hR : R s t)
    (h : M.exec s ls = .ok (s', out)) : ∃ t', N.exec t ls = .ok (t', out) ∧ R s' t' := by
  induction ls generalizing s t out with
  | nil =>
    simp only [exec_nil, Outcome.ok.injEq, Prod.mk.injEq] at h
    obtain ⟨rfl, rfl⟩ := h
    exact ⟨t, rfl, hR⟩
  | cons l ls ih =>
    obtain ⟨s₁, o, os, hstep, hrest, rfl⟩ := M.exec_cons_eq_ok.mp h
    obtain ⟨t₁, hstep', hR₁⟩ := hsim _ _ _ _ _ hR hstep
    obtain ⟨t', hrest', hR'⟩ := ih hR₁ hrest
    exact ⟨t', N.exec_cons_eq_ok.mpr ⟨t₁, o, os, hstep', hrest', rfl⟩, hR'⟩

/-- A run of one step. -/
theorem exec_singleton {s s' : σ} {l : ℓ} {o : List ο} (h : M.step s l = .ok (s', o)) :
    M.exec s [l] = .ok (s', o) :=
  M.exec_cons_eq_ok.mpr ⟨s', o, [], h, rfl, (List.append_nil o).symm⟩

/-- Two runs, the second one from where the first one ends. -/
theorem exec_append {s s' s'' : σ} {ls ls' : List ℓ} {out out' : List ο}
    (h : M.exec s ls = .ok (s', out)) (h' : M.exec s' ls' = .ok (s'', out')) :
    M.exec s (ls ++ ls') = .ok (s'', out ++ out') := by
  induction ls generalizing s out with
  | nil =>
    simp only [exec_nil, Outcome.ok.injEq, Prod.mk.injEq] at h
    obtain ⟨rfl, rfl⟩ := h
    exact h'
  | cons l ls ih =>
    obtain ⟨s₁, o, os, hstep, hrest, rfl⟩ := M.exec_cons_eq_ok.mp h
    rw [List.append_assoc]
    exact M.exec_cons_eq_ok.mpr ⟨s₁, o, os ++ out', hstep, ih hrest, rfl⟩

/-- Every step of `M` is matched by a run of `N`, and related states stay related. The machines
    need not have the same actions and outputs. -/
def SimulatesByRuns {ℓ' ο' : Type*} (M : Machine σ ℓ ο ε) (N : Machine τ ℓ' ο' ε')
    (R : σ → τ → Prop) : Prop :=
  ∀ s t l s' o, R s t → M.step s l = .ok (s', o) → ∃ ls t' o', N.exec t ls = .ok (t', o') ∧ R s' t'

/-- A simulation by runs lifts to runs. -/
theorem SimulatesByRuns.exec {ℓ' ο' : Type*} {N : Machine τ ℓ' ο' ε'} {R : σ → τ → Prop}
    (hsim : SimulatesByRuns M N R) {s s' : σ} {t : τ} {ls : List ℓ} {out : List ο} (hR : R s t)
    (h : M.exec s ls = .ok (s', out)) : ∃ ls' t' out', N.exec t ls' = .ok (t', out') ∧ R s' t' := by
  induction ls generalizing s t out with
  | nil =>
    simp only [exec_nil, Outcome.ok.injEq, Prod.mk.injEq] at h
    obtain ⟨rfl, rfl⟩ := h
    exact ⟨[], t, [], rfl, hR⟩
  | cons l ls ih =>
    obtain ⟨s₁, o, os, hstep, hrest, rfl⟩ := M.exec_cons_eq_ok.mp h
    obtain ⟨ls₁, t₁, o₁, hrun, hR₁⟩ := hsim _ _ _ _ _ hR hstep
    obtain ⟨ls₂, t₂, o₂, hrun', hR₂⟩ := ih hR₁ hrest
    exact ⟨ls₁ ++ ls₂, t₂, o₁ ++ o₂, exec_append hrun hrun', hR₂⟩

end Machine

end OsWet
