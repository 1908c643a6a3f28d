import OsWet.ForStd.Machine
import Mathlib.Algebra.BigOperators.Group.List.Basic
import Mathlib.Algebra.Ring.Nat

/-!
# Machines that come to rest

Some actions of a machine are its own, the others are inputs from its environment. A machine
*drains* when its own actions bring a measure down, an input raises it by what the input costs,
and one of its own actions is possible in every state that is not at rest. Left to itself, such
a machine always comes to rest:

- `Drains.countP_add_le`: a run has no more own actions than its inputs pay for
- `Drains.exists_exec`: without further input the machine can come to rest
-/

namespace OsWet.Machine

variable {σ ℓ ο ε : Type*}

/-- With the invariant `I`: the own actions of the machine bring the measure down, inputs raise
    it by no more than they cost, and an own action is possible unless the state is at rest. -/
structure Drains (M : Machine σ ℓ ο ε) (I : σ → Prop) (own : ℓ → Bool) (cost : ℓ → Nat)
    (atRest : σ → Prop) (μ : σ → Nat) : Prop where
  keeps : ∀ s l s' o, I s → M.step s l = .ok (s', o) → I s'
  own_step : ∀ s l s' o, I s → own l → M.step s l = .ok (s', o) → μ s' < μ s
  input_step : ∀ s l s' o, I s → ¬ own l → M.step s l = .ok (s', o) → μ s' ≤ μ s + cost l
  progress : ∀ s, I s → ¬ atRest s → ∃ l s' o, own l ∧ M.step s l = .ok (s', o)

namespace Drains

variable {M : Machine σ ℓ ο ε} {I : σ → Prop} {own : ℓ → Bool} {cost : ℓ → Nat}
  {atRest : σ → Prop} {μ : σ → Nat} {s s' : σ} {ls : List ℓ} {out : List ο}

/-- A run keeps the invariant. -/
theorem exec_keeps (h : M.Drains I own cost atRest μ) (hs : I s)
    (hrun : M.exec s ls = .ok (s', out)) : I s' :=
  exec_invariant_state hs h.keeps hrun

/-- Every own action of a run is paid for by the measure at its start or by an input. -/
theorem countP_add_le (h : M.Drains I own cost atRest μ) (hs : I s)
    (hrun : M.exec s ls = .ok (s', out)) :
    ls.countP own + μ s' ≤ μ s + ((ls.filter fun l => !own l).map cost).sum := by
  induction ls generalizing s out with
  | nil =>
    simp only [exec_nil, Outcome.ok.injEq, Prod.mk.injEq] at hrun
    obtain ⟨rfl, rfl⟩ := hrun
    simp
  | cons l ls ih =>
    obtain ⟨s₁, o, os, hstep, hrest, rfl⟩ := M.exec_cons_eq_ok.mp hrun
    have hle := ih (h.keeps _ _ _ _ hs hstep) hrest
    cases hl : own l with
    | true =>
      have hlt := h.own_step _ _ _ _ hs hl hstep
      rw [List.countP_cons_of_pos hl, List.filter_cons_of_neg (by simp [hl])]
      omega
    | false =>
      have hcost := h.input_step _ _ _ _ hs (by simp [hl]) hstep
      rw [List.countP_cons_of_neg (by simp [hl]), List.filter_cons_of_pos (by simp [hl]),
        List.map_cons, List.sum_cons]
      omega

/-- From every state the machine can come to rest by its own actions. -/
theorem exists_exec (h : M.Drains I own cost atRest μ) (hs : I s) :
    ∃ ls s' out, (∀ l ∈ ls, own l) ∧ M.exec s ls = .ok (s', out) ∧ atRest s' := by
  -- The induction is on the measure; a step that is possible brings it down.
  induction hμ : μ s using Nat.strongRecOn generalizing s with
  | ind m ih =>
    by_cases hrest : atRest s
    · exact ⟨[], s, [], by simp, rfl, hrest⟩
    · obtain ⟨l, s₁, o, hl, hstep⟩ := h.progress s hs hrest
      have hlt := h.own_step _ _ _ _ hs hl hstep
      obtain ⟨ls, s', out, hls, hrun, hs'⟩ :=
        ih (μ s₁) (hμ ▸ hlt) (h.keeps _ _ _ _ hs hstep) rfl
      refine ⟨l :: ls, s', o ++ out, List.forall_mem_cons.mpr ⟨hl, hls⟩, ?_, hs'⟩
      exact M.exec_cons_eq_ok.mpr ⟨s₁, o, out, hstep, hrun, rfl⟩

end Drains

end OsWet.Machine
