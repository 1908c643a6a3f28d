import Mathlib.Order.Lattice

/-!
# The first maximum of a sequence

The place of the first maximum among the first terms of a sequence, and what happens to it when
one more term is looked at. A search that replaces its maximum only by a greater term keeps it.
-/

namespace OsWet

variable {β : Type*} [LinearOrder β] {f : Nat → β} {n k : Nat}

/-- Among the terms up to `n`, the one at `k` is maximal, and the terms before it are less. -/
structure FirstMax (f : Nat → β) (n k : Nat) : Prop where
  le : k ≤ n
  max : ∀ i, i ≤ n → f i ≤ f k
  first : ∀ i, i < k → f i < f k

/-- Among no values, the first is the greatest. -/
theorem FirstMax.zero (f : Nat → β) : FirstMax f 0 0 := by
  refine ⟨Nat.le_refl 0, fun i hi => ?_, fun i hi => absurd hi (Nat.not_lt_zero i)⟩
  rw [Nat.le_zero.mp hi]

/-- A greater term is the new maximum. -/
theorem FirstMax.succ_of_lt (h : FirstMax f n k) (hlt : f k < f (n + 1)) :
    FirstMax f (n + 1) (n + 1) := by
  have hless : ∀ i, i < n + 1 → f i < f (n + 1) := fun i hi =>
    lt_of_le_of_lt (h.max i (Nat.le_of_lt_succ hi)) hlt
  refine ⟨Nat.le_refl _, fun i hi => ?_, hless⟩
  rcases Nat.lt_or_eq_of_le hi with hi | rfl
  · exact le_of_lt (hless i hi)
  · exact le_refl _

/-- Any other term leaves it where it is. -/
theorem FirstMax.succ_of_le (h : FirstMax f n k) (hle : f (n + 1) ≤ f k) :
    FirstMax f (n + 1) k := by
  refine ⟨Nat.le_succ_of_le h.le, fun i hi => ?_, h.first⟩
  rcases Nat.lt_or_eq_of_le hi with hi | rfl
  · exact h.max i (Nat.le_of_lt_succ hi)
  · exact hle

end OsWet
