import Mathlib.Data.Finset.Card
import Mathlib.Data.Finset.Range

/-!
# The different values of a stream

A value that a stream repeats adds nothing to the values seen before it. So the number
of different values goes up in steps of one, and takes every number on its way.
-/

namespace OsWet

variable {α : Type*} [DecidableEq α] {f : Nat → α}

/-- The different ones among the first `n` values of a stream. -/
def drawn (f : Nat → α) (n : Nat) : Finset α := (Finset.range n).image f

@[simp] theorem drawn_zero : drawn f 0 = ∅ := rfl

/-- One draw more adds what is drawn. -/
theorem drawn_succ (n : Nat) : drawn f (n + 1) = insert (f n) (drawn f n) := by
  rw [drawn, Finset.range_add_one, Finset.image_insert, drawn]

/-- More draws have drawn no less. -/
theorem card_drawn_mono {m n : Nat} (h : m ≤ n) : (drawn f m).card ≤ (drawn f n).card := by
  apply Finset.card_le_card
  apply Finset.image_subset_image
  exact Finset.range_mono h

/-- The first `k` values are the shortest start of the stream with `a` different ones. -/
def DrawnFirst (f : Nat → α) (a k : Nat) : Prop :=
  (drawn f k).card = a ∧ ∀ j < k, (drawn f j).card < a

/-- A number of different values that has been reached was first met at some point. -/
theorem exists_drawnFirst {a n : Nat} (h : a ≤ (drawn f n).card) :
    ∃ k ≤ n, DrawnFirst f a k := by
  induction n with
  | zero =>
    rw [drawn_zero, Finset.card_empty] at h
    refine ⟨0, Nat.le_refl 0, ?_, fun j hj => absurd hj (Nat.not_lt_zero j)⟩
    rw [drawn_zero, Finset.card_empty]
    omega
  | succ n ih =>
    by_cases hn : a ≤ (drawn f n).card
    · obtain ⟨k, hk, hfirst⟩ := ih hn
      exact ⟨k, by omega, hfirst⟩
    · -- The last value is a new one, and the first to reach the number.
      have hstep : (drawn f (n + 1)).card ≤ (drawn f n).card + 1 := by
        rw [drawn_succ]
        exact Finset.card_insert_le _ _
      refine ⟨n + 1, Nat.le_refl _, by omega, fun j hj => ?_⟩
      have hmono := card_drawn_mono (f := f) (show j ≤ n by omega)
      omega

end OsWet
