import Mathlib.Data.Fintype.BigOperators

/-!
# Sums over a table with one entry changed

The state of many threads is a table, and a step of one thread updates one entry. A
sum over the table then changes by that entry alone; counting is a special case.
-/

namespace OsWet

variable {α β M : Type*} [Fintype α] [DecidableEq α] [AddCommMonoid M]

/-- A sum over a finite table, across one update. -/
theorem sum_update (f : β → M) (g : α → β) (a : α) (b : β) :
    ∑ x, f (Function.update g a b x) + f (g a) = ∑ x, f (g x) + f b := by
  have hrest : ∑ x ∈ Finset.univ.erase a, f (Function.update g a b x) =
      ∑ x ∈ Finset.univ.erase a, f (g x) := by
    refine Finset.sum_congr rfl fun x hx => ?_
    rw [Function.update_of_ne (Finset.ne_of_mem_erase hx)]
  rw [← Finset.add_sum_erase _ _ (Finset.mem_univ a), hrest, Function.update_self,
    ← Finset.add_sum_erase Finset.univ (fun x => f (g x)) (Finset.mem_univ a)]
  rw [add_assoc, add_comm (f b), add_comm _ (f (g a))]

/-- Counting the entries of a finite table with a property, across one update. -/
theorem card_filter_update (f : α → β) (p : β → Bool) (a : α) (b : β) :
    (Finset.univ.filter fun x => p (Function.update f a b x)).card + (if p (f a) then 1 else 0) =
      (Finset.univ.filter fun x => p (f x)).card + (if p b then 1 else 0) := by
  rw [Finset.card_filter, Finset.card_filter]
  exact sum_update (fun y => if p y then 1 else 0) f a b

end OsWet
