import Mathlib.Data.List.Perm.Basic
import Mathlib.Data.List.Count

/-!
# Picking list elements by a mask

`pick p mask l` keeps the elements of `l` whose entry in `mask` satisfies `p`.
Picking with `p` and with its negation splits the list into two subsequences.
-/

namespace OsWet

variable {α β : Type*} {p : β → Bool}

/-- The elements of the list whose mask entry satisfies `p`. -/
def pick (p : β → Bool) : List β → List α → List α
  | b :: bs, a :: as => if p b then a :: pick p bs as else pick p bs as
  | _, _ => []

/-- A mask that has come to its end picks nothing. -/
@[simp] theorem pick_nil (l : List α) : pick p [] l = [] := rfl

/-- An element is picked if the mask says so at its place. -/
@[simp] theorem pick_cons_cons (b : β) (bs : List β) (a : α) (as : List α) :
    pick p (b :: bs) (a :: as) = if p b then a :: pick p bs as else pick p bs as := rfl

/-- Picking from two lists one after the other, each with a mask of its length. -/
theorem pick_append {mask₁ mask₂ : List β} {l₁ l₂ : List α} (hlen : mask₁.length = l₁.length) :
    pick p (mask₁ ++ mask₂) (l₁ ++ l₂) = pick p mask₁ l₁ ++ pick p mask₂ l₂ := by
  induction mask₁ generalizing l₁ with
  | nil =>
    cases List.eq_nil_of_length_eq_zero hlen.symm
    rfl
  | cons b bs ih =>
    cases l₁ with
    | nil => cases hlen
    | cons a as =>
      simp only [List.cons_append, pick_cons_cons, ih (Nat.succ.inj hlen)]
      split <;> rfl

/-- A mask that picks everything. -/
theorem pick_eq_self {mask : List β} {l : List α} (hlen : mask.length = l.length)
    (hall : ∀ b ∈ mask, p b) : pick p mask l = l := by
  induction mask generalizing l with
  | nil => cases List.eq_nil_of_length_eq_zero hlen.symm; rfl
  | cons b bs ih =>
    cases l with
    | nil => cases hlen
    | cons a as =>
      rw [pick_cons_cons, if_pos (hall b List.mem_cons_self),
        ih (Nat.succ.inj hlen) fun c hc => hall c (List.mem_cons_of_mem _ hc)]

/-- A mask that picks nothing. -/
theorem pick_eq_nil {mask : List β} {l : List α} (hall : ∀ b ∈ mask, p b = false) :
    pick p mask l = [] := by
  induction mask generalizing l with
  | nil => rfl
  | cons b bs ih =>
    cases l with
    | nil => rfl
    | cons a as =>
      rw [pick_cons_cons, hall b List.mem_cons_self, if_neg (by simp),
        ih fun c hc => hall c (List.mem_cons_of_mem _ hc)]

/-- What is picked keeps its order. -/
theorem pick_sublist (mask : List β) (l : List α) : (pick p mask l).Sublist l := by
  induction mask generalizing l with
  | nil => exact List.nil_sublist l
  | cons b bs ih =>
    cases l with
    | nil => exact List.Sublist.refl _
    | cons a as =>
      rw [pick_cons_cons]
      split
      · exact (ih as).cons_cons a
      · exact (ih as).cons a

/-- As many are picked as the mask has places for. -/
theorem length_pick {mask : List β} {l : List α} (hlen : mask.length = l.length) :
    (pick p mask l).length = mask.countP p := by
  induction mask generalizing l with
  | nil => rfl
  | cons b bs ih =>
    cases l with
    | nil => cases hlen
    | cons a as =>
      rw [pick_cons_cons, List.countP_cons]
      split
      · simp [ih (Nat.succ.inj hlen)]
      · simp [ih (Nat.succ.inj hlen)]

/-- The picked elements and the others make up the list. -/
theorem pick_perm {mask : List β} {l : List α} (hlen : mask.length = l.length) :
    (pick (fun b => !p b) mask l ++ pick p mask l).Perm l := by
  induction mask generalizing l with
  | nil => cases List.eq_nil_of_length_eq_zero hlen.symm; exact List.Perm.refl _
  | cons b bs ih =>
    cases l with
    | nil => cases hlen
    | cons a as =>
      have hrest := ih (Nat.succ.inj hlen)
      simp only [pick_cons_cons]
      cases p b with
      | true => exact List.perm_middle.trans (hrest.cons a)
      | false => exact hrest.cons a

end OsWet
