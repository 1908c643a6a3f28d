import OsWet.ForStd.Machine

/-!
# Heaps of blocks of one type

A `Heap α` holds blocks of type `α`. Addresses are handed out in increasing order
and are never handed out twice, so a pointer to a freed block stays dangling. A
pointer is an `Option Nat`, with `none` for the null pointer.

`load`, `store` and `free` fault on a null pointer and on a pointer to a block that
is not allocated. The lemmas below say when each succeeds and which cells it
leaves alone.
-/

namespace OsWet

/-- A heap of blocks of type `α`. The field `fresh` says that nothing is allocated
    at or above `next`, the next address to hand out. -/
structure Heap (α : Type*) where
  next : Nat
  cell : Nat → Option α
  fresh : ∀ a, next ≤ a → cell a = none

/-- The ways a memory access can go wrong. -/
inductive MemFault where
  | nullPointer
  | danglingPointer
  | outOfBounds
  deriving DecidableEq, Repr

/-- A pointer: null, or an address. -/
abbrev Ptr := Option Nat

namespace Heap

variable {α : Type*}

/-- The heap in which nothing is allocated. -/
def empty : Heap α := ⟨0, fun _ => none, fun _ _ => rfl⟩

/-- A block that is there has an address that has been given out. -/
theorem lt_next {h : Heap α} {a : Nat} {v : α} (hc : h.cell a = some v) : a < h.next := by
  by_contra hge
  rw [h.fresh a (by omega)] at hc
  cases hc

/-- Replace the content of one cell below `next`. -/
def setCell (h : Heap α) (a : Nat) (v : Option α) (ha : a < h.next) : Heap α where
  next := h.next
  cell := Function.update h.cell a v
  fresh b hb := by
    rw [Function.update_of_ne (by omega)]
    exact h.fresh b hb

/-- Allocate a block: its address and the new heap. -/
def alloc (h : Heap α) (v : α) : Nat × Heap α :=
  (h.next,
    { next := h.next + 1
      cell := Function.update h.cell h.next (some v)
      fresh := fun b hb => by
        rw [Function.update_of_ne (by omega)]
        exact h.fresh b (by omega) })

/-- Read the block a pointer points to. -/
def load (h : Heap α) : Ptr → Outcome MemFault α
  | none => .fault .nullPointer
  | some a =>
    match h.cell a with
    | none => .fault .danglingPointer
    | some v => .ok v

/-- Overwrite the block a pointer points to. -/
def store (h : Heap α) : Ptr → α → Outcome MemFault (Heap α)
  | none, _ => .fault .nullPointer
  | some a, v =>
    if ha : a < h.next then
      if (h.cell a).isSome then .ok (h.setCell a (some v) ha) else .fault .danglingPointer
    else .fault .danglingPointer

/-- Give a block back. Freeing the null pointer does nothing. -/
def free (h : Heap α) : Ptr → Outcome MemFault (Heap α)
  | none => .ok h
  | some a =>
    if ha : a < h.next then
      if (h.cell a).isSome then .ok (h.setCell a none ha) else .fault .danglingPointer
    else .fault .danglingPointer

/-! ## When an access succeeds -/

/-- A load from a block that is there. -/
theorem load_eq_ok {h : Heap α} {a : Nat} {v : α} (hc : h.cell a = some v) :
    h.load (some a) = .ok v := by
  simp only [load, hc]

/-- The heap after the store to an allocated block. -/
theorem store_eq_ok {h : Heap α} {a : Nat} {v : α} (hc : h.cell a = some v) (w : α) :
    h.store (some a) w = .ok (h.setCell a (some w) (lt_next hc)) := by
  simp only [store, dif_pos (lt_next hc), hc, Option.isSome_some, if_true]

/-- The heap after the release of an allocated block. -/
theorem free_eq_ok {h : Heap α} {a : Nat} {v : α} (hc : h.cell a = some v) :
    h.free (some a) = .ok (h.setCell a none (lt_next hc)) := by
  simp only [free, dif_pos (lt_next hc), hc, Option.isSome_some, if_true]

/-- No access waits for anything. -/
theorem load_ne_stuck (h : Heap α) (p : Ptr) : h.load p ≠ .stuck := by
  cases p with
  | none => simp [load]
  | some a => simp only [load]; split <;> simp

/-- A store is done or faults. -/
theorem store_ne_stuck (h : Heap α) (p : Ptr) (v : α) : h.store p v ≠ .stuck := by
  cases p with
  | none => simp [store]
  | some a => simp only [store]; split <;> [split; skip] <;> simp

/-- A free is done or faults. -/
theorem free_ne_stuck (h : Heap α) (p : Ptr) : h.free p ≠ .stuck := by
  cases p with
  | none => simp [free]
  | some a => simp only [free]; split <;> [split; skip] <;> simp

/-! ## Which cells change -/

/-- A new block is at the next address. -/
@[simp] theorem alloc_fst (h : Heap α) (v : α) : (h.alloc v).1 = h.next := rfl

/-- A new block holds what it was allocated with. -/
@[simp] theorem alloc_cell_self (h : Heap α) (v : α) :
    (h.alloc v).2.cell h.next = some v := by
  simp [alloc]

/-- Allocation leaves the blocks that are there as they are. -/
theorem alloc_cell_of_some {h : Heap α} {a : Nat} {w : α} (v : α) (hc : h.cell a = some w) :
    (h.alloc v).2.cell a = some w := by
  have hlt := lt_next hc
  simp [alloc, Function.update_of_ne (show a ≠ h.next by omega), hc]

/-- A cell that is set holds the new value. -/
@[simp] theorem setCell_cell_self (h : Heap α) (a : Nat) (v : Option α) (ha : a < h.next) :
    (h.setCell a v ha).cell a = v := by
  simp [setCell]

/-- Setting a cell leaves the others as they are. -/
theorem setCell_cell_of_ne {h : Heap α} {a b : Nat} {v : Option α} (ha : a < h.next)
    (hne : b ≠ a) : (h.setCell a v ha).cell b = h.cell b := by
  simp [setCell, Function.update_of_ne hne]

/-- Allocation leaves the other addresses as they are. -/
theorem alloc_cell_of_ne {h : Heap α} {b : Nat} (v : α) (hne : b ≠ h.next) :
    (h.alloc v).2.cell b = h.cell b := by
  simp [alloc, Function.update_of_ne hne]

/-- A store keeps every block, live or not. -/
theorem store_cell_eq_none {h h' : Heap α} {p : Ptr} {v : α} (hs : h.store p v = .ok h')
    (b : Nat) : h'.cell b = none ↔ h.cell b = none := by
  unfold store at hs
  split at hs
  · cases hs
  · rename_i a
    split at hs
    · rename_i ha
      split at hs
      · rename_i hlive
        cases hs
        by_cases hb : b = a
        · subst hb
          rw [setCell_cell_self]
          grind
        · rw [setCell_cell_of_ne ha hb]
      · cases hs
    · cases hs

/-- After a release the block is gone, and the others are as they were. -/
theorem free_cell {h h' : Heap α} {a : Nat} (hs : h.free (some a) = .ok h') :
    h'.cell a = none ∧ ∀ b, b ≠ a → h'.cell b = h.cell b := by
  simp only [free] at hs
  split at hs
  · rename_i ha
    split at hs
    · cases hs
      exact ⟨setCell_cell_self _ _ _ _, fun b hb => setCell_cell_of_ne ha hb⟩
    · cases hs
  · cases hs

end Heap

end OsWet
