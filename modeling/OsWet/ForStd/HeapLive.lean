import OsWet.ForStd.Heap
import Mathlib.Data.Finset.Card

/-!
# The blocks that are allocated

`h.live` is the set of addresses at which a block is allocated. An allocation adds one
address to it, a release takes one away, and a store keeps it, so that counting the
live blocks at the end of a run says how many were never given back.
-/

namespace OsWet.Heap

variable {α : Type*} {h h' : Heap α} {p : Ptr}

/-- The addresses of the allocated blocks. -/
def live (h : Heap α) : Finset Nat :=
  (Finset.range h.next).filter fun a => (h.cell a).isSome

theorem mem_live {a : Nat} : a ∈ h.live ↔ h.cell a ≠ none := by
  simp only [live, Finset.mem_filter, Finset.mem_range, Option.isSome_iff_ne_none,
    and_iff_right_iff_imp]
  intro hcell
  obtain ⟨v, hv⟩ := Option.ne_none_iff_exists'.mp hcell
  exact lt_next hv

/-- A block that is there is live. -/
theorem mem_live_of_cell {a : Nat} {v : α} (hc : h.cell a = some v) : a ∈ h.live := by
  simp [mem_live, hc]

/-- The next address is not live yet. -/
theorem next_not_mem_live (h : Heap α) : h.next ∉ h.live := by
  simp [mem_live, h.fresh h.next le_rfl]

@[simp] theorem live_empty : (empty : Heap α).live = ∅ := rfl

/-- No more blocks are live than addresses were given out. -/
theorem card_live_le (h : Heap α) : h.live.card ≤ h.next := by
  have hle := Finset.card_filter_le (Finset.range h.next) fun a => (h.cell a).isSome = true
  rwa [Finset.card_range] at hle

/-- An allocation adds the address that it hands out. -/
theorem live_alloc (h : Heap α) (v : α) : (h.alloc v).2.live = insert h.next h.live := by
  ext a
  rw [mem_live, Finset.mem_insert, mem_live]
  by_cases ha : a = h.next
  · subst ha
    simp
  · simp [alloc_cell_of_ne v ha, ha]

/-- Allocation makes one block more live. -/
theorem card_live_alloc (h : Heap α) (v : α) : (h.alloc v).2.live.card = h.live.card + 1 := by
  rw [live_alloc, Finset.card_insert_of_notMem h.next_not_mem_live]

/-- A load succeeds at the address of a live block only. -/
theorem mem_live_of_load {v : α} (hload : h.load p = .ok v) : ∃ a ∈ h.live, p = some a := by
  cases p with
  | none => cases hload
  | some a =>
    refine ⟨a, mem_live.mpr fun hnone => ?_, rfl⟩
    simp [load, hnone] at hload

/-- A store leaves the live blocks as they are. -/
theorem live_store {v : α} (hstore : h.store p v = .ok h') : h'.live = h.live := by
  ext a
  rw [mem_live, mem_live, ne_eq, ne_eq, store_cell_eq_none hstore a]

/-- A release takes away the address that is released. -/
theorem live_free {a : Nat} (hfree : h.free (some a) = .ok h') :
    a ∈ h.live ∧ h'.live = h.live.erase a := by
  obtain ⟨hself, hother⟩ := free_cell hfree
  constructor
  · rw [mem_live]
    intro hnone
    simp only [free, hnone, Option.isSome_none, Bool.false_eq_true, if_false, dite_eq_ite,
      ite_self] at hfree
    cases hfree
  · ext b
    rw [mem_live, Finset.mem_erase, mem_live]
    by_cases hb : b = a
    · subst hb
      simp [hself]
    · simp [hother b hb, hb]

/-- A free makes one block fewer live. -/
theorem card_live_free {a : Nat} (hfree : h.free (some a) = .ok h') :
    h'.live.card + 1 = h.live.card := by
  obtain ⟨hmem, hlive⟩ := live_free hfree
  rw [hlive, Finset.card_erase_add_one hmem]

end OsWet.Heap
