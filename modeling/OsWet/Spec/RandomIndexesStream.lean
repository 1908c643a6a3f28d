import OsWet.ForStd.Draws
import OsWet.Spec.RandomIndexes

/-!
# When the selection of the random indexes stops

The filling loop of `getRandomIndexes` takes its counter back on an index that is set
already, so its counter is not the number of its rounds. It is the number of different
residues among the values of `rand()` read so far, and the array holds a one for each
of them. The loop stops at the first value with which that number is `amount`.

Key results:
- `fillRandIndexes_round`: one value of `rand()`, new or repeated, in terms of the residues
- `fillRandIndexes_run`: any number of values that leave the loop short of `amount`
- `getRandomIndexes_exact`: the whole call on a stream of values
-/

namespace OsWet.MessageQueue

/-- The array with `capacity` entries that holds a one at each of `indexes`. -/
def indicator (capacity : Int) (indexes : Finset Nat) : List Int :=
  (List.range capacity.toNat).map fun index => if index ∈ indexes then 1 else 0

/-- `rand() % capacity`, for the value of `rand()` at each place of a stream. -/
def residue (capacity : Int) (rand : Nat → Nat) (place : Nat) : Nat :=
  ((rand place : Int) % capacity).toNat

/-- A residue is a place in the queue. -/
theorem residue_lt {capacity : Int} (hcap : 1 ≤ capacity) (rand : Nat → Nat) (place : Nat) :
    residue capacity rand place < capacity.toNat := by
  have hnonneg := Int.emod_nonneg (rand place : Int) (show capacity ≠ 0 by omega)
  have hlt := Int.emod_lt_of_pos (rand place : Int) (show 0 < capacity by omega)
  unfold residue
  omega

/-- The mask has an entry for each place. -/
@[simp] theorem length_indicator (capacity : Int) (indexes : Finset Nat) :
    (indicator capacity indexes).length = capacity.toNat := by
  simp [indicator]

/-- An entry of the mask says whether its place is drawn. -/
theorem indicator_getElem? {capacity : Int} {index : Nat} (h : index < capacity.toNat)
    (indexes : Finset Nat) :
    (indicator capacity indexes)[index]? = some (if index ∈ indexes then 1 else 0) := by
  simp [indicator, h]

/-- Drawing a place sets its entry. -/
theorem indicator_set {capacity : Int} (index : Nat) (indexes : Finset Nat) :
    (indicator capacity indexes).set index 1 = indicator capacity (insert index indexes) := by
  apply List.ext_getElem (by simp)
  intro place hplace _
  rw [List.getElem_set]
  simp only [indicator, List.getElem_map, List.getElem_range, Finset.mem_insert]
  by_cases h : index = place
  · simp [h]
  · simp [h, Ne.symm h]

/-- The mask is empty at first. -/
theorem indicator_empty (capacity : Int) :
    List.replicate capacity.toNat 0 = indicator capacity ∅ := by
  simp [indicator, List.map_const']

/-- A mask is known by its length and its entries. -/
theorem eq_indicator_iff {capacity : Int} {mask : List Int} {indexes : Finset Nat} :
    mask = indicator capacity indexes ↔ mask.length = capacity.toNat ∧
      ∀ index < capacity.toNat, mask[index]? = some (if index ∈ indexes then 1 else 0) := by
  constructor
  · intro h
    rw [h]
    exact ⟨length_indicator capacity indexes, fun index hi => indicator_getElem? hi indexes⟩
  · intro h
    obtain ⟨hlen, hget⟩ := h
    apply List.ext_getElem?
    intro index
    by_cases hi : index < capacity.toNat
    · rw [hget index hi, indicator_getElem? hi]
    · rw [List.getElem?_eq_none (by omega), List.getElem?_eq_none (by simp; omega)]

variable {capacity : Int} {amount : Nat} {rand : Nat → Nat}

/-- One round of the filling loop: the counter and the array follow the residues. -/
theorem fillRandIndexes_round (hcap : 1 ≤ capacity) {k : Nat}
    (hshort : (drawn (residue capacity rand) k).card < amount) (rands : List Nat) :
    fillRandIndexes capacity amount (drawn (residue capacity rand) k).card
        (indicator capacity (drawn (residue capacity rand) k)) (rand k :: rands) =
      fillRandIndexes capacity amount (drawn (residue capacity rand) (k + 1)).card
        (indicator capacity (drawn (residue capacity rand) (k + 1))) rands := by
  have hget := indicator_getElem? (residue_lt hcap rand k) (drawn (residue capacity rand) k)
  rw [fillRandIndexes, if_pos (by omega)]
  simp only [show ((rand k : Int) % capacity).toNat = residue capacity rand k from rfl, hget]
  rw [drawn_succ]
  by_cases hmem : residue capacity rand k ∈ drawn (residue capacity rand) k
  · -- A repeated residue: the entry is one, and the round changes nothing.
    rw [if_pos hmem, if_neg (by decide), Finset.insert_eq_of_mem hmem]
  · -- A new residue: its entry is set, and the counter keeps its advance.
    rw [if_neg hmem, if_pos rfl, indicator_set, Finset.card_insert_of_notMem hmem,
      Int.natCast_succ]

/-- The filling loop over any values that leave it short of `amount`. -/
theorem fillRandIndexes_run (hcap : 1 ≤ capacity) {k n : Nat}
    (hshort : ∀ j < k + n, (drawn (residue capacity rand) j).card < amount)
    (rands : List Nat) :
    fillRandIndexes capacity amount (drawn (residue capacity rand) k).card
        (indicator capacity (drawn (residue capacity rand) k))
        ((List.range' k n).map rand ++ rands) =
      fillRandIndexes capacity amount (drawn (residue capacity rand) (k + n)).card
        (indicator capacity (drawn (residue capacity rand) (k + n))) rands := by
  induction n generalizing k with
  | zero => rfl
  | succ n ih =>
    rw [List.range'_succ, List.map_cons, List.cons_append,
      fillRandIndexes_round hcap (hshort k (by omega)),
      ih (fun j hj => hshort j (by omega)), show k + (n + 1) = k + 1 + n by omega]

/-- The whole loop from its start, over values that leave it short of `amount`. -/
theorem getRandomIndexes_run (hcap : 1 ≤ capacity) {n : Nat}
    (hshort : ∀ j < n, (drawn (residue capacity rand) j).card < amount) (rands : List Nat) :
    getRandomIndexes true capacity amount ((List.range n).map rand ++ rands) =
      (fillRandIndexes capacity amount (drawn (residue capacity rand) n).card
        (indicator capacity (drawn (residue capacity rand) n)) rands).bind
          fun mask => .ok (some mask) := by
  have hrun := fillRandIndexes_run hcap (k := 0) (n := n)
    (fun j hj => hshort j (by omega)) rands
  rw [← List.range_eq_range', Nat.zero_add, drawn_zero, Finset.card_empty, Int.natCast_zero,
    ← indicator_empty] at hrun
  rw [getRandomIndexes, if_pos rfl, hrun]
  rfl

/-- `getRandomIndexes` asks for another value while it is short of `amount`. -/
theorem getRandomIndexes_short (hcap : 1 ≤ capacity) {n : Nat}
    (hshort : (drawn (residue capacity rand) n).card < amount) :
    getRandomIndexes true capacity amount ((List.range n).map rand) = .stuck := by
  have hrun := getRandomIndexes_run hcap (n := n)
    (fun j hj => Nat.lt_of_le_of_lt (card_drawn_mono (Nat.le_of_lt hj)) hshort) ([] : List Nat)
  rw [List.append_nil, fillRandIndexes, if_pos (by omega)] at hrun
  exact hrun

/-- `getRandomIndexes` stops on the value that makes `amount` different residues, whatever
    `rand()` would give next. -/
theorem getRandomIndexes_stops (hcap : 1 ≤ capacity) {k : Nat}
    (hfirst : DrawnFirst (residue capacity rand) amount k) (rands : List Nat) :
    getRandomIndexes true capacity amount ((List.range k).map rand ++ rands) =
      .ok (some (indicator capacity (drawn (residue capacity rand) k))) := by
  rw [getRandomIndexes_run hcap hfirst.2, hfirst.1]
  cases rands <;> rw [fillRandIndexes, if_neg (Int.lt_irrefl _)] <;> rfl

/-- `getRandomIndexes` on `n` values of which the first `k` are enough. -/
theorem getRandomIndexes_range (hcap : 1 ≤ capacity) {k n : Nat} (hk : k ≤ n)
    (hfirst : DrawnFirst (residue capacity rand) amount k) :
    getRandomIndexes true capacity amount ((List.range n).map rand) =
      .ok (some (indicator capacity (drawn (residue capacity rand) k))) := by
  obtain ⟨m, rfl⟩ := Nat.exists_eq_add_of_le hk
  rw [List.range_add, List.map_append]
  exact getRandomIndexes_stops hcap hfirst _

/-- On the first `n` values of any stream `getRandomIndexes` faults never, asks for another
    value (is stuck) exactly while they have fewer than `amount` residues, and otherwise has
    stopped at the first `k` with `amount` residues, with its ones exactly at these. -/
theorem getRandomIndexes_exact (hcap : 1 ≤ capacity) (rand : Nat → Nat) (n : Nat) :
    (∀ e, getRandomIndexes true capacity amount ((List.range n).map rand) ≠ .fault e) ∧
      (getRandomIndexes true capacity amount ((List.range n).map rand) = .stuck ↔
        (drawn (residue capacity rand) n).card < amount) ∧
      ∀ mask, getRandomIndexes true capacity amount ((List.range n).map rand) = .ok (some mask) ↔
        ∃ k ≤ n, DrawnFirst (residue capacity rand) amount k ∧ mask.length = capacity ∧
          (mask.countP (· ≠ 0) = amount) ∧ ∀ index < capacity.toNat, mask[index]? =
            some (if index ∈ drawn (residue capacity rand) k then 1 else 0) := by
  refine ⟨fun e => getRandomIndexes_ne_fault (by omega) e, ?_⟩
  rcases Nat.lt_or_ge (drawn (residue capacity rand) n).card amount with hshort | hreached
  · -- The values fall short: the loop is still asking, and no start of them is enough.
    have hstuck := getRandomIndexes_short hcap hshort
    rw [hstuck]
    refine ⟨⟨fun _ => hshort, fun _ => rfl⟩, fun mask => ⟨fun h => (by cases h), ?_⟩⟩
    intro h
    obtain ⟨k, hk, hfirst, -⟩ := h
    have hmono := card_drawn_mono (f := residue capacity rand) hk
    have hcard := hfirst.1
    omega
  · -- The values are enough, and the loop stopped on the first start of them that is.
    obtain ⟨k, hk, hfirst⟩ := exists_drawnFirst hreached
    have hok := getRandomIndexes_range hcap hk hfirst
    rw [hok]
    refine ⟨⟨fun h => (by cases h), fun h => by omega⟩, fun mask => ⟨fun h => ?_, fun h => ?_⟩⟩
    · cases h
      have hspec := getRandomIndexes_spec (by omega) hok
      refine ⟨k, hk, hfirst, by omega, by omega, ?_⟩
      exact (eq_indicator_iff.mp rfl).2
    · obtain ⟨k', hk', hfirst', hlen, -, hmask⟩ := h
      rw [eq_indicator_iff.mpr ⟨by omega, hmask⟩, ← hok, ← getRandomIndexes_range hcap hk' hfirst']

/-- The values 5, 1, 5, 6 for a capacity of 4: the residues 1, 1, 1 and 2. -/
theorem getRandomIndexes_exact_four :
    getRandomIndexes true 4 (2 : Nat) ((List.range 3).map (fun n => [5, 1, 5, 6].getD n 0)) =
        .stuck ∧
      getRandomIndexes true 4 (2 : Nat) ((List.range 4).map (fun n => [5, 1, 5, 6].getD n 0)) =
        .ok (some [0, 1, 1, 0]) :=
  ⟨(getRandomIndexes_exact (by decide) _ 3).2.1.mpr (by decide),
    ((getRandomIndexes_exact (by decide) _ 4).2.2 [0, 1, 1, 0]).mpr
      ⟨4, Nat.le_refl 4, ⟨by decide, by decide⟩, rfl, by decide, by decide⟩⟩

end OsWet.MessageQueue
