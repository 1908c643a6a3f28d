import OsWet.Native.MessageQueue
import Mathlib.Data.List.Count

/-!
# The random drop mask

`getRandomIndexes` returns a mask with one entry for each place of the queue, in
which exactly `amount` entries are set. The counter of the filling loop is the
number of set entries, because it is not advanced on an index that is already set.
-/

namespace OsWet.MessageQueue

/-- Setting a clear entry raises the number of set entries by one. -/
private theorem countP_set_clear {l : List Int} {i : Nat} (hi : l[i]? = some 0) :
    (l.set i 1).countP (· ≠ 0) = l.countP (· ≠ 0) + 1 := by
  induction l generalizing i with
  | nil => cases hi
  | cons v l ih =>
    cases i with
    | zero =>
      simp only [List.getElem?_cons_zero, Option.some.injEq] at hi
      subst hi
      simp
    | succ i =>
      have hl := ih (by simpa using hi)
      simp only [List.set_cons_succ, List.countP_cons, hl]
      omega

/-- The loop invariant of `getRandomIndexes`. -/
theorem fillRandIndexes_spec {capacity amount i : Int} {randIndexes mask : List Int}
    {rands : List Nat} (hcount : (randIndexes.countP (· ≠ 0) : Int) = i) (hi : i ≤ amount)
    (h : fillRandIndexes capacity amount i randIndexes rands = .ok mask) :
    mask.length = randIndexes.length ∧ (mask.countP (· ≠ 0) : Int) = amount := by
  -- The induction is on the random numbers: each round of the loop uses one.
  induction rands generalizing i randIndexes with
  | nil =>
    simp only [fillRandIndexes] at h
    split at h
    · cases h
    · cases h
      exact ⟨rfl, by omega⟩
  | cons rand rands ih =>
    simp only [fillRandIndexes] at h
    split at h
    · rename_i hlt
      split at h
      · cases h
      · rename_i v hget
        split at h
        · rename_i hv
          rw [hv] at hget
          -- A clear entry: it is set, and the counter moves with the count.
          have hset := countP_set_clear hget
          obtain ⟨hlen, hamount⟩ := ih (by rw [hset]; push_cast; omega) (by omega) h
          exact ⟨by simpa using hlen, hamount⟩
        · -- An entry that is set already costs the number and leaves the counter.
          exact ih hcount hi h
    · cases h
      exact ⟨rfl, by omega⟩

/-- The filling loop never leaves the array, and never runs on a null array. -/
theorem fillRandIndexes_ne_fault {capacity amount i : Int} {randIndexes : List Int}
    {rands : List Nat} (hcap : 0 < capacity) (hlen : (randIndexes.length : Int) = capacity)
    (e : MemFault) : fillRandIndexes capacity amount i randIndexes rands ≠ .fault e := by
  induction rands generalizing i randIndexes with
  | nil =>
    simp only [fillRandIndexes]
    split <;> exact fun h => by cases h
  | cons rand rands ih =>
    -- `rand() % capacity` is an index of the array.
    have hnonneg := Int.emod_nonneg (rand : Int) (show capacity ≠ 0 by omega)
    have hlt := Int.emod_lt_of_pos (rand : Int) hcap
    simp only [fillRandIndexes]
    split
    · split
      · rename_i hget
        rw [List.getElem?_eq_none_iff] at hget
        omega
      · split
        · exact ih (by simpa using hlen)
        · exact ih hlen
    · exact fun h => by cases h

/-! ## Every mask can be drawn -/

/-- An entry on the way to its value in the mask: it has it, or it is yet to be set. -/
def OnTheWay (v bit : Int) : Prop := v = bit ∨ v = 0 ∧ bit = 1

/-- An array on the way to a mask is there, or has an index that is yet to be drawn. -/
private theorem onTheWay_missing {randIndexes mask : List Int}
    (h : List.Forall₂ OnTheWay randIndexes mask) : randIndexes = mask ∨
      ∃ i, randIndexes[i]? = some 0 ∧ List.Forall₂ OnTheWay (randIndexes.set i 1) mask := by
  induction h with
  | nil => exact .inl rfl
  | @cons v bit randIndexes mask hv hrest ih =>
    rcases hv with rfl | ⟨rfl, rfl⟩
    · -- The first entry is right: look further.
      rcases ih with rfl | ⟨i, hi, hset⟩
      · exact .inl rfl
      · exact .inr ⟨i + 1, by simpa using hi, .cons (.inl rfl) hset⟩
    · exact .inr ⟨0, rfl, .cons (.inl rfl) hrest⟩

/-- An array on the way to a mask has no more set entries than the mask. -/
private theorem onTheWay_countP_le {randIndexes mask : List Int}
    (h : List.Forall₂ OnTheWay randIndexes mask) :
    randIndexes.countP (· ≠ 0) ≤ mask.countP (· ≠ 0) := by
  induction h with
  | nil => exact Nat.le_refl 0
  | @cons v bit randIndexes mask hv hrest ih =>
    rw [List.countP_cons, List.countP_cons]
    rcases hv with rfl | ⟨rfl, rfl⟩
    · omega
    · -- An entry that is yet to be set counts for the mask only.
      rw [if_neg (by decide)]
      omega

/-- Some values of `rand()` fill the array up to any mask that it is on the way to. -/
theorem fillRandIndexes_reaches {capacity i : Int} {randIndexes mask : List Int}
    (hlen : (randIndexes.length : Int) = capacity)
    (hcount : (randIndexes.countP (· ≠ 0) : Int) = i)
    (hway : List.Forall₂ OnTheWay randIndexes mask) :
    ∃ rands, fillRandIndexes capacity (mask.countP (· ≠ 0)) i randIndexes rands = .ok mask := by
  -- The induction is on the number of indexes that are yet to be drawn.
  generalize hn : mask.countP (· ≠ 0) - randIndexes.countP (· ≠ 0) = n
  induction n generalizing i randIndexes with
  | zero =>
    rcases onTheWay_missing hway with rfl | ⟨j, hj, hset⟩
    · refine ⟨[], ?_⟩
      rw [fillRandIndexes, if_neg (by omega)]
    · -- One more set entry would be one too many.
      have hle := onTheWay_countP_le hset
      rw [countP_set_clear hj] at hle
      omega
  | succ n ih =>
    rcases onTheWay_missing hway with rfl | ⟨j, hj, hset⟩
    · omega
    · have hclear := countP_set_clear hj
      have hj' : j < randIndexes.length := (List.getElem?_eq_some_iff.mp hj).1
      obtain ⟨rands, hrands⟩ := ih (i := i + 1) (by simpa using hlen)
        (by rw [hclear]; push_cast; omega) hset (by omega)
      -- The missing index itself is a value of `rand()` that draws it.
      refine ⟨j :: rands, ?_⟩
      have hindex : ((j : Int) % capacity).toNat = j := by
        rw [Int.emod_eq_of_lt (by omega) (by omega), Int.toNat_natCast]
      rw [fillRandIndexes, if_pos (by omega)]
      simp only [hindex, hj, if_true, hrands]

/-- Every mask with one bit for each place is drawn for some values of `rand()`. -/
theorem getRandomIndexes_reaches {capacity : Int} {mask : List Int}
    (hlen : (mask.length : Int) = capacity) (hbits : ∀ bit ∈ mask, bit = 0 ∨ bit = 1) :
    ∃ rands, getRandomIndexes true capacity (mask.countP (· ≠ 0)) rands = .ok (some mask) := by
  have hway : List.Forall₂ OnTheWay (List.replicate capacity.toNat 0) mask := by
    rw [show capacity.toNat = mask.length by omega]
    clear hlen
    induction mask with
    | nil => exact .nil
    | cons bit mask ih =>
      refine .cons ?_ (ih fun b hb => hbits b (List.mem_cons_of_mem _ hb))
      rcases hbits bit List.mem_cons_self with rfl | rfl
      · exact .inl rfl
      · exact .inr ⟨rfl, rfl⟩
  have hreplicate : ((List.replicate capacity.toNat (0 : Int)).length : Int) = capacity := by
    rw [List.length_replicate]
    omega
  obtain ⟨rands, hrands⟩ := fillRandIndexes_reaches (i := 0) hreplicate (by simp) hway
  refine ⟨rands, ?_⟩
  simp only [getRandomIndexes, if_true, hrands]
  rfl

/-- The mask of a random drop: one entry per place, `amount` of them set. -/
theorem getRandomIndexes_spec {capacity amount : Int} {rands : List Nat} {mask : List Int}
    (hamount : 0 ≤ amount) (h : getRandomIndexes true capacity amount rands = .ok (some mask)) :
    mask.length = capacity.toNat ∧ (mask.countP (· ≠ 0) : Int) = amount := by
  simp only [getRandomIndexes, if_true] at h
  obtain ⟨filled, hfill, hmask⟩ := Outcome.bind_eq_ok.mp h
  cases hmask
  have hspec := fillRandIndexes_spec (by simp) hamount hfill
  simpa using hspec

/-- With memory for its array, drawing the indexes does not go wrong. -/
theorem getRandomIndexes_ne_fault {capacity amount : Int} {rands : List Nat} (hcap : 0 < capacity)
    (e : MemFault) : getRandomIndexes true capacity amount rands ≠ .fault e := by
  simp only [getRandomIndexes, if_true]
  intro h
  cases hfill : fillRandIndexes capacity amount 0 (List.replicate capacity.toNat 0) rands with
  | stuck => rw [hfill] at h; cases h
  | ok mask => rw [hfill] at h; cases h
  | fault e' =>
    exact fillRandIndexes_ne_fault hcap (by simp; omega) e' hfill

end OsWet.MessageQueue
