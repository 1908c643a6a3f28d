import OsWet.Native.Text

/-!
# Numbers as text

What `%d` and `%lu` print is a string of digits, perhaps after a minus, and `strtol` reads the
number back.
-/

namespace OsWet

namespace Text

/-- A number that is not negative is printed as its digits. -/
theorem toText_natCast (n : Nat) : toText n = Nat.toDigits 10 n := Nat.toList_repr

/-- A negative number has a minus in front of its digits. -/
theorem toText_neg (n : Nat) : toText (.negSucc n) = '-' :: Nat.toDigits 10 (n + 1) := by
  simp [toText, text, Int.repr]

/-- What is printed of a number are digits. -/
theorem isDigit_of_mem {c : Char} {n : Nat} (h : c ∈ Nat.toDigits 10 n) : isDigit c = true := by
  have hdigit := Nat.isDigit_of_mem_toDigits (by decide) (by decide) h
  simpa [isDigit, Char.isDigit, Char.le_def] using hdigit

/-- Only digits and a minus are printed. -/
theorem eq_of_mem_toText {c : Char} {n : Int} (h : c ∈ toText n) : c = '-' ∨ isDigit c = true := by
  cases n with
  | ofNat n =>
    rw [Int.ofNat_eq_natCast, toText_natCast] at h
    exact .inr (isDigit_of_mem h)
  | negSucc n =>
    rw [toText_neg] at h
    rcases List.mem_cons.mp h with hc | h
    · exact .inl hc
    · exact .inr (isDigit_of_mem h)

/-- A number with at most `k` digits is printed with at most `k` characters. -/
theorem length_toText_le {n k : Nat} (hk : 0 < k) (h : n < 10 ^ k) : (toText n).length ≤ k := by
  rw [toText_natCast]
  exact (Nat.length_toDigits_le_iff (by decide) hk).mpr h

/-- The digits are read back one by one. -/
theorem foldl_digits {s : Text} (h : ∀ c ∈ s, isDigit c = true) (n : Nat) :
    s.foldl (fun n c => 10 * n + ((c.toNat : Int) - ('0'.toNat : Int))) (n : Int) =
      Nat.ofDigitChars 10 s n := by
  induction s generalizing n with
  | nil => rfl
  | cons c s ih =>
    rw [List.forall_mem_cons] at h
    have hc : '0'.toNat ≤ c.toNat := by
      have hle := (Bool.and_eq_true_iff.mp h.1).1
      exact of_decide_eq_true hle
    have hcast : (10 * (n : Int) + ((c.toNat : Int) - ('0'.toNat : Int))) =
        ((10 * n + (c.toNat - '0'.toNat) : Nat) : Int) := by omega
    rw [List.foldl_cons, Nat.ofDigitChars_cons, hcast, ih h.2]

/-- The digits of a number are read back as the number. -/
theorem decimal_toDigits (n : Nat) : decimal (Nat.toDigits 10 n) = n := by
  have hdigits : ∀ c ∈ Nat.toDigits 10 n, isDigit c = true := fun _ => isDigit_of_mem
  have hfold := foldl_digits hdigits 0
  rw [Nat.ofDigitChars_ten_toDigits] at hfold
  exact hfold

/-- A string that starts with no white space is left as it is. -/
theorem dropWhile_isSpace {s : Text} (h : ∀ c ∈ s.head?, isSpace c = false) :
    s.dropWhile isSpace = s := by
  cases s with
  | nil => rfl
  | cons c s => exact List.dropWhile_cons_of_neg (by simp [h c rfl])

/-- A string of digits is read as a whole. -/
theorem strtol_of_digits {s digits : Text} {negative : Bool} (hs : ∀ c ∈ s.head?, isSpace c = false)
    (hsign : sign s = (negative, digits)) (hdigits : ∀ c ∈ digits, isDigit c = true)
    (hne : digits ≠ []) : strtol s = (max LONG_MIN (min LONG_MAX
      (if negative then -decimal digits else decimal digits)), []) := by
  have htake : digits.takeWhile isDigit = digits := List.takeWhile_eq_self_iff.mpr hdigits
  have hdrop : digits.dropWhile isDigit = [] := List.dropWhile_eq_nil_iff.mpr hdigits
  rw [strtol, dropWhile_isSpace hs, hsign]
  dsimp only
  rw [htake, if_neg hne, hdrop]

/-- A digit is no white space and no sign. -/
theorem digit_first {c : Char} (h : isDigit c = true) : isSpace c = false ∧ c ≠ '-' ∧ c ≠ '+' := by
  refine ⟨?_, ?_, ?_⟩
  · by_contra hspace
    have hmem : c ∈ WHITESPACE := by simpa [isSpace] using hspace
    simp only [WHITESPACE, List.mem_cons, List.not_mem_nil, or_false] at hmem
    rcases hmem with rfl | rfl | rfl | rfl | rfl | rfl <;> exact absurd h (by decide)
  · intro hc
    subst hc
    exact absurd h (by decide)
  · intro hc
    subst hc
    exact absurd h (by decide)

/-- Digits have no white space and no sign in front of them. -/
theorem sign_of_digits {s : Text} (h : ∀ c ∈ s, isDigit c = true) :
    (∀ c ∈ s.head?, isSpace c = false) ∧ sign s = (false, s) := by
  cases s with
  | nil => exact ⟨fun c hc => (by cases hc), rfl⟩
  | cons c s =>
    obtain ⟨hspace, hminus, hplus⟩ := digit_first (h c List.mem_cons_self)
    refine ⟨fun c' hc' => by cases hc'; exact hspace, ?_⟩
    unfold sign
    split
    · rename_i heq
      exact absurd (List.cons.inj heq).1 hminus
    · rename_i heq
      exact absurd (List.cons.inj heq).1 hplus
    · rfl

/-- What is printed of a number is read back as this number. -/
theorem strtol_toText {n : Int} (hmin : LONG_MIN ≤ n) (hmax : n ≤ LONG_MAX) :
    strtol (toText n) = (n, []) := by
  have hclamp : max LONG_MIN (min LONG_MAX n) = n := by omega
  cases n with
  | ofNat n =>
    have hdigits : ∀ c ∈ Nat.toDigits 10 n, isDigit c = true := fun _ => isDigit_of_mem
    obtain ⟨hspace, hsign⟩ := sign_of_digits hdigits
    rw [Int.ofNat_eq_natCast, toText_natCast,
      strtol_of_digits hspace hsign hdigits Nat.toDigits_ne_nil, decimal_toDigits]
    simpa using hclamp
  | negSucc n =>
    have hsign : sign ('-' :: Nat.toDigits 10 (n + 1)) = (true, Nat.toDigits 10 (n + 1)) := rfl
    have hneg : -((n + 1 : Nat) : Int) = .negSucc n := rfl
    rw [toText_neg, strtol_of_digits (fun c hc => by cases hc; rfl) hsign
      (fun _ => isDigit_of_mem) Nat.toDigits_ne_nil, decimal_toDigits]
    simp only [if_true, hneg, hclamp]

/-- Numbers that print alike are the same. -/
theorem toText_inj {m n : Int} (h : toText m = toText n) : m = n := by
  have hfirst : ∀ k : Nat, '-' ∉ Nat.toDigits 10 k := by
    intro k hk
    exact (digit_first (isDigit_of_mem hk)).2.1 rfl
  have hdecimal : ∀ {j k : Nat}, Nat.toDigits 10 j = Nat.toDigits 10 k → (j : Int) = k := by
    intro j k hjk
    rw [← decimal_toDigits j, hjk, decimal_toDigits]
  cases m with
  | ofNat m =>
    cases n with
    | ofNat n =>
      rw [Int.ofNat_eq_natCast, Int.ofNat_eq_natCast, toText_natCast, toText_natCast] at h
      exact hdecimal h
    | negSucc n =>
      rw [Int.ofNat_eq_natCast, toText_natCast, toText_neg] at h
      exact absurd (h ▸ List.mem_cons_self) (hfirst m)
  | negSucc m =>
    cases n with
    | ofNat n =>
      rw [Int.ofNat_eq_natCast, toText_natCast, toText_neg] at h
      exact absurd (h ▸ List.mem_cons_self) (hfirst n)
    | negSucc n =>
      rw [toText_neg, toText_neg] at h
      have heq := hdecimal (List.cons.inj h).2
      omega

/-! ## Numbers that fit an `int` -/

/-- The values of an `int`. -/
def FitsInt (n : Int) : Prop := -2 ^ 31 ≤ n ∧ n < 2 ^ 31

instance (n : Int) : Decidable (FitsInt n) := inferInstanceAs (Decidable (_ ∧ _))

/-- What is cut to an `int` fits an `int`. -/
theorem toInt_bounds (n : Int) : FitsInt (toInt n) := by
  have hle := Int.le_bmod (x := n) (m := 2 ^ 32) (by decide)
  have hlt := Int.bmod_lt (x := n) (m := 2 ^ 32) (by decide)
  unfold FitsInt toInt
  omega

/-- A `long` survives the conversion to `int` exactly when it fits. -/
theorem toInt_eq_iff (n : Int) : toInt n = n ↔ FitsInt n := by
  constructor
  · intro h
    rw [← h]
    exact toInt_bounds n
  · intro h
    obtain ⟨hmin, hmax⟩ := h
    rw [toInt, Int.bmod_def]
    split <;> omega

end Text

end OsWet
