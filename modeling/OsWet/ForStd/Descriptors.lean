import OsWet.ForStd.Machine
import Mathlib.Logic.Function.Basic

/-!
# The descriptor table of a process

A descriptor refers to an open file; open files are numbered in the order in which they
come to be. The kernel chooses the number of a new descriptor: the operations that make
one take it as an answer, and are stuck when it is taken already.
-/

namespace OsWet

/-- A descriptor table. Descriptors are not negative, and the number `next` is not in
    use. -/
structure Descriptors where
  file : Int → Option Nat
  next : Nat
  valid : ∀ fd f, file fd = some f → 0 ≤ fd ∧ f < next

namespace Descriptors

variable {ε : Type*} (t : Descriptors)

/-- The descriptor is open. -/
def Open (fd : Int) : Prop := (t.file fd).isSome

instance (fd : Int) : Decidable (t.Open fd) :=
  inferInstanceAs (Decidable ((t.file fd).isSome = true))

/-- A table that gets one valid entry more is valid. -/
private theorem valid_update {next : Nat} (hnext : t.next ≤ next) (fd : Int) {file : Option Nat}
    (hfile : ∀ f, file = some f → 0 ≤ fd ∧ f < next) :
    ∀ fd' f, Function.update t.file fd file fd' = some f → 0 ≤ fd' ∧ f < next := by
  intro fd' f hf
  by_cases heq : fd' = fd
  · subst heq
    rw [Function.update_self] at hf
    exact hfile f hf
  · rw [Function.update_of_ne heq] at hf
    obtain ⟨hfd, hlt⟩ := t.valid fd' f hf
    exact ⟨hfd, Nat.lt_of_lt_of_le hlt hnext⟩

/-- Let `fd` refer to a new open file. -/
def create (fd : Int) (hfd : 0 ≤ fd) : Descriptors where
  file := Function.update t.file fd (some t.next)
  next := t.next + 1
  valid := t.valid_update (Nat.le_succ _) fd fun _ hf =>
    ⟨hfd, Option.some.inj hf ▸ Nat.lt_succ_self _⟩

/-- Let `new` refer to what `old` refers to. -/
def copy (old new : Int) (hnew : 0 ≤ new) : Descriptors where
  file := Function.update t.file new (t.file old)
  next := t.next
  valid := t.valid_update (Nat.le_refl _) new fun f hf => ⟨hnew, (t.valid old f hf).2⟩

/-- `close(fd)`. It fails when `fd` is not open, and changes nothing then. -/
def close (fd : Int) : Descriptors where
  file := Function.update t.file fd none
  next := t.next
  valid := t.valid_update (Nat.le_refl _) fd fun _ hf => by cases hf

/-- A number that the kernel may choose for a new descriptor. -/
def Free (fd : Int) : Prop := 0 ≤ fd ∧ ¬ t.Open fd

instance (fd : Int) : Decidable (t.Free fd) := inferInstanceAs (Decidable (_ ∧ _))

/-- A successful `open`. -/
def openAt (fd : Int) : Outcome ε Descriptors :=
  if h : t.Free fd then .ok (t.create fd h.1) else .stuck

/-- `dup(old)`, which fails when the answer is `none`. -/
def dup (old : Int) (answer : Option Int) : Outcome ε (Int × Descriptors) :=
  match answer with
  | none => .ok (-1, t)
  | some new =>
    if h : t.Open old ∧ t.Free new then .ok (new, t.copy old new h.2.1) else .stuck

/-- `dup2(old, new)`, which fails when `old` is not open or `new` is negative. -/
def dup2 (old new : Int) : Descriptors :=
  if h : t.Open old ∧ 0 ≤ new then t.copy old new h.2 else t

/-- A successful `pipe`. -/
def openPipe (fds : Int × Int) : Outcome ε Descriptors := do
  (← t.openAt fds.1).openAt fds.2

/-! ## What the operations do to a descriptor -/

variable {t}

/-- The answer -1 of a failed call is no open descriptor. -/
theorem not_open_neg_one (t : Descriptors) : ¬ t.Open (-1) := by
  intro h
  obtain ⟨f, hf⟩ := Option.isSome_iff_exists.mp h
  exact absurd (t.valid (-1) f hf).1 (by decide)

/-- The number for the next open file is not in use. -/
theorem file_ne_next (t : Descriptors) (fd : Int) : t.file fd ≠ some t.next :=
  fun h => Nat.lt_irrefl _ (t.valid fd t.next h).2

/-- A new descriptor refers to the new open file. -/
theorem create_file_self (t : Descriptors) (fd : Int) (hfd : 0 ≤ fd) :
    (t.create fd hfd).file fd = some t.next :=
  Function.update_self _ _ _

/-- A new descriptor leaves the others as they are. -/
theorem create_file_of_ne {fd fd' : Int} {hfd : 0 ≤ fd} (h : fd' ≠ fd) :
    (t.create fd hfd).file fd' = t.file fd' :=
  Function.update_of_ne h _ _

/-- A copy refers to the open file that it is a copy of. -/
theorem copy_file_self (t : Descriptors) (old new : Int) (hnew : 0 ≤ new) :
    (t.copy old new hnew).file new = t.file old :=
  Function.update_self _ _ _

/-- A copy leaves the other descriptors as they are. -/
theorem copy_file_of_ne {old new fd : Int} {hnew : 0 ≤ new} (h : fd ≠ new) :
    (t.copy old new hnew).file fd = t.file fd :=
  Function.update_of_ne h _ _

/-- A closed descriptor refers to nothing. -/
theorem close_file_self (t : Descriptors) (fd : Int) : (t.close fd).file fd = none :=
  Function.update_self _ _ _

/-- Closing leaves the other descriptors as they are. -/
theorem close_file_of_ne {fd fd' : Int} (h : fd' ≠ fd) : (t.close fd).file fd' = t.file fd' :=
  Function.update_of_ne h _ _

/-- Closing what is not open changes nothing. -/
theorem close_file_of_not_open {fd : Int} (h : ¬ t.Open fd) (fd' : Int) :
    (t.close fd).file fd' = t.file fd' := by
  by_cases heq : fd' = fd
  · subst heq
    rw [close_file_self]
    exact (Option.not_isSome_iff_eq_none.mp h).symm
  · exact close_file_of_ne heq

/-- After two descriptors have been closed, all the others are as before. -/
theorem close_close_file (t : Descriptors) (a b fd : Int) :
    ((t.close a).close b).file fd = if fd = a ∨ fd = b then none else t.file fd := by
  split
  case isTrue h =>
    by_cases hb : fd = b
    · rw [hb, close_file_self]
    · rw [close_file_of_ne hb, h.resolve_right hb, close_file_self]
  case isFalse h =>
    rw [close_file_of_ne fun hb => h (.inr hb), close_file_of_ne fun ha => h (.inl ha)]

/-- `open` takes a free number. -/
theorem openAt_eq_ok {fd : Int} {t' : Descriptors} :
    (t.openAt fd : Outcome ε Descriptors) = .ok t' ↔ ∃ h : t.Free fd, t' = t.create fd h.1 := by
  unfold openAt
  split
  · simp [*, eq_comm]
  · simp [*]

/-- `dup` fails, or copies an open descriptor to a free number. -/
theorem dup_eq_ok {old : Int} {answer : Option Int} {new : Int} {t' : Descriptors} :
    (t.dup old answer : Outcome ε (Int × Descriptors)) = .ok (new, t') ↔
      answer = none ∧ new = -1 ∧ t' = t ∨
        answer = some new ∧ t.Open old ∧ ∃ h : t.Free new, t' = t.copy old new h.1 := by
  unfold dup
  split
  · grind
  · split
    · grind
    · grind

/-- `pipe` takes two free numbers, the second one after the first is taken. -/
theorem openPipe_eq_ok {fds : Int × Int} {t' : Descriptors} :
    (t.openPipe fds : Outcome ε Descriptors) = .ok t' ↔
      ∃ (h : t.Free fds.1) (h' : (t.create fds.1 h.1).Free fds.2),
        t' = (t.create fds.1 h.1).create fds.2 h'.1 := by
  unfold openPipe
  rw [Outcome.bind_eq_ok]
  constructor
  · intro h
    obtain ⟨t₁, h₁, h₂⟩ := h
    obtain ⟨h, rfl⟩ := openAt_eq_ok.mp h₁
    obtain ⟨h', rfl⟩ := openAt_eq_ok.mp h₂
    exact ⟨h, h', rfl⟩
  · intro h'
    obtain ⟨h, h', rfl⟩ := h'
    exact ⟨_, openAt_eq_ok.mpr ⟨h, rfl⟩, openAt_eq_ok.mpr ⟨h', rfl⟩⟩

/-! ## Tables that keep what was open -/

/-- What was open stays as it was. -/
def Keeps (t t' : Descriptors) : Prop := ∀ fd, t.Open fd → t'.file fd = t.file fd

theorem Keeps.refl (t : Descriptors) : t.Keeps t := fun _ _ => rfl

/-- What was open stays open in a table that is kept. -/
theorem Keeps.open_of {t t' : Descriptors} (h : t.Keeps t') {fd : Int} (hfd : t.Open fd) :
    t'.Open fd := by
  rw [Open, h fd hfd]
  exact hfd

theorem Keeps.trans {t t' t'' : Descriptors} (h : t.Keeps t') (h' : t'.Keeps t'') :
    t.Keeps t'' := by
  intro fd hfd
  rw [h' fd (h.open_of hfd), h fd hfd]

/-- A new descriptor takes nothing away. -/
theorem keeps_create {fd : Int} (h : t.Free fd) : t.Keeps (t.create fd h.1) := by
  intro fd' hfd'
  have hne : fd' ≠ fd := by
    rintro rfl
    exact h.2 hfd'
  exact create_file_of_ne hne

/-- Closing what was not open before takes nothing away. -/
theorem Keeps.close {t t' : Descriptors} (h : t.Keeps t') {fd : Int} (hfd : ¬ t.Open fd) :
    t.Keeps (t'.close fd) := by
  intro fd' hfd'
  have hne : fd' ≠ fd := by
    rintro rfl
    exact hfd hfd'
  rw [close_file_of_ne hne, h fd' hfd']

/-- What `create` made, `close` takes away. -/
theorem close_create_file {fd : Int} (h : t.Free fd) (fd' : Int) :
    ((t.create fd h.1).close fd).file fd' = t.file fd' := by
  by_cases heq : fd' = fd
  · subst heq
    rw [close_file_self]
    exact (Option.not_isSome_iff_eq_none.mp h.2).symm
  · rw [close_file_of_ne heq, create_file_of_ne heq]

/-! ## Tables with the same open descriptors -/

/-- The same descriptors are open, and the standard ones refer to the same open files. -/
structure Conserved (t t' : Descriptors) : Prop where
  open_iff : ∀ fd, t'.Open fd ↔ t.Open fd
  std : ∀ fd, 0 ≤ fd → fd ≤ 2 → t'.file fd = t.file fd

theorem Conserved.refl (t : Descriptors) : t.Conserved t := ⟨fun _ => Iff.rfl, fun _ _ _ => rfl⟩

theorem Conserved.trans {t t' t'' : Descriptors} (h : t.Conserved t') (h' : t'.Conserved t'') :
    t.Conserved t'' :=
  ⟨fun fd => (h'.open_iff fd).trans (h.open_iff fd),
    fun fd h₀ h₂ => (h'.std fd h₀ h₂).trans (h.std fd h₀ h₂)⟩

theorem Conserved.symm {t t' : Descriptors} (h : t.Conserved t') : t'.Conserved t :=
  ⟨fun fd => (h.open_iff fd).symm, fun fd h₀ h₂ => (h.std fd h₀ h₂).symm⟩

/-- Tables with the same entries have the same open descriptors. -/
theorem conserved_of_file_eq {t t' : Descriptors} (h : ∀ fd, t'.file fd = t.file fd) :
    t.Conserved t' :=
  ⟨fun fd => by rw [Open, Open, h fd], fun fd _ _ => h fd⟩

/-- A table that keeps another one conserves it when nothing new is open. -/
theorem Keeps.conserved_iff {t t' : Descriptors} (h : t.Keeps t') :
    t.Conserved t' ↔ ∀ fd, t'.Open fd → t.Open fd := by
  constructor
  · exact fun hc fd hfd => (hc.open_iff fd).mp hfd
  · intro hback
    have hfile : ∀ fd, t'.file fd = t.file fd := by
      intro fd
      by_cases hfd : t.Open fd
      · exact h fd hfd
      · have hfd' : ¬ t'.Open fd := fun h' => hfd (hback fd h')
        rw [Option.not_isSome_iff_eq_none.mp hfd, Option.not_isSome_iff_eq_none.mp hfd']
    exact conserved_of_file_eq hfile

/-- Along tables that only grow, the last conserves the first when every step does. -/
theorem Keeps.conserved_trans_iff {t t' t'' : Descriptors} (h : t.Keeps t')
    (h' : t'.Keeps t'') : t.Conserved t'' ↔ t.Conserved t' ∧ t'.Conserved t'' := by
  constructor
  · intro hc
    have hback := (h.trans h').conserved_iff.mp hc
    refine ⟨h.conserved_iff.mpr fun fd hfd => hback fd (h'.open_of hfd), ?_⟩
    exact h'.conserved_iff.mpr fun fd hfd => h.open_of (hback fd hfd)
  · exact fun ⟨hc, hc'⟩ => hc.trans hc'

/-- A descriptor that is open afterwards and was not before is a leak. -/
theorem not_conserved_of_open {t t' : Descriptors} {fd : Int} (h : ¬ t.Open fd)
    (h' : t'.Open fd) : ¬ t.Conserved t' := fun hc => h ((hc.open_iff fd).mp h')

/-- Closing something conserves the table when it was not open. -/
theorem conserved_close_iff {fd : Int} : t.Conserved (t.close fd) ↔ ¬ t.Open fd := by
  constructor
  · intro hc hfd
    have hclosed := (hc.open_iff fd).mpr hfd
    rw [Open, close_file_self] at hclosed
    cases hclosed
  · exact fun h => conserved_of_file_eq (close_file_of_not_open h)

/-- Closing two numbers changes nothing exactly when neither was open. -/
theorem conserved_close_close_iff {a b : Int} :
    t.Conserved ((t.close a).close b) ↔ ¬ t.Open a ∧ ¬ t.Open b := by
  constructor
  · intro hc
    have hnot : ∀ fd, fd = a ∨ fd = b → ¬ t.Open fd := by
      intro fd hfd hopen
      have hclosed := (hc.open_iff fd).mpr hopen
      rw [Open, close_close_file, if_pos hfd] at hclosed
      cases hclosed
    exact ⟨hnot a (.inl rfl), hnot b (.inr rfl)⟩
  · intro h
    obtain ⟨ha, hb⟩ := h
    have hca := conserved_close_iff.mpr ha
    exact hca.trans (conserved_close_iff.mpr fun h => hb ((hca.open_iff b).mp h))

/-- What `pipe` opened, two calls of `close` take away. -/
theorem close_close_create_create_file {a b : Int} (ha : t.Free a)
    (hb : (t.create a ha.1).Free b) (fd : Int) :
    ((((t.create a ha.1).create b hb.1).close a).close b).file fd = t.file fd := by
  have hb₀ : ¬ t.Open b := fun h => hb.2 ((keeps_create ha).open_of h)
  rw [close_close_file]
  split
  case isTrue h =>
    obtain rfl | rfl := h
    · exact (Option.not_isSome_iff_eq_none.mp ha.2).symm
    · exact (Option.not_isSome_iff_eq_none.mp hb₀).symm
  case isFalse h =>
    rw [create_file_of_ne fun h' => h (.inr h'), create_file_of_ne fun h' => h (.inl h')]

end Descriptors

end OsWet
