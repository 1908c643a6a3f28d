import OsWet.ForStd.Machine
import Mathlib.Logic.Function.Basic

/-!
# Strings in buffers of fixed sizes

Code that builds strings in buffers `ι`, each of which has a size. Storing a string takes one
place more than its length, for the terminator, and the code goes wrong at the buffer that is
too small.

`Fits x Q` says that `x` stores nothing that is too long, and ends with `Q`. The rules are
equivalences that follow the code, so that rewriting with them computes the exact condition for
its strings to fit.
-/

namespace OsWet

variable {ι α : Type} {β γ : Type}

/-- Code on buffers. Its fault is the buffer that is too small. -/
abbrev BufferCode (ι α : Type) : Type → Type := StateT (ι → List α) (Outcome ι)

/-- The string in a buffer. -/
def held (i : ι) : BufferCode ι α (List α) := fun buffers => .ok (buffers i, buffers)

/-- A string is stored in a buffer, if it fits. -/
def store [DecidableEq ι] (size : ι → Nat) (i : ι) (s : List α) : BufferCode ι α Unit :=
  fun buffers =>
    if s.length < size i then .ok ((), Function.update buffers i s) else .fault i

/-- A terminator is put into the string in a buffer. -/
def cut [DecidableEq ι] (i : ι) (n : Nat) : BufferCode ι α Unit :=
  fun buffers => .ok ((), Function.update buffers i ((buffers i).take n))

/-- The code stores nothing that is too long, and ends with `Q`. -/
def Fits (x : BufferCode ι α β) (Q : β → (ι → List α) → Prop) (buffers : ι → List α) : Prop :=
  ∃ b buffers', x.run buffers = .ok (b, buffers') ∧ Q b buffers'

section Rules

variable {Q : β → (ι → List α) → Prop} {buffers : ι → List α}

/-- Returning stores nothing. -/
@[simp] theorem fits_pure {b : β} : Fits (pure b) Q buffers ↔ Q b buffers := by
  constructor
  · intro h
    obtain ⟨b', buffers', hrun, hQ⟩ := h
    cases hrun
    exact hQ
  · intro h
    exact ⟨b, buffers, rfl, h⟩

/-- A sequence fits if its first part does, and then the rest. -/
@[simp] theorem fits_bind {x : BufferCode ι α γ} {f : γ → BufferCode ι α β} :
    Fits (x >>= f) Q buffers ↔ Fits x (fun c => Fits (f c) Q) buffers := by
  constructor
  · intro h
    obtain ⟨b, buffers', hrun, hQ⟩ := h
    rw [StateT.run_bind] at hrun
    obtain ⟨⟨c, buffers₁⟩, hfirst, hrest⟩ := Outcome.bind_eq_ok.mp hrun
    exact ⟨c, buffers₁, hfirst, b, buffers', hrest, hQ⟩
  · intro h
    obtain ⟨c, buffers₁, hfirst, b, buffers', hrest, hQ⟩ := h
    refine ⟨b, buffers', ?_, hQ⟩
    rw [StateT.run_bind, hfirst]
    exact hrest

/-- Reading a buffer stores nothing. -/
@[simp] theorem fits_held {i : ι} {Q : List α → (ι → List α) → Prop} :
    Fits (held i) Q buffers ↔ Q (buffers i) buffers := by
  constructor
  · intro h
    obtain ⟨s, buffers', hrun, hQ⟩ := h
    cases hrun
    exact hQ
  · intro h
    exact ⟨_, _, rfl, h⟩

/-- A store fits if there is room for the terminator as well. -/
@[simp] theorem fits_store [DecidableEq ι] {size : ι → Nat} {i : ι} {s : List α}
    {Q : Unit → (ι → List α) → Prop} : Fits (store size i s) Q buffers ↔
      s.length < size i ∧ Q () (Function.update buffers i s) := by
  constructor
  · intro h
    obtain ⟨⟨⟩, buffers', hrun, hQ⟩ := h
    simp only [store, StateT.run] at hrun
    split at hrun
    case isTrue hlength =>
      cases hrun
      exact ⟨hlength, hQ⟩
    case isFalse => cases hrun
  · intro h
    obtain ⟨hlength, hQ⟩ := h
    exact ⟨(), _, if_pos hlength, hQ⟩

/-- Cutting a string off always fits. -/
@[simp] theorem fits_cut [DecidableEq ι] {i : ι} {n : Nat} {Q : Unit → (ι → List α) → Prop} :
    Fits (cut i n) Q buffers ↔ Q () (Function.update buffers i ((buffers i).take n)) := by
  constructor
  · intro h
    obtain ⟨⟨⟩, buffers', hrun, hQ⟩ := h
    cases hrun
    exact hQ
  · intro h
    exact ⟨_, _, rfl, h⟩

/-- A branch fits if the branch that is taken does. -/
theorem fits_ite {c : Prop} [Decidable c] {x y : BufferCode ι α β} :
    Fits (if c then x else y) Q buffers ↔
      if c then Fits x Q buffers else Fits y Q buffers := by
  split
  · rfl
  · rfl

end Rules

end OsWet
