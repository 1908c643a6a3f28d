import OsWet.ForStd.Words
import Mathlib.Data.List.Infix

/-!
# Paths, component by component

A path is split at its separators. An empty component and one dot stay in a directory, two dots
lead to the directory above, and anything else is a name below. A directory is given by the names
that lead to it from the start, the last one first.

## Main rule

- `StaysBelow.of_noDots`: a path without two dots in a row never leaves the start
-/

namespace OsWet.Path

variable {α : Type*} [DecidableEq α] {slash dot : α}

/-- The directory that a component leads to; above the start there is none. -/
def enter (dot : α) (dir : List (List α)) (component : List α) : Option (List (List α)) :=
  if component = [] ∨ component = [dot] then some dir
  else if component = [dot, dot] then dir.tail?
  else some (component :: dir)

/-- The directory that some components lead to from the start. -/
def resolve (dot : α) (components : List (List α)) : Option (List (List α)) :=
  components.foldlM (enter dot) []

/-- The parts of a path between its slashes. -/
def components (slash : α) (path : List α) : List (List α) := path.splitOnP (· == slash)

/-- No part of the path leads above the start. -/
def StaysBelow (slash dot : α) (path : List α) : Prop :=
  ∀ cs, cs <+: components slash path → (resolve dot cs).isSome

/-! ## Components -/

/-- A slash separates components. -/
theorem components_append (a b : List α) :
    components slash (a ++ slash :: b) = components slash a ++ components slash b :=
  List.splitOnP_append_cons a b (beq_self_eq_true slash)

/-- A component stands somewhere in the path. -/
theorem infix_of_mem_components {path c : List α} (h : c ∈ components slash path) :
    c <:+: path :=
  infix_of_mem_splitOnP h

/-! ## Directories -/

/-- Only two dots can lead out of the start. -/
theorem enter_isSome {dir : List (List α)} {c : List α} (h : c ≠ [dot, dot]) :
    (enter dot dir c).isSome := by
  rw [enter, if_neg h]
  split <;> rfl

/-- Without `..` every component can be resolved. -/
theorem resolve_isSome {cs : List (List α)} (h : [dot, dot] ∉ cs) : (resolve dot cs).isSome := by
  suffices hdir : ∀ dir : List (List α), (cs.foldlM (enter dot) dir).isSome from hdir []
  induction cs with
  | nil => exact fun _ => rfl
  | cons c cs ih =>
    intro dir
    rw [List.mem_cons, not_or] at h
    obtain ⟨dir', hdir'⟩ := Option.isSome_iff_exists.mp (@enter_isSome _ _ dot dir c (Ne.symm h.1))
    rw [List.foldlM_cons, hdir']
    exact ih h.2 dir'

/-- A path without a component `..` stays below where it starts. -/
theorem StaysBelow.of_not_mem {path : List α} (h : [dot, dot] ∉ components slash path) :
    StaysBelow slash dot path := by
  intro cs hcs
  exact resolve_isSome fun hmem => h (hcs.mem hmem)

/-- A path without two dots next to each other stays below where it starts. -/
theorem StaysBelow.of_noDots {path : List α} (h : ¬ [dot, dot] <:+: path) :
    StaysBelow slash dot path :=
  .of_not_mem fun hmem => h (infix_of_mem_components hmem)

end OsWet.Path
