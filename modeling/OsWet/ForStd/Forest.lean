import Mathlib.Logic.Relation
import Mathlib.Logic.Function.Iterate
import Mathlib.Algebra.BigOperators.Group.Finset.Basic

/-!
# Finite rooted trees given by parent pointers

A `RootedTree` is a finite set of nodes with a parent function under which every node
reaches the root, which is its own parent. Nodes can be added below others, the
children of one node can be handed to another that is not below it, and leaves can be
removed; the structure carries the proof that the result is a tree again.

- `RootedTree.not_descends_self`: no node is below itself
- `RootedTree.childInduction`: induction from the children of a node to the node
- `RootedTree.sum_descendants`: a sum over all descendants, by way of the children
-/

namespace OsWet

universe u v

/-- A finite set of nodes in which following `parent` leads from everywhere to `root`. -/
structure RootedTree (α : Type u) where
  nodes : Finset α
  parent : α → α
  root : α
  root_mem : root ∈ nodes
  parent_root : parent root = root
  parent_mem : ∀ a ∈ nodes, parent a ∈ nodes
  reaches : ∀ a ∈ nodes, ∃ n, parent^[n] a = root

namespace RootedTree

variable {α : Type u} (T : RootedTree α)

/-- `c` is a node with the parent `p`. The root is nobody's child, though it is its own
    parent. -/
def IsChild (p c : α) : Prop := c ∈ T.nodes ∧ c ≠ T.root ∧ T.parent c = p

/-- `c` is strictly below `p`. -/
def Descends (p c : α) : Prop := Relation.TransGen T.IsChild p c

variable {T} {a b c p q : α}

/-- A child is in the tree. -/
theorem IsChild.mem (h : T.IsChild p c) : c ∈ T.nodes := h.1

/-- A parent is in the tree. -/
theorem IsChild.parent_mem (h : T.IsChild p c) : p ∈ T.nodes := h.2.2 ▸ T.parent_mem c h.1

/-- A node has one parent. -/
theorem IsChild.unique (h : T.IsChild p c) (h' : T.IsChild q c) : p = q := h.2.2.symm.trans h'.2.2

/-- The root is nobody's child. -/
theorem not_isChild_root : ¬ T.IsChild p T.root := fun h => h.2.1 rfl

/-- What is below a node is in the tree. -/
theorem Descends.mem (h : T.Descends p c) : c ∈ T.nodes := by
  obtain ⟨b, -, hc⟩ := Relation.TransGen.tail'_iff.mp h
  exact hc.mem

/-- The root is below nobody. -/
theorem not_descends_root : ¬ T.Descends p T.root := by
  intro h
  obtain ⟨b, -, hc⟩ := Relation.TransGen.tail'_iff.mp h
  exact not_isChild_root hc

/-- What is below `p` is `p`'s child, or below the child's parent. -/
theorem descends_iff_parent (hc : T.IsChild p c) : T.Descends a c ↔ a = p ∨ T.Descends a p := by
  constructor
  · intro h
    obtain ⟨b, hab, hbc⟩ := Relation.TransGen.tail'_iff.mp h
    cases hbc.unique hc
    exact (Relation.reflTransGen_iff_eq_or_transGen.mp hab).imp Eq.symm id
  · rintro (rfl | h)
    · exact .single hc
    · exact .tail h hc

/-- No node is below itself: following the parents from it would never lead to the root. -/
theorem not_descends_self : ¬ T.Descends a a := by
  intro h
  obtain ⟨n, hn⟩ := T.reaches a h.mem
  induction n generalizing a with
  | zero => exact not_descends_root (hn ▸ h : T.Descends a T.root)
  | succ n ih =>
    -- The parent of a node on a cycle is on the cycle.
    obtain ⟨p, hap, hpa⟩ := Relation.TransGen.tail'_iff.mp h
    refine ih (Relation.TransGen.head' hpa hap) ?_
    rwa [Function.iterate_succ_apply, hpa.2.2] at hn

/-! ## Changing a tree -/

section Changes

variable [DecidableEq α] (T)

/-- Following a changed parent function from a node whose parents are as they were. -/
private theorem reaches_of_unchanged {parent' : α → α} {P : α → Prop}
    (hsame : ∀ a, P a → a ≠ T.root → parent' a = T.parent a ∧ P (T.parent a)) {n : ℕ} {a : α}
    (ha : P a) (hn : T.parent^[n] a = T.root) : ∃ m, parent'^[m] a = T.root := by
  induction n generalizing a with
  | zero => exact ⟨0, hn⟩
  | succ n ih =>
    by_cases hroot : a = T.root
    · exact ⟨0, hroot⟩
    · obtain ⟨hparent, hP⟩ := hsame a ha hroot
      obtain ⟨m, hm⟩ := ih hP (by rwa [Function.iterate_succ_apply] at hn)
      exact ⟨m + 1, by rw [Function.iterate_succ_apply, hparent, hm]⟩

/-- A new node below `p`. -/
def insert (a p : α) (ha : a ∉ T.nodes) (hp : p ∈ T.nodes) : RootedTree α where
  nodes := Insert.insert a T.nodes
  parent := Function.update T.parent a p
  root := T.root
  root_mem := Finset.mem_insert_of_mem T.root_mem
  parent_root := by
    have hroot : T.root ≠ a := fun h => ha (h ▸ T.root_mem)
    rw [Function.update_of_ne hroot]
    exact T.parent_root
  parent_mem b hb := by
    by_cases hba : b = a
    · subst hba
      rw [Function.update_self]
      exact Finset.mem_insert_of_mem hp
    · rw [Function.update_of_ne hba]
      exact Finset.mem_insert_of_mem
        (T.parent_mem b ((Finset.mem_insert.mp hb).resolve_left hba))
  reaches b hb := by
    have hold : ∀ b ∈ T.nodes, ∃ m, (Function.update T.parent a p)^[m] b = T.root := by
      intro b hb
      obtain ⟨n, hn⟩ := T.reaches b hb
      refine T.reaches_of_unchanged (P := fun b => b ∈ T.nodes) (fun c hc _ => ?_) hb hn
      have hca : c ≠ a := fun h => ha (h ▸ hc)
      exact ⟨Function.update_of_ne hca _ _, T.parent_mem c hc⟩
    rcases Finset.mem_insert.mp hb with rfl | hb
    · obtain ⟨m, hm⟩ := hold p hp
      exact ⟨m + 1, by rw [Function.iterate_succ_apply, Function.update_self, hm]⟩
    · exact hold b hb

/-- The new node is a child of its parent, and the other children are as before. -/
theorem insert_isChild {ha : a ∉ T.nodes} {hp : p ∈ T.nodes} :
    (T.insert a p ha hp).IsChild q c ↔ T.IsChild q c ∨ c = a ∧ q = p := by
  have hroot : a ≠ T.root := fun h => ha (h ▸ T.root_mem)
  simp only [IsChild, insert, Finset.mem_insert]
  by_cases hca : c = a
  · subst hca
    simp [ha, hroot, eq_comm]
  · simp [hca]

/-- All children of `t` become children of `r`, which is not below `t`. -/
def reparent (t r : α) (hr : r ∈ T.nodes) (hbelow : ¬ T.Descends t r) : RootedTree α where
  nodes := T.nodes
  parent c := if c ≠ T.root ∧ T.parent c = t then r else T.parent c
  root := T.root
  root_mem := T.root_mem
  parent_root := by
    rw [if_neg fun h => h.1 rfl]
    exact T.parent_root
  parent_mem b hb := by
    split
    · exact hr
    · exact T.parent_mem b hb
  reaches b hb := by
    -- The way up from `r` meets no child of `t`.
    have hup : ∃ m, (fun c => if c ≠ T.root ∧ T.parent c = t then r else T.parent c)^[m] r =
        T.root := by
      obtain ⟨n, hn⟩ := T.reaches r hr
      refine T.reaches_of_unchanged (P := fun b => b ∈ T.nodes ∧ ¬ T.Descends t b)
        (fun c hc hroot => ?_) ⟨hr, hbelow⟩ hn
      have hchild : T.IsChild (T.parent c) c := ⟨hc.1, hroot, rfl⟩
      have hparent : T.parent c ≠ t := fun h => hc.2 (.single (h ▸ hchild))
      refine ⟨if_neg fun h => hparent h.2, T.parent_mem c hc.1, fun h => ?_⟩
      exact hc.2 (.tail h hchild)
    obtain ⟨m, hm⟩ := hup
    obtain ⟨n, hn⟩ := T.reaches b hb
    induction n generalizing b with
    | zero => exact ⟨0, hn⟩
    | succ n ih =>
      rw [Function.iterate_succ_apply] at hn
      by_cases hmoved : b ≠ T.root ∧ T.parent b = t
      · exact ⟨m + 1, by rw [Function.iterate_succ_apply, if_pos hmoved, hm]⟩
      · obtain ⟨k, hk⟩ := ih (T.parent b) (T.parent_mem b hb) hn
        exact ⟨k + 1, by rw [Function.iterate_succ_apply, if_neg hmoved, hk]⟩

/-- The children that are handed over are now children of the new parent. -/
theorem reparent_isChild {t r : α} {hr : r ∈ T.nodes} {hbelow : ¬ T.Descends t r} :
    (T.reparent t r hr hbelow).IsChild q c ↔ T.IsChild q c ∧ q ≠ t ∨ q = r ∧ T.IsChild t c := by
  simp only [IsChild, reparent]
  by_cases hmoved : c ≠ T.root ∧ T.parent c = t
  · rw [if_pos hmoved]
    obtain ⟨hroot, rfl⟩ := hmoved
    simp only [hroot, ne_eq, not_false_eq_true, true_and, and_true]
    constructor
    · intro h
      obtain ⟨hc, rfl⟩ := h
      exact .inr ⟨rfl, hc⟩
    · rintro (⟨⟨hc, rfl⟩, hne⟩ | ⟨rfl, hc⟩)
      · exact absurd rfl hne
      · exact ⟨hc, rfl⟩
  · rw [if_neg hmoved]
    constructor
    · intro h
      obtain ⟨hc, hroot, rfl⟩ := h
      exact .inl ⟨⟨hc, hroot, rfl⟩, fun h => hmoved ⟨hroot, h⟩⟩
    · rintro (⟨h, -⟩ | ⟨-, -, hroot, h⟩)
      · exact h
      · exact absurd ⟨hroot, h⟩ hmoved

/-- Remove a node that has no children. -/
def erase (a : α) (hroot : a ≠ T.root) (hleaf : ∀ c, ¬ T.IsChild a c) : RootedTree α where
  nodes := T.nodes.erase a
  parent := T.parent
  root := T.root
  root_mem := Finset.mem_erase.mpr ⟨hroot.symm, T.root_mem⟩
  parent_root := T.parent_root
  parent_mem b hb := by
    obtain ⟨hba, hb⟩ := Finset.mem_erase.mp hb
    refine Finset.mem_erase.mpr ⟨fun h => ?_, T.parent_mem b hb⟩
    -- Only the root can be its own parent, and no other node has the parent `a`.
    by_cases hbroot : b = T.root
    · rw [hbroot, T.parent_root] at h
      exact hroot h.symm
    · exact hleaf b ⟨hb, hbroot, h⟩
  reaches b hb := T.reaches b (Finset.mem_of_mem_erase hb)

/-- The children without the one that is erased. -/
theorem erase_isChild {hroot : a ≠ T.root} {hleaf : ∀ c, ¬ T.IsChild a c} :
    (T.erase a hroot hleaf).IsChild q c ↔ T.IsChild q c ∧ c ≠ a := by
  simp only [IsChild, erase, Finset.mem_erase]
  grind

end Changes

/-! ## Descendants -/

section Descendants

open scoped Classical in
/-- The nodes strictly below a node. -/
noncomputable def descendants (T : RootedTree α) (a : α) : Finset α :=
  T.nodes.filter fun b => T.Descends a b

/-- The descendants as a finite set. -/
theorem mem_descendants : b ∈ T.descendants a ↔ T.Descends a b := by
  classical
  rw [descendants, Finset.mem_filter]
  exact ⟨fun h => h.2, fun h => ⟨h.mem, h⟩⟩

theorem descendants_subset (T : RootedTree α) (a : α) : T.descendants a ⊆ T.nodes :=
  fun _ hb => (mem_descendants.mp hb).mem

/-- A child has fewer descendants than its parent. -/
theorem card_descendants_lt (h : T.IsChild a c) :
    (T.descendants c).card < (T.descendants a).card := by
  refine Finset.card_lt_card ⟨fun b hb => ?_, fun hsub => ?_⟩
  · exact mem_descendants.mpr (.head h (mem_descendants.mp hb))
  · exact not_descends_self (mem_descendants.mp (hsub (mem_descendants.mpr (.single h))))

/-- What holds of a node whenever it holds of its children holds of every node. -/
theorem childInduction {motive : α → Prop}
    (h : ∀ a, (∀ c, T.IsChild a c → motive c) → motive a) (a : α) : motive a := by
  induction hn : (T.descendants a).card using Nat.strong_induction_on generalizing a with
  | _ n ih =>
    subst hn
    exact h a fun c hc => ih _ (card_descendants_lt hc) c rfl

/-- Two nodes with a common descendant are one below the other. -/
theorem descends_total (hb : T.IsChild a b) (hc : T.IsChild a c) {d : α}
    (hbd : b = d ∨ T.Descends b d) (hcd : c = d ∨ T.Descends c d) : b = c := by
  have hrefl : ∀ {x y : α}, x = y ∨ T.Descends x y → Relation.ReflTransGen T.IsChild x y := by
    rintro x y (rfl | h)
    · exact .refl
    · exact h.to_reflTransGen
  -- One of two siblings would be below the other, and so the parent below itself.
  have hno : ∀ {x y : α}, T.IsChild a x → T.IsChild a y → ¬ T.Descends x y := by
    intro x y hx hy hxy
    rcases (descends_iff_parent hy).mp hxy with rfl | hxa
    · exact not_descends_self (.single hx)
    · exact not_descends_self (.head hx hxa)
  have hunique : Relator.RightUnique (Function.swap T.IsChild) :=
    fun _ _ _ h h' => IsChild.unique h h'
  have htotal := Relation.ReflTransGen.total_of_right_unique hunique
    (Relation.reflTransGen_swap.mpr (hrefl hbd)) (Relation.reflTransGen_swap.mpr (hrefl hcd))
  rcases htotal with h | h <;> rw [Relation.reflTransGen_swap,
    Relation.reflTransGen_iff_eq_or_transGen] at h
  · exact h.elim id fun h => absurd h (hno hc hb)
  · exact h.elim Eq.symm fun h => absurd h (hno hb hc)

variable {M : Type v} [AddCommMonoid M]

/-- A sum over the descendants of a node, by way of its children. -/
theorem sum_descendants {children : List α} (hnodup : children.Nodup)
    (hmem : ∀ c, c ∈ children ↔ T.IsChild a c) (w : α → M) :
    ∑ b ∈ T.descendants a, w b =
      (children.map fun c => ∑ b ∈ T.descendants c, w b + w c).sum := by
  classical
  -- A task below `a` is a child of `a` or below one.
  have hunion : T.descendants a =
      children.toFinset.biUnion fun c => Insert.insert c (T.descendants c) := by
    ext b
    simp only [mem_descendants, Finset.mem_biUnion, List.mem_toFinset, hmem, Finset.mem_insert]
    constructor
    · intro h
      obtain ⟨c, hac, hcb⟩ := Relation.TransGen.head'_iff.mp h
      exact ⟨c, hac, Relation.reflTransGen_iff_eq_or_transGen.mp hcb⟩
    · rintro ⟨c, hac, rfl | hcb⟩
      · exact .single hac
      · exact .head hac hcb
  rw [hunion, Finset.sum_biUnion, List.sum_toFinset _ hnodup]
  · -- A child is not below itself.
    congr 1
    refine List.map_congr_left fun c _ => ?_
    rw [Finset.sum_insert fun h => not_descends_self (mem_descendants.mp h), add_comm]
  · -- The subtrees of two children have nothing in common.
    intro x hx y hy hxy
    rw [Finset.mem_coe, List.mem_toFinset, hmem] at hx hy
    refine Finset.disjoint_left.mpr fun d hdx hdy => hxy ?_
    simp only [Finset.mem_insert, mem_descendants] at hdx hdy
    exact descends_total hx hy (hdx.imp Eq.symm id) (hdy.imp Eq.symm id)

end Descendants

end RootedTree

end OsWet
