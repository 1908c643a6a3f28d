import OsWet.ForStd.Forest

/-!
# What is below a node when a tree changes

For each way of changing a `RootedTree`, who is below whom afterwards, and by how much a sum
over the descendants of a node changes: a new leaf adds to the sums of the nodes above it, a
leaf that goes takes from them, and children that are handed over move their whole subtrees
from the nodes above the old parent to those above the new one.
-/

namespace OsWet.RootedTree

universe u v

variable {α : Type u} {T : RootedTree α} {a c p q r t : α}

/-- Two nodes with a common descendant are comparable. -/
theorem descends_comparable (hq : T.Descends q c) (ht : T.Descends t c) :
    q = t ∨ T.Descends q t ∨ T.Descends t q := by
  have hunique : Relator.RightUnique (Function.swap T.IsChild) :=
    fun _ _ _ h h' => IsChild.unique h h'
  obtain h | h := Relation.ReflTransGen.total_of_right_unique hunique
    (Relation.reflTransGen_swap.mpr hq.to_reflTransGen)
    (Relation.reflTransGen_swap.mpr ht.to_reflTransGen)
  · rw [Relation.reflTransGen_swap, Relation.reflTransGen_iff_eq_or_transGen] at h
    exact h.imp id .inr
  · rw [Relation.reflTransGen_swap, Relation.reflTransGen_iff_eq_or_transGen] at h
    exact h.imp Eq.symm .inl

/-- A node is below another through its parent. -/
theorem descends_iff_of_ne (hc : T.IsChild p c) (hne : t ≠ p) :
    T.Descends t c ↔ T.Descends t p := by
  rw [descends_iff_parent hc]
  exact or_iff_right hne

variable [DecidableEq α]

/-! ## Who is below whom -/

/-- The new leaf is below its parent and the nodes above that. -/
theorem insert_descends {ha : a ∉ T.nodes} {hp : p ∈ T.nodes} :
    (T.insert a p ha hp).Descends q c ↔
      T.Descends q c ∨ c = a ∧ (q = p ∨ T.Descends q p) := by
  have hold : ∀ {x y}, T.Descends x y → (T.insert a p ha hp).Descends x y :=
    fun h => Relation.TransGen.mono (fun _ _ hxy => T.insert_isChild.mpr (.inl hxy)) _ _ h
  have hnew : (T.insert a p ha hp).IsChild p a := T.insert_isChild.mpr (.inr ⟨rfl, rfl⟩)
  constructor
  · intro h
    induction h with
    | single hc =>
      obtain hc | ⟨rfl, rfl⟩ := T.insert_isChild.mp hc
      · exact .inl (.single hc)
      · exact .inr ⟨rfl, .inl rfl⟩
    | @tail b c _ hbc ih =>
      obtain hbc | ⟨rfl, rfl⟩ := T.insert_isChild.mp hbc
      · -- The new leaf has no children.
        have hba : b ≠ a := fun h => ha (h ▸ hbc.parent_mem)
        exact .inl ((ih.resolve_right fun h => hba h.1).tail hbc)
      · have hba : b ≠ c := fun h => ha (h ▸ hp)
        exact .inr ⟨rfl, .inr (ih.resolve_right fun h => hba h.1)⟩
  · rintro (h | ⟨rfl, rfl | h⟩)
    · exact hold h
    · exact .single hnew
    · exact (hold h).tail hnew

/-- The others are as far below each other as they were. -/
theorem erase_descends {hroot : a ≠ T.root} {hleaf : ∀ c, ¬ T.IsChild a c} :
    (T.erase a hroot hleaf).Descends q c ↔ T.Descends q c ∧ c ≠ a := by
  constructor
  · intro h
    induction h with
    | single hc =>
      obtain ⟨hc, hca⟩ := T.erase_isChild.mp hc
      exact ⟨.single hc, hca⟩
    | tail _ hbc ih =>
      obtain ⟨hbc, hca⟩ := T.erase_isChild.mp hbc
      exact ⟨ih.1.tail hbc, hca⟩
  · intro h
    obtain ⟨h, hca⟩ := h
    induction h with
    | single hc => exact .single (T.erase_isChild.mpr ⟨hc, hca⟩)
    | @tail b c _ hbc ih =>
      -- A node on the way has a child, so it is not the leaf.
      have hba : b ≠ a := fun h => hleaf c (h ▸ hbc)
      exact (ih hba).tail (T.erase_isChild.mpr ⟨hbc, hca⟩)

/-- What was below `t` is now below `r`, and what is above `r`. -/
theorem reparent_descends {hr : r ∈ T.nodes} {hbelow : ¬ T.Descends t r} :
    (T.reparent t r hr hbelow).Descends q c ↔
      T.Descends q c ∧ (T.Descends t q ∨ ¬ T.Descends t c) ∨
        T.Descends t c ∧ (q = r ∨ T.Descends q r) := by
  constructor
  · intro h
    induction h with
    | @single c hc =>
      obtain ⟨hqc, hqt⟩ | ⟨rfl, htc⟩ := T.reparent_isChild.mp hc
      · rw [descends_iff_of_ne hqc hqt.symm]
        exact .inl ⟨.single hqc, Classical.em _⟩
      · exact .inr ⟨.single htc, .inl rfl⟩
    | @tail b c _ hbc ih =>
      obtain ⟨hbc, hbt⟩ | ⟨rfl, htc⟩ := T.reparent_isChild.mp hbc
      · rw [descends_iff_of_ne hbc hbt.symm]
        exact ih.imp_left fun h => ⟨h.1.tail hbc, h.2⟩
      · -- The path has come to `r`, which is not below `t`.
        obtain ⟨hqr, -⟩ | ⟨htr, -⟩ := ih
        · exact .inr ⟨.single htc, .inr hqr⟩
        · exact absurd htr hbelow
  · -- A path that never leaves `t` downwards is still there.
    have hstays : ∀ {x y}, T.Descends x y → (T.Descends t x ∨ ¬ T.Descends t y) →
        (T.reparent t r hr hbelow).Descends x y := by
      intro x y hxy hside
      induction hxy with
      | @single y hy =>
        refine .single (T.reparent_isChild.mpr (.inl ⟨hy, ?_⟩))
        rintro rfl
        exact hside.elim not_descends_self fun h => h (.single hy)
      | @tail b y hxb hby ih =>
        have hbt : b ≠ t := by
          rintro rfl
          exact hside.elim (fun h => not_descends_self (h.trans hxb)) fun h => h (.single hby)
        refine (ih (hside.imp_right fun h h' => h (h'.tail hby))).tail ?_
        exact T.reparent_isChild.mpr (.inl ⟨hby, hbt⟩)
    rintro (⟨h, hside⟩ | ⟨htc, hqr⟩)
    · exact hstays h hside
    · have hrc : (T.reparent t r hr hbelow).Descends r c := by
        induction htc with
        | single hc => exact .single (T.reparent_isChild.mpr (.inr ⟨rfl, hc⟩))
        | @tail b c htb hbc ih =>
          have hbt : b ≠ t := fun h => not_descends_self (h ▸ htb : T.Descends b b)
          exact ih.tail (T.reparent_isChild.mpr (.inl ⟨hbc, hbt⟩))
      obtain rfl | hqr := hqr
      · exact hrc
      · exact (hstays hqr (.inr hbelow)).trans hrc

/-! ## Sums -/

variable {M : Type v} [AddCommMonoid M] (w : α → M)

open scoped Classical in
/-- A new leaf adds to the sums of the nodes above it. -/
theorem sum_insert {ha : a ∉ T.nodes} {hp : p ∈ T.nodes} :
    ∑ b ∈ (T.insert a p ha hp).descendants q, w b =
      ∑ b ∈ T.descendants q, w b + if q = p ∨ T.Descends q p then w a else 0 := by
  have hnew : a ∉ T.descendants q := fun h => ha (T.descendants_subset q h)
  by_cases habove : q = p ∨ T.Descends q p
  · have hdesc : (T.insert a p ha hp).descendants q = Insert.insert a (T.descendants q) := by
      ext b
      simp [mem_descendants, insert_descends, habove, or_comm]
    rw [hdesc, Finset.sum_insert hnew, if_pos habove, add_comm]
  · have hdesc : (T.insert a p ha hp).descendants q = T.descendants q := by
      ext b
      simp [mem_descendants, insert_descends, habove]
    rw [hdesc, if_neg habove, add_zero]

open scoped Classical in
/-- A leaf that goes takes from the sums of the nodes above it. -/
theorem sum_erase {hroot : a ≠ T.root} {hleaf : ∀ c, ¬ T.IsChild a c} :
    ∑ b ∈ (T.erase a hroot hleaf).descendants q, w b + (if T.Descends q a then w a else 0) =
      ∑ b ∈ T.descendants q, w b := by
  have hdesc : (T.erase a hroot hleaf).descendants q = (T.descendants q).erase a := by
    ext b
    simp [mem_descendants, erase_descends, and_comm]
  rw [hdesc]
  by_cases habove : T.Descends q a
  · rw [if_pos habove, Finset.sum_erase_add _ _ (mem_descendants.mpr habove)]
  · rw [if_neg habove, add_zero,
      Finset.erase_eq_of_notMem fun h => habove (mem_descendants.mp h)]

open scoped Classical in
/-- Children that are handed over move the sum below their old parent from the nodes above
    that to the nodes above the new one. -/
theorem sum_reparent {hr : r ∈ T.nodes} {hbelow : ¬ T.Descends t r} :
    ∑ b ∈ (T.reparent t r hr hbelow).descendants q, w b +
        (if q = t ∨ T.Descends q t then ∑ b ∈ T.descendants t, w b else 0) =
      ∑ b ∈ T.descendants q, w b +
        if q = r ∨ T.Descends q r then ∑ b ∈ T.descendants t, w b else 0 := by
  by_cases hin : T.Descends t q
  · -- Below `t` nothing changes, and nothing there is above `t` or `r`.
    have ht : ¬ (q = t ∨ T.Descends q t) := by
      rintro (rfl | h)
      · exact not_descends_self hin
      · exact not_descends_self (h.trans hin)
    have hr' : ¬ (q = r ∨ T.Descends q r) := by
      rintro (rfl | h)
      · exact hbelow hin
      · exact hbelow (hin.trans h)
    have hdesc : (T.reparent t r hr hbelow).descendants q = T.descendants q := by
      ext b
      simp [mem_descendants, reparent_descends, hin, hr']
    rw [hdesc, if_neg ht, if_neg hr']
  · have hkept : ∑ b ∈ T.descendants q \ T.descendants t, w b +
        (if q = t ∨ T.Descends q t then ∑ b ∈ T.descendants t, w b else 0) =
        ∑ b ∈ T.descendants q, w b := by
      by_cases habove : q = t ∨ T.Descends q t
      · rw [if_pos habove]
        apply Finset.sum_sdiff
        intro b hb
        rw [mem_descendants] at hb ⊢
        obtain rfl | h := habove
        · exact hb
        · exact h.trans hb
      · rw [if_neg habove, add_zero, Finset.sdiff_eq_self_of_disjoint]
        -- A node below both would make them comparable.
        rw [Finset.disjoint_left]
        intro b hq ht
        rw [mem_descendants] at hq ht
        obtain h | h | h := descends_comparable hq ht
        · exact habove (.inl h)
        · exact habove (.inr h)
        · exact hin h
    have hmoved : ∑ b ∈ (T.reparent t r hr hbelow).descendants q, w b =
        ∑ b ∈ T.descendants q \ T.descendants t, w b +
          if q = r ∨ T.Descends q r then ∑ b ∈ T.descendants t, w b else 0 := by
      by_cases habove : q = r ∨ T.Descends q r
      · have hdesc : (T.reparent t r hr hbelow).descendants q =
            T.descendants q \ T.descendants t ∪ T.descendants t := by
          ext b
          simp only [mem_descendants, reparent_descends, Finset.mem_union, Finset.mem_sdiff, hin,
            habove, false_or, and_true]
        rw [hdesc, Finset.sum_union Finset.sdiff_disjoint, if_pos habove]
      · have hdesc : (T.reparent t r hr hbelow).descendants q =
            T.descendants q \ T.descendants t := by
          ext b
          simp [mem_descendants, reparent_descends, hin, habove]
        rw [hdesc, if_neg habove, add_zero]
    rw [hmoved, ← hkept]
    exact add_right_comm _ _ _

end OsWet.RootedTree
