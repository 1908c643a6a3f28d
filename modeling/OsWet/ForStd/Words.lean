import Mathlib.Data.List.DropRight

/-!
# The words of a list

A list is split at the elements that meet a test, and the pieces that are not empty are
its words. The equation `wordsBy_append_cons` says that splitting at a separator splits
the words; the others follow from it.

Also here: the first place of an element, and where a pattern is first found in a list.
-/

namespace OsWet

variable {α : Type*} {sep : α → Bool}

/-- The maximal nonempty pieces without a separator. -/
def wordsBy (sep : α → Bool) (s : List α) : List (List α) :=
  (s.splitOnP sep).filter fun w => !w.isEmpty

@[simp] theorem wordsBy_nil : wordsBy sep [] = [] := by simp [wordsBy]

/-- A separator ends the words before it. -/
theorem wordsBy_append_cons {c : α} (hc : sep c) (a b : List α) :
    wordsBy sep (a ++ c :: b) = wordsBy sep a ++ wordsBy sep b := by
  rw [wordsBy, List.splitOnP_append_cons a b hc, List.filter_append]
  rfl

/-- Separators at the end belong to no word. -/
theorem wordsBy_append_sep (a : List α) {b : List α} (hb : ∀ c ∈ b, sep c) :
    wordsBy sep (a ++ b) = wordsBy sep a := by
  induction b generalizing a with
  | nil => rw [List.append_nil]
  | cons c b ih =>
    -- What stands behind the separator has no words, by the hypothesis for an empty start.
    have hnil : wordsBy sep b = [] := by
      have h := ih [] fun c' hc' => hb c' (List.mem_cons_of_mem _ hc')
      rwa [List.nil_append, wordsBy_nil] at h
    rw [wordsBy_append_cons (hb c List.mem_cons_self), hnil, List.append_nil]

/-- Separators at the start belong to no word. -/
theorem wordsBy_sep_append {a : List α} (b : List α) (ha : ∀ c ∈ a, sep c) :
    wordsBy sep (a ++ b) = wordsBy sep b := by
  induction a with
  | nil => rfl
  | cons c a ih =>
    have h := wordsBy_append_cons (ha c List.mem_cons_self) [] (a ++ b)
    rw [wordsBy_nil, List.nil_append, List.nil_append] at h
    rw [List.cons_append, h]
    exact ih fun c' hc' => ha c' (List.mem_cons_of_mem _ hc')

/-- Separators in front make no words. -/
theorem wordsBy_dropWhile (s : List α) : wordsBy sep (s.dropWhile sep) = wordsBy sep s := by
  have hsep : ∀ c ∈ s.takeWhile sep, sep c := fun c hc => List.mem_takeWhile_imp hc
  have h := wordsBy_sep_append (s.dropWhile sep) hsep
  rw [List.takeWhile_append_dropWhile] at h
  exact h.symm

/-- What `rdropWhile` drops. -/
theorem exists_rdropWhile_append (p : α → Bool) (s : List α) :
    ∃ dropped, s = s.rdropWhile p ++ dropped ∧ ∀ c ∈ dropped, p c := by
  refine ⟨(s.reverse.takeWhile p).reverse, ?_, fun c hc => ?_⟩
  · rw [List.rdropWhile, ← List.reverse_append, List.takeWhile_append_dropWhile,
      List.reverse_reverse]
  · exact List.mem_takeWhile_imp (List.mem_reverse.mp hc)

/-- Separators behind make no words. -/
theorem wordsBy_rdropWhile (s : List α) : wordsBy sep (s.rdropWhile sep) = wordsBy sep s := by
  obtain ⟨dropped, hs, hsep⟩ := exists_rdropWhile_append sep s
  conv_rhs => rw [hs, wordsBy_append_sep _ hsep]

/-- A piece without separators is a word, unless it is empty. -/
theorem wordsBy_eq_singleton {w : List α} (hne : w ≠ []) (hw : ∀ c ∈ w, sep c = false) :
    wordsBy sep w = [w] := by
  rw [wordsBy, List.splitOnP_eq_singleton hw]
  simp [hne]

/-- There is no separator inside a word. -/
private theorem not_sep_of_mem_splitOnP {s w : List α} (h : w ∈ s.splitOnP sep) :
    ∀ c ∈ w, sep c = false := by
  induction s generalizing w with
  | nil =>
    rw [List.splitOnP_nil, List.mem_singleton] at h
    subst h
    exact fun _ hc => absurd hc List.not_mem_nil
  | cons x s ih =>
    -- A separator starts a new piece; any other element joins the first piece.
    rw [List.splitOnP_cons_eq_if_modifyHead] at h
    split at h
    · rcases List.mem_cons.mp h with rfl | h
      · exact fun _ hc => absurd hc List.not_mem_nil
      · exact ih h
    · rename_i hx
      obtain ⟨first, rest, hsplit⟩ := List.exists_cons_of_ne_nil (List.splitOnP_ne_nil sep s)
      rw [hsplit, List.modifyHead_cons] at h
      rcases List.mem_cons.mp h with rfl | h
      · intro c hc
        rcases List.mem_cons.mp hc with rfl | hc
        · exact Bool.eq_false_iff.mpr hx
        · exact ih (hsplit ▸ List.mem_cons_self) c hc
      · exact ih (hsplit ▸ List.mem_cons_of_mem _ h)

/-- The first piece starts the list. -/
theorem prefix_of_splitOnP_eq {s w : List α} {ws : List (List α)}
    (h : s.splitOnP sep = w :: ws) : w <+: s := by
  induction s generalizing w ws with
  | nil =>
    obtain ⟨rfl, -⟩ := List.cons.inj h
    exact List.prefix_refl _
  | cons c s ih =>
    rw [List.splitOnP_cons_eq_if_modifyHead] at h
    split at h
    · obtain ⟨rfl, -⟩ := List.cons.inj h
      exact List.nil_prefix
    · obtain ⟨first, rest, hsplit⟩ := List.exists_cons_of_ne_nil (List.splitOnP_ne_nil sep s)
      rw [hsplit, List.modifyHead_cons] at h
      obtain ⟨rfl, -⟩ := List.cons.inj h
      exact List.cons_prefix_cons.mpr ⟨rfl, ih hsplit⟩

/-- A piece stands somewhere in the list. -/
theorem infix_of_mem_splitOnP {s w : List α} (h : w ∈ s.splitOnP sep) : w <:+: s := by
  induction s with
  | nil =>
    rw [List.splitOnP_nil, List.mem_singleton] at h
    exact h ▸ List.infix_refl _
  | cons c s ih =>
    obtain ⟨first, rest, hsplit⟩ :=
      List.exists_cons_of_ne_nil (List.splitOnP_ne_nil sep (c :: s))
    rw [hsplit] at h
    rcases List.mem_cons.mp h with rfl | hmem
    · exact (prefix_of_splitOnP_eq hsplit).isInfix
    · -- The other pieces are pieces of what follows.
      have hmem' : w ∈ s.splitOnP sep := by
        rw [List.splitOnP_cons_eq_if_modifyHead] at hsplit
        split at hsplit
        · rw [(List.cons.inj hsplit).2]
          exact hmem
        · cases hrest : s.splitOnP sep with
          | nil => exact absurd hrest (List.splitOnP_ne_nil _ s)
          | cons first' rest' =>
            rw [hrest, List.modifyHead_cons] at hsplit
            exact List.mem_cons_of_mem _ ((List.cons.inj hsplit).2 ▸ hmem)
      exact List.infix_cons (ih hmem')

/-- A word stands somewhere in the list. -/
theorem infix_of_mem_wordsBy {s w : List α} (h : w ∈ wordsBy sep s) : w <:+: s :=
  infix_of_mem_splitOnP (List.mem_of_mem_filter h)

/-- A word is not empty and has no separator in it. -/
theorem of_mem_wordsBy {s w : List α} (h : w ∈ wordsBy sep s) :
    w ≠ [] ∧ ∀ c ∈ w, sep c = false := by
  obtain ⟨hmem, hne⟩ := List.mem_filter.mp h
  exact ⟨by simpa using hne, not_sep_of_mem_splitOnP hmem⟩

/-- The words of a list that ends within a word: the last word ends with the list, and
    without the last element the other words stay the same. -/
theorem wordsBy_concat (s : List α) {c : α} (hc : sep c = false) :
    ∃ ws u, wordsBy sep (s ++ [c]) = ws ++ [u ++ [c]] ∧
      wordsBy sep s = ws ++ wordsBy sep u := by
  -- `u` is the piece of the last word before its last element.
  obtain ⟨u, hs, hu⟩ := exists_rdropWhile_append (fun x => !sep x) s
  have hword : wordsBy sep (u ++ [c]) = [u ++ [c]] := by
    refine wordsBy_eq_singleton (by simp) fun x hx => ?_
    rcases List.mem_append.mp hx with hx | hx
    · simpa using hu x hx
    · rw [List.mem_singleton.mp hx, hc]
  generalize hinit : s.rdropWhile (fun x => !sep x) = init at hs
  have hsplit : ∀ b, wordsBy sep (init ++ b) = wordsBy sep init ++ wordsBy sep b := by
    intro b
    -- What comes before the last word is empty or ends with a separator.
    by_cases hnil : init = []
    · subst hnil
      simp
    · -- Before the last word there is a separator.
      have hlast : sep (init.getLast hnil) := by
        subst hinit
        have h := List.rdropWhile_last_not (fun x => !sep x) s hnil
        simpa using h
      have hdecomp := List.dropLast_append_getLast hnil
      have h := wordsBy_append_cons hlast init.dropLast b
      have h' := wordsBy_append_cons hlast init.dropLast []
      rw [hdecomp, wordsBy_nil, List.append_nil] at h'
      rw [List.append_cons, hdecomp] at h
      rw [h, h']
  refine ⟨wordsBy sep init, u, ?_, ?_⟩
  · rw [hs, List.append_assoc, hsplit, hword]
  · rw [hs, hsplit]

/-- An element that is no separator belongs to some word. -/
theorem wordsBy_ne_nil {s : List α} {c : α} (hmem : c ∈ s) (hc : sep c = false) :
    wordsBy sep s ≠ [] := by
  obtain ⟨dropped, hs, hdropped⟩ := exists_rdropWhile_append sep s
  -- What is left without the separators at the end is not empty, and ends within a word.
  have hnil : s.rdropWhile sep ≠ [] := by
    intro hnil
    rw [hnil, List.nil_append] at hs
    rw [hs] at hmem
    rw [hdropped c hmem] at hc
    cases hc
  have hlast := Bool.eq_false_iff.mpr (List.rdropWhile_last_not sep s hnil)
  obtain ⟨ws, u, hwords, -⟩ := wordsBy_concat (s.rdropWhile sep).dropLast hlast
  rw [List.dropLast_append_getLast hnil, wordsBy_rdropWhile] at hwords
  rw [hwords]
  exact List.append_ne_nil_of_right_ne_nil ws (List.cons_ne_nil _ _)

/-- A list that ends within a piece: the last piece ends with the list. -/
theorem splitOnP_concat (sep : α → Bool) (s : List α) {c : α} (hc : sep c = false) :
    ∃ init last, s.splitOnP sep = init ++ [last] ∧
      (s ++ [c]).splitOnP sep = init ++ [last ++ [c]] := by
  induction s with
  | nil => exact ⟨[], [], by simp, by simp [List.splitOnP_cons_eq_if_modifyHead, hc]⟩
  | cons x s ih =>
    obtain ⟨init, last, hs, hconcat⟩ := ih
    rw [List.cons_append, List.splitOnP_cons_eq_if_modifyHead, List.splitOnP_cons_eq_if_modifyHead,
      hs, hconcat]
    split
    · exact ⟨[] :: init, last, rfl, rfl⟩
    · -- The element joins the first piece, which is the last one only when it is alone.
      cases init with
      | nil => exact ⟨[], x :: last, rfl, rfl⟩
      | cons first init => exact ⟨(x :: first) :: init, last, rfl, rfl⟩

/-- Words with a separator after each are read back. -/
theorem wordsBy_flatMap_append {c : α} (hc : sep c) {ws : List (List α)}
    (hws : ∀ w ∈ ws, w ≠ [] ∧ ∀ x ∈ w, sep x = false) (b : List α) :
    wordsBy sep (ws.flatMap (· ++ [c]) ++ b) = ws ++ wordsBy sep b := by
  induction ws with
  | nil => rfl
  | cons w ws ih =>
    obtain ⟨hne, hw⟩ := hws w List.mem_cons_self
    rw [List.flatMap_cons, List.append_assoc, List.append_assoc, List.singleton_append,
      wordsBy_append_cons hc, wordsBy_eq_singleton hne hw,
      ih fun w' hw' => hws w' (List.mem_cons_of_mem _ hw')]
    rfl

/-! ## Words put together again -/

/-- The first piece is empty only when the list starts with a separator. -/
theorem head?_splitOnP_cons {x : α} (hx : ¬ sep x) (t : List α) :
    ∀ w ∈ ((x :: t).splitOnP sep).head?, w ≠ [] := by
  obtain ⟨first, rest, hsplit⟩ := List.exists_cons_of_ne_nil (List.splitOnP_ne_nil sep t)
  rw [List.splitOnP_cons_eq_if_modifyHead, if_neg hx, hsplit]
  simp

/-- The pieces behind the first one are empty where two separators meet, and at the end. -/
theorem nil_notMem_tail_splitOnP_iff (t : List α) :
    [] ∉ (t.splitOnP sep).tail ↔
      (∀ x ∈ t.getLast?, sep x = false) ∧ t.IsChain fun x y => sep x → sep y = false := by
  induction t with
  | nil => simp
  | cons x t ih =>
    cases t with
    | nil => by_cases hx : sep x <;> simp [List.splitOnP_cons_eq_if_modifyHead, hx]
    | cons y t =>
      rw [List.splitOnP_cons_eq_if_modifyHead, List.getLast?_cons_cons, List.isChain_cons_cons]
      by_cases hx : sep x
      · -- A separator starts a piece, which is empty when another separator follows.
        rw [if_pos hx, List.tail_cons]
        by_cases hy : sep y
        · rw [List.splitOnP_cons_eq_if_modifyHead]
          simp [hx, hy]
        · have hhead := head?_splitOnP_cons hy t
          obtain ⟨first, rest, hsplit⟩ :=
            List.exists_cons_of_ne_nil (List.splitOnP_ne_nil sep (y :: t))
          rw [hsplit] at hhead
          have hfirst := hhead first rfl
          rw [hsplit, List.tail_cons] at ih
          rw [hsplit, List.mem_cons, not_or, ih]
          simp [hx, hy, hfirst.symm]
      · rw [if_neg hx, List.tail_modifyHead, ih]
        simp [hx]

/-- A list that starts with a word has no empty piece when it ends with a word and no two
    separators meet. -/
theorem nil_notMem_splitOnP_iff {x : α} (hx : ¬ sep x) (t : List α) :
    [] ∉ (x :: t).splitOnP sep ↔ (∀ y ∈ (x :: t).getLast?, sep y = false) ∧
      (x :: t).IsChain fun y z => sep y → sep z = false := by
  have hhead := head?_splitOnP_cons hx t
  rw [← nil_notMem_tail_splitOnP_iff]
  obtain ⟨first, rest, hsplit⟩ := List.exists_cons_of_ne_nil (List.splitOnP_ne_nil sep (x :: t))
  rw [hsplit] at hhead ⊢
  rw [List.mem_cons, not_or, List.tail_cons]
  exact and_iff_right (hhead first rfl).symm

/-- The words are the pieces when no piece is empty. -/
theorem wordsBy_eq_splitOnP_iff (t : List α) :
    wordsBy sep t = t.splitOnP sep ↔ [] ∉ t.splitOnP sep := by
  rw [wordsBy, List.filter_eq_self]
  constructor
  · intro h hmem
    simpa using h [] hmem
  · intro h w hw
    have hnil : w ≠ [] := fun hnil => h (hnil ▸ hw)
    simpa using hnil

/-- When the only separator in the list is `c`, it is split at `c`. -/
theorem splitOnP_eq_splitOn [DecidableEq α] {c : α} (hc : sep c) {t : List α}
    (ht : ∀ x ∈ t, sep x → x = c) : t.splitOnP sep = t.splitOn c := by
  induction t with
  | nil => rfl
  | cons x t ih =>
    have hx : sep x = (x == c) := by
      rw [Bool.eq_iff_iff, beq_iff_eq]
      exact ⟨ht x List.mem_cons_self, fun h => h ▸ hc⟩
    have hrest := ih fun y hy => ht y (List.mem_cons_of_mem _ hy)
    rw [List.splitOn, List.splitOnP_cons_eq_if_modifyHead, List.splitOnP_cons_eq_if_modifyHead,
      hx, hrest, List.splitOn]

/-- What is in a list of words with separators between them is a separator or in a word. -/
theorem mem_intercalate_singleton {c x : α} {ws : List (List α)}
    (h : x ∈ [c].intercalate ws) : x = c ∨ ∃ w ∈ ws, x ∈ w := by
  induction ws with
  | nil => simp at h
  | cons w ws ih =>
    by_cases hws : ws = []
    · subst hws
      exact .inr ⟨w, List.mem_cons_self, by simpa using h⟩
    · rw [List.intercalate_cons_of_ne_nil hws, List.mem_append, List.mem_append,
        List.mem_singleton] at h
      rcases h with (h | h) | h
      · exact .inr ⟨w, List.mem_cons_self, h⟩
      · exact .inl h
      · rcases ih h with h | ⟨w', hw', h⟩
        · exact .inl h
        · exact .inr ⟨w', List.mem_cons_of_mem _ hw', h⟩

/-- The words with a `c` between them make up the list exactly when its separators are
    single `c`s, for a list that starts and ends with a word. -/
theorem intercalate_wordsBy_eq_iff [DecidableEq α] {c x : α} (hc : sep c) (hx : sep x = false)
    {t : List α} (hlast : ∀ y ∈ (x :: t).getLast?, sep y = false) :
    [c].intercalate (wordsBy sep (x :: t)) = x :: t ↔ (∀ y ∈ x :: t, sep y → y = c) ∧
      (x :: t).IsChain fun y z => sep y → sep z = false := by
  have hpieces := nil_notMem_splitOnP_iff (Bool.eq_false_iff.mp hx) t
  constructor
  · intro h
    have hwords : ∀ w ∈ wordsBy sep (x :: t), w ≠ [] ∧ ∀ y ∈ w, sep y = false :=
      fun w => of_mem_wordsBy
    have hseps : ∀ y ∈ x :: t, sep y → y = c := by
      intro y hy hsep
      rw [← h] at hy
      rcases mem_intercalate_singleton hy with rfl | ⟨w, hw, hyw⟩
      · rfl
      · rw [(hwords w hw).2 y hyw] at hsep
        cases hsep
    -- The pieces are the words, and no word is empty.
    have heq : wordsBy sep (x :: t) = (x :: t).splitOnP sep := by
      rw [splitOnP_eq_splitOn hc hseps]
      nth_rewrite 2 [← h]
      refine (List.splitOn_intercalate c (fun w hw hcw => ?_) ?_).symm
      · rw [(hwords w hw).2 c hcw] at hc
        cases hc
      · exact wordsBy_ne_nil List.mem_cons_self hx
    exact ⟨hseps, (hpieces.mp ((wordsBy_eq_splitOnP_iff _).mp heq)).2⟩
  · intro h
    obtain ⟨hseps, hchain⟩ := h
    have heq := (wordsBy_eq_splitOnP_iff _).mpr (hpieces.mpr ⟨hlast, hchain⟩)
    rw [heq, splitOnP_eq_splitOn hc hseps, List.intercalate_splitOn]

/-! ## The first place of an element -/

/-- What comes before an element is determined when the element is not in it. -/
theorem append_cons_inj {c : α} {a a' b b' : List α} (ha : c ∉ a) (ha' : c ∉ a')
    (h : a ++ c :: b = a' ++ c :: b') : a = a' ∧ b = b' := by
  induction a generalizing a' with
  | nil =>
    cases a' with
    | nil => exact ⟨rfl, (List.cons.inj h).2⟩
    | cons d a' =>
      obtain ⟨rfl, -⟩ := List.cons.inj h
      exact absurd List.mem_cons_self ha'
  | cons d a ih =>
    cases a' with
    | nil =>
      obtain ⟨rfl, -⟩ := List.cons.inj h
      exact absurd List.mem_cons_self ha
    | cons d' a' =>
      obtain ⟨rfl, hrest⟩ := List.cons.inj h
      rw [List.mem_cons, not_or] at ha ha'
      obtain ⟨rfl, hb⟩ := ih ha.2 ha'.2 hrest
      exact ⟨rfl, hb⟩

/-! ## Where a pattern is found -/

variable [DecidableEq α]

/-- The first position at which `pattern` stands in a list. -/
def findPattern (pattern : List α) : List α → Option Nat
  | [] => if pattern = [] then some 0 else none
  | c :: s => if pattern <+: c :: s then some 0 else (findPattern pattern s).map (· + 1)

/-- A pattern of one element is found where the element is. -/
theorem findPattern_singleton_isSome {c : α} {s : List α} :
    (findPattern [c] s).isSome ↔ c ∈ s := by
  induction s with
  | nil => simp [findPattern]
  | cons x s ih =>
    rw [findPattern]
    -- A pattern of one element is a prefix when that element comes first.
    by_cases hx : c = x
    · subst hx
      simp
    · rw [if_neg (by simpa using hx), Option.isSome_map, ih]
      simp [hx]

/-- A pattern is found when it stands somewhere. -/
theorem findPattern_isSome {pattern s : List α} :
    (findPattern pattern s).isSome ↔ pattern <:+: s := by
  induction s with
  | nil =>
    rw [findPattern, List.infix_nil]
    split <;> simp_all
  | cons c s ih =>
    rw [findPattern, List.infix_cons_iff]
    split
    · simp [*]
    · simp [*]

/-- A pattern stands where it is found. -/
theorem findPattern_add_length_le {pattern s : List α} {i : Nat}
    (h : findPattern pattern s = some i) : i + pattern.length ≤ s.length := by
  induction s generalizing i with
  | nil =>
    rw [findPattern] at h
    split at h
    · cases h
      simp [*]
    · cases h
  | cons c s ih =>
    rw [findPattern] at h
    split at h
    · rename_i hpre
      cases h
      rw [Nat.zero_add]
      exact hpre.length_le
    · obtain ⟨j, hj, rfl⟩ := Option.map_eq_some_iff.mp h
      have := ih hj
      rw [List.length_cons]
      omega

/-- A pattern is not found among elements that it does not have. -/
theorem findPattern_eq_none {pattern b : List α} (hne : pattern ≠ [])
    (hb : ∀ c ∈ b, c ∉ pattern) : findPattern pattern b = none := by
  induction b with
  | nil => rw [findPattern, if_neg hne]
  | cons c b ih =>
    have hnot : ¬ pattern <+: c :: b := by
      intro h
      obtain ⟨x, pattern', rfl⟩ := List.exists_cons_of_ne_nil hne
      obtain ⟨rfl, -⟩ := List.cons_prefix_cons.mp h
      exact hb x List.mem_cons_self List.mem_cons_self
    rw [findPattern, if_neg hnot, ih fun x hx => hb x (List.mem_cons_of_mem _ hx)]
    rfl

/-- A pattern is found behind elements that it does not have. -/
theorem findPattern_append_self {pattern a : List α} (hne : pattern ≠ [])
    (ha : ∀ c ∈ a, c ∉ pattern) (b : List α) :
    findPattern pattern (a ++ (pattern ++ b)) = some a.length := by
  obtain ⟨x, pattern', rfl⟩ := List.exists_cons_of_ne_nil hne
  induction a with
  | nil =>
    rw [List.nil_append, List.cons_append, findPattern, if_pos]
    · rfl
    · exact List.prefix_append (x :: pattern') b
  | cons c a ih =>
    have hnot : ¬ x :: pattern' <+: c :: (a ++ (x :: pattern' ++ b)) := by
      intro h
      obtain ⟨rfl, -⟩ := List.cons_prefix_cons.mp h
      exact ha x List.mem_cons_self List.mem_cons_self
    rw [List.cons_append, findPattern, if_neg hnot,
      ih fun d hd => ha d (List.mem_cons_of_mem _ hd)]
    rfl

/-- More that shares no element with the pattern does not change where it is found. -/
theorem findPattern_append {pattern b : List α} (hne : pattern ≠ [])
    (hb : ∀ c ∈ b, c ∉ pattern) (s : List α) :
    findPattern pattern (s ++ b) = findPattern pattern s := by
  -- At every position the pattern stands in the longer list when it does in the shorter one.
  have hprefix : ∀ s : List α, pattern <+: s ++ b ↔ pattern <+: s := by
    intro s
    refine ⟨fun h => ?_, fun h => h.trans (List.prefix_append s b)⟩
    rcases List.prefix_or_prefix_of_prefix h (List.prefix_append s b) with h' | ⟨t, rfl⟩
    · exact h'
    · -- The pattern reaches into `b`, so it has nothing there.
      have ht : t <+: b := (List.prefix_append_right_inj s).mp h
      cases t with
      | nil => simp
      | cons c t =>
        obtain ⟨r, rfl⟩ := ht
        exact absurd (by simp) (hb c (by simp))
  induction s with
  | nil => rw [List.nil_append, findPattern_eq_none hne hb, findPattern, if_neg hne]
  | cons c s ih =>
    have hcons := hprefix (c :: s)
    rw [List.cons_append] at hcons ⊢
    simp only [findPattern, hcons, ih]

end OsWet
