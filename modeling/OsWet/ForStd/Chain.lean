import OsWet.ForStd.Heap

/-!
# Linked chains of blocks

`h.Chain next p l q` says that following the field `next` from the pointer `p`
passes through exactly the blocks of `l`, given as pairs of address and content,
and ends at the pointer `q`. A chain that ends at null visits no address twice
(`Chain.nodup`) and is determined by where it starts (`Chain.unique`).

`h.walk next n p` reads such a chain off the heap, giving up after `n` blocks.
-/

namespace OsWet.Heap

variable {α : Type*} {h h' : Heap α} {next : α → Ptr}

/-- Following `next` from `p` passes through the blocks of the list and ends at the
    last pointer. -/
def Chain (h : Heap α) (next : α → Ptr) : Ptr → List (Nat × α) → Ptr → Prop
  | p, [], q => p = q
  | p, (a, v) :: l, q => p = some a ∧ h.cell a = some v ∧ Chain h next (next v) l q

/-- An empty chain ends where it starts. -/
@[simp] theorem chain_nil {p q : Ptr} : h.Chain next p [] q ↔ p = q := Iff.rfl

/-- A chain goes through its first node, and from there on is a shorter chain. -/
@[simp] theorem chain_cons {p q : Ptr} {a : Nat} {v : α} {l : List (Nat × α)} :
    h.Chain next p ((a, v) :: l) q ↔
      p = some a ∧ h.cell a = some v ∧ h.Chain next (next v) l q := Iff.rfl

/-- A chain splits at any point of its list. -/
theorem chain_append {p q : Ptr} {l₁ l₂ : List (Nat × α)} :
    h.Chain next p (l₁ ++ l₂) q ↔ ∃ r, h.Chain next p l₁ r ∧ h.Chain next r l₂ q := by
  induction l₁ generalizing p with
  | nil => simp
  | cons x l₁ ih =>
    obtain ⟨a, v⟩ := x
    -- The pointer between the two parts is where the first part ends.
    simp only [List.cons_append, chain_cons, ih]
    grind

/-- Every listed block is allocated and has the listed content. -/
theorem Chain.cell_of_mem {p q : Ptr} {l : List (Nat × α)} (hc : h.Chain next p l q)
    {x : Nat × α} (hx : x ∈ l) : h.cell x.1 = some x.2 := by
  induction l generalizing p with
  | nil => cases hx
  | cons y l ih =>
    obtain ⟨a, v⟩ := y
    obtain ⟨-, hcell, hrest⟩ := hc
    rcases List.mem_cons.mp hx with rfl | hx
    · exact hcell
    · exact ih hrest hx

/-- A chain depends only on the cells it passes through. -/
theorem Chain.frame {p q : Ptr} {l : List (Nat × α)} (hc : h.Chain next p l q)
    (hsame : ∀ x ∈ l, h'.cell x.1 = h.cell x.1) : h'.Chain next p l q := by
  induction l generalizing p with
  | nil => exact hc
  | cons y l ih =>
    obtain ⟨a, v⟩ := y
    obtain ⟨hp, hcell, hrest⟩ := hc
    refine ⟨hp, ?_, ih hrest fun x hx => hsame x (List.mem_cons_of_mem _ hx)⟩
    rw [hsame (a, v) List.mem_cons_self]
    exact hcell

/-- Changing a cell that the chain does not pass through keeps the chain. -/
theorem Chain.setCell {p q : Ptr} {l : List (Nat × α)} (hc : h.Chain next p l q) {a : Nat}
    {v : Option α} {ha : a < h.next} (hnot : a ∉ l.map Prod.fst) :
    (h.setCell a v ha).Chain next p l q :=
  hc.frame fun _ hx => setCell_cell_of_ne ha fun heq =>
    hnot (heq ▸ List.mem_map_of_mem hx)

/-- A chain that ends at null is determined by its first pointer. -/
theorem Chain.unique {p : Ptr} {l l' : List (Nat × α)} (hc : h.Chain next p l none)
    (hc' : h.Chain next p l' none) : l = l' := by
  induction l generalizing p l' with
  | nil =>
    cases l' with
    | nil => rfl
    | cons y l' =>
      -- The empty chain starts at null, where no block is.
      rw [chain_nil.mp hc] at hc'
      cases hc'.1
  | cons y l ih =>
    obtain ⟨a, v⟩ := y
    obtain ⟨rfl, hcell, hrest⟩ := hc
    cases l' with
    | nil => cases chain_nil.mp hc'
    | cons z l' =>
      obtain ⟨b, w⟩ := z
      obtain ⟨hb, hcell', hrest'⟩ := hc'
      cases Option.some.inj hb
      -- Both chains read the same cell, so they go on from the same pointer.
      rw [hcell] at hcell'
      cases Option.some.inj hcell'
      rw [ih hrest hrest']

/-- A chain that ends at null is acyclic: no address occurs twice. -/
theorem Chain.nodup {p : Ptr} {l : List (Nat × α)} (hc : h.Chain next p l none) :
    (l.map Prod.fst).Nodup := by
  induction l generalizing p with
  | nil => exact List.nodup_nil
  | cons y l ih =>
    obtain ⟨a, v⟩ := y
    have hrest := hc.2.2
    refine List.nodup_cons.mpr ⟨fun hmem => ?_, ih hrest⟩
    -- A second visit to `a` would start a shorter chain from the same pointer.
    obtain ⟨⟨b, w⟩, hin, rfl⟩ := List.mem_map.mp hmem
    obtain ⟨l₁, l₂, rfl⟩ := List.append_of_mem hin
    obtain ⟨r, -, hsuffix⟩ := chain_append.mp hrest
    rw [hsuffix.1] at hsuffix
    rw [hc.1] at hc
    have hlen := congrArg List.length (hc.unique hsuffix)
    simp only [List.length_cons, List.length_append] at hlen
    omega

/-- The last block of a chain that ends at null points to null. -/
theorem Chain.next_of_getLast? {p : Ptr} {l : List (Nat × α)} {x : Nat × α}
    (hc : h.Chain next p l none) (hlast : l.getLast? = some x) :
    h.cell x.1 = some x.2 ∧ next x.2 = none := by
  obtain ⟨init, rfl⟩ := List.getLast?_eq_some_iff.mp hlast
  obtain ⟨r, -, -, hcell, hend⟩ := chain_append.mp hc
  exact ⟨hcell, hend⟩

/-- Linking one more block behind the last one. -/
theorem Chain.link_last {p : Ptr} {l : List (Nat × α)} {a b : Nat} {v w u : α}
    (hc : h.Chain next p (l ++ [(a, v)]) none) (ha : a < h.next) (hw : next w = some b)
    (hb : h.cell b = some u) (hu : next u = none) (hne : b ≠ a) :
    (h.setCell a (some w) ha).Chain next p (l ++ [(a, w), (b, u)]) none := by
  have hnodup := hc.nodup
  obtain ⟨r, hinit, hlast⟩ := chain_append.mp hc
  refine chain_append.mpr ⟨r, hinit.setCell ?_, hlast.1, setCell_cell_self _ _ _ _, hw, ?_, hu⟩
  · -- The last block is visited once, so the ones before it are not written to.
    intro hmem
    simp only [List.map_append, List.map_cons, List.map_nil] at hnodup
    exact (List.nodup_append.mp hnodup).2.2 a hmem a List.mem_cons_self rfl
  · rw [setCell_cell_of_ne ha hne, hb]

/-- Read the chain that starts at `p`, at most `n` blocks of it. -/
def walk (h : Heap α) (next : α → Ptr) : Nat → Ptr → List (Nat × α)
  | 0, _ => []
  | _ + 1, none => []
  | n + 1, some a =>
    match h.cell a with
    | none => []
    | some v => (a, v) :: walk h next n (next v)

/-- Walking a chain that ends at null reads its list. -/
theorem Chain.walk_eq {p : Ptr} {l : List (Nat × α)} (hc : h.Chain next p l none) {n : Nat}
    (hn : l.length ≤ n) : h.walk next n p = l := by
  induction l generalizing p n with
  | nil =>
    rw [chain_nil.mp hc]
    cases n <;> rfl
  | cons y l ih =>
    obtain ⟨a, v⟩ := y
    obtain ⟨rfl, hcell, hrest⟩ := hc
    cases n with
    | zero => simp at hn
    | succ n =>
      simp only [walk, hcell]
      rw [ih hrest (by simpa using hn)]

end OsWet.Heap
