import Mathlib.Data.List.DropRight

/-!
# Reading a stream up to a delimiter

An `InputStream` is what has not been read yet, with the flag that says whether the next
read can succeed. `getUntil` reads up to the next delimiter, as `getline` does: the read
that runs into the end of the stream still yields what was there, and every later one
yields nothing.

- `InputStream.moved`: the stream after somebody else has read from it or moved it
- `InputStream.pieces`: the pieces of a list between its delimiters
- `InputStream.yields_pieces`: the pieces are what the reads yield, in order
-/

namespace OsWet

universe u

/-- What has not been read, and whether reads still succeed. They only stop at the end. -/
structure InputStream (α : Type u) where
  rest : List α
  good : Bool
  atEnd : good = false → rest = []

namespace InputStream

variable {α : Type u} [DecidableEq α] {delimiter : α}

/-- A stream of which nothing has been read. -/
def ofList (s : List α) : InputStream α := ⟨s, true, fun h => nomatch h⟩

/-- Read up to the delimiter and skip it. At the end of the stream nothing is read. -/
def getUntil (delimiter : α) (stream : InputStream α) : List α × InputStream α :=
  if stream.good then
    (stream.rest.takeWhile (· != delimiter),
      match stream.rest.dropWhile (· != delimiter) with
      -- the end came before a delimiter
      | [] => ⟨[], false, fun _ => rfl⟩
      | _ :: rest => ofList rest)
  else ([], stream)

/-- Somebody else has read from the stream, or has moved it: now `rest` is what is unread.
    Where reads fail already they go on failing. -/
def moved (stream : InputStream α) (rest : List α) : InputStream α :=
  if stream.good then ofList rest else stream

omit [DecidableEq α] in
/-- Nothing changes when the same is unread. -/
@[simp] theorem moved_rest (stream : InputStream α) : stream.moved stream.rest = stream := by
  obtain ⟨rest, good, atEnd⟩ := stream
  cases good with
  | true => rfl
  | false => rfl

/-- The pieces of a list between its delimiters. After a delimiter at its end there is no
    further piece. -/
def pieces (delimiter : α) (s : List α) : List (List α) :=
  let all := s.splitOnP (· == delimiter)
  if all.getLast? = some [] then all.dropLast else all

@[simp] theorem pieces_nil : pieces delimiter ([] : List α) = [] := by simp [pieces]

/-- A list without delimiters is one piece. -/
theorem pieces_eq_singleton {s : List α} (hne : s ≠ []) (hs : ∀ c ∈ s, c ≠ delimiter) :
    pieces delimiter s = [s] := by
  have hsplit : s.splitOnP (· == delimiter) = [s] :=
    List.splitOnP_eq_singleton fun c hc => by simpa using hs c hc
  simp [pieces, hsplit, hne]

/-- The first delimiter ends the first piece. -/
theorem pieces_append_cons {a : List α} (ha : ∀ c ∈ a, c ≠ delimiter) (b : List α) :
    pieces delimiter (a ++ delimiter :: b) = a :: pieces delimiter b := by
  have hsplit : a.splitOnP (· == delimiter) = [a] :=
    List.splitOnP_eq_singleton fun c hc => by simpa using ha c hc
  have hcons := List.splitOnP_append_cons (p := (· == delimiter)) a b (beq_self_eq_true delimiter)
  rw [hsplit, List.singleton_append] at hcons
  obtain ⟨first, rest, hb⟩ := List.exists_cons_of_ne_nil (List.splitOnP_ne_nil (· == delimiter) b)
  -- Both lists of pieces have the same last one.
  simp only [pieces, hcons, hb, List.getLast?_cons_cons]
  split
  · rfl
  · rfl

/-- The pieces that reading up to the delimiter yields until the stream is at its end. -/
inductive Yields (delimiter : α) : InputStream α → List (List α) → Prop
  | atEnd {stream : InputStream α} (h : stream.rest = []) : Yields delimiter stream []
  | read {stream : InputStream α} {ps : List (List α)}
      (h : Yields delimiter (stream.getUntil delimiter).2 ps) :
      Yields delimiter stream ((stream.getUntil delimiter).1 :: ps)

/-- At the end of the stream nothing is read, and it stays at its end. -/
theorem getUntil_atEnd {stream : InputStream α} (h : stream.rest = []) :
    (stream.getUntil delimiter).1 = [] ∧ (stream.getUntil delimiter).2.rest = [] := by
  rw [getUntil]
  split
  · simp [h]
  · exact ⟨rfl, h⟩

/-- Without a delimiter everything is read. -/
theorem getUntil_ofList {s : List α} (hs : ∀ c ∈ s, c ≠ delimiter) :
    ((ofList s).getUntil delimiter).1 = s ∧ ((ofList s).getUntil delimiter).2.rest = [] := by
  have htake : s.takeWhile (· != delimiter) = s :=
    List.takeWhile_eq_self_iff.mpr fun c hc => by simpa using hs c hc
  have hdrop : s.dropWhile (· != delimiter) = [] :=
    List.dropWhile_eq_nil_iff.mpr fun c hc => by simpa using hs c hc
  simp [getUntil, ofList, htake, hdrop]

/-- The first delimiter is where the read stops. -/
theorem getUntil_append_cons {a : List α} (ha : ∀ c ∈ a, c ≠ delimiter) (b : List α) :
    (ofList (a ++ delimiter :: b)).getUntil delimiter = (a, ofList b) := by
  have ha' : ∀ c ∈ a, (c != delimiter) = true := fun c hc => by simpa using ha c hc
  have htake : (a ++ delimiter :: b).takeWhile (· != delimiter) = a := by
    rw [List.takeWhile_append_of_pos ha']
    simp
  have hdrop : (a ++ delimiter :: b).dropWhile (· != delimiter) = delimiter :: b := by
    rw [List.dropWhile_append_of_pos ha']
    simp
  simp [getUntil, ofList, htake, hdrop]

/-- The reads yield the pieces of the stream. -/
theorem yields_pieces (s : List α) : Yields delimiter (ofList s) (pieces delimiter s) := by
  induction hn : s.length using Nat.strong_induction_on generalizing s with
  | _ n ih =>
    subst hn
    by_cases hmem : delimiter ∈ s
    · obtain ⟨a, b, rfl, ha⟩ := List.eq_append_cons_of_mem hmem
      have ha' : ∀ c ∈ a, c ≠ delimiter := fun c hc heq => ha (heq ▸ hc)
      have hread := getUntil_append_cons ha' b
      have hrest : Yields delimiter ((ofList (a ++ delimiter :: b)).getUntil delimiter).2
          (pieces delimiter b) := by
        rw [hread]
        exact ih b.length (by simp; omega) b rfl
      have h := Yields.read hrest
      rwa [hread, ← pieces_append_cons ha'] at h
    · have hs : ∀ c ∈ s, c ≠ delimiter := fun c hc heq => hmem (heq ▸ hc)
      by_cases hnil : s = []
      · subst hnil
        rw [pieces_nil]
        exact .atEnd rfl
      · obtain ⟨hread, hrest⟩ := getUntil_ofList hs
        have h := Yields.read (.atEnd hrest)
        rwa [hread, ← pieces_eq_singleton hnil hs] at h

end InputStream

end OsWet
