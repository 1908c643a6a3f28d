import OsWet.Spec.BackgroundMarking

/-!
# Redirections are parsed back

A redirection line is printed from a command, an operator, a file name and perhaps a `&`,
with any white space between them. The parser finds the parts again, with one exception:
the `&` is stripped only when it is the very last character of the line, so with white
space behind it it becomes a part of the file name.

## Main result

- `path_print_iff`: a line is parsed back exactly when nothing stands behind its `&`
-/

namespace OsWet

open Text SmallShell

/-- Not blank, and without the characters that mean something to the parser. -/
def Plain (s : Text) : Prop :=
  (∃ c ∈ s, isSpace c = false) ∧ ∀ c ∈ s, c ≠ '>' ∧ c ≠ PIPE_DELIMITER ∧ c ≠ BACKGROUND_KEYWORD

instance (s : Text) : Decidable (Plain s) :=
  @instDecidableAnd _ _ (List.decidableBEx _ s) (List.decidableBAll _ s)

/-- The parts of a redirection line. `afterMark` is the white space behind the `&`, if the
    line has a `&`. -/
structure RedirectionLine where
  command : Text
  file : Text
  append : Bool
  beforeCommand : Text
  afterCommand : Text
  beforeFile : Text
  afterFile : Text
  afterMark : Option Text
  command_plain : Plain command
  file_plain : Plain file
  spaces : ∀ c ∈ beforeCommand ++ afterCommand ++ beforeFile ++ afterFile ++ afterMark.getD [],
    isSpace c

namespace RedirectionLine

variable (l : RedirectionLine)

/-- The operator of the line. -/
def operator : Text := if l.append then REDIRECTION_WITH_APPEND else REDIRECTION_WITH_NO_APPEND

/-- What stands in front of the operator. -/
def left : Text := l.beforeCommand ++ l.command ++ l.afterCommand

/-- What stands behind the operator, up to the `&`. -/
def right : Text := l.beforeFile ++ l.file ++ l.afterFile

/-- The `&` and what stands behind it. -/
def mark : Text :=
  match l.afterMark with
  | none => []
  | some ws => BACKGROUND_KEYWORD :: ws

/-- The line as it is typed. -/
def print : Text := l.left ++ (l.operator ++ l.right) ++ l.mark

/-- What the parser is to find. -/
def tokens : RedirectionTokens := ⟨trim l.command, l.operator, trim l.file⟩

end RedirectionLine

/-! ## Trimming -/

/-- White space around a string is trimmed away. -/
theorem trim_pad {a b : Text} (s : Text) (ha : ∀ c ∈ a, isSpace c) (hb : ∀ c ∈ b, isSpace c) :
    trim (a ++ s ++ b) = trim s := by
  rw [trim, ltrim, List.append_assoc, List.dropWhile_append_of_pos ha, List.dropWhile_append]
  split
  · -- A blank string leaves nothing, with and without the padding.
    rename_i hnil
    rw [trim, ltrim, List.isEmpty_iff.mp hnil, List.dropWhile_eq_nil_iff.mpr hb]
  · exact rtrim_append _ hb

/-! ## The two sides of the operator -/

/-- White space is no character that means something to the parser. -/
theorem ne_of_isSpace {c : Char} (h : isSpace c) :
    c ≠ '>' ∧ c ≠ PIPE_DELIMITER ∧ c ≠ BACKGROUND_KEYWORD := by
  refine ⟨?_, ?_, ?_⟩ <;> (rintro rfl; exact absurd h (by decide))

namespace RedirectionLine

variable (l : RedirectionLine)

/-- The left side has no such character in it. -/
theorem of_mem_left {c : Char} (h : c ∈ l.left) :
    c ≠ '>' ∧ c ≠ PIPE_DELIMITER ∧ c ≠ BACKGROUND_KEYWORD := by
  rw [left, List.mem_append, List.mem_append] at h
  rcases h with (h | h) | h
  · exact ne_of_isSpace (l.spaces c (by simp [h]))
  · exact l.command_plain.2 c h
  · exact ne_of_isSpace (l.spaces c (by simp [h]))

/-- Nor has the right side. -/
theorem of_mem_right {c : Char} (h : c ∈ l.right) :
    c ≠ '>' ∧ c ≠ PIPE_DELIMITER ∧ c ≠ BACKGROUND_KEYWORD := by
  rw [right, List.mem_append, List.mem_append] at h
  rcases h with (h | h) | h
  · exact ne_of_isSpace (l.spaces c (by simp [h]))
  · exact l.file_plain.2 c h
  · exact ne_of_isSpace (l.spaces c (by simp [h]))

/-- Trimming the left side gives the command. -/
theorem trim_left : trim l.left = trim l.command :=
  trim_pad l.command (fun c hc => l.spaces c (by simp [hc])) fun c hc => l.spaces c (by simp [hc])

/-- Trimming the right side gives the file name. -/
theorem trim_right : trim l.right = trim l.file :=
  trim_pad l.file (fun c hc => l.spaces c (by simp [hc])) fun c hc => l.spaces c (by simp [hc])

/-- The operator is made of `>` only. -/
theorem eq_of_mem_operator {c : Char} (h : c ∈ l.operator) : c = '>' := by
  unfold operator at h
  split at h
  · exact List.eq_of_mem_replicate (show c ∈ List.replicate 2 '>' from h)
  · exact List.eq_of_mem_replicate (show c ∈ List.replicate 1 '>' from h)

/-- The operator is found where it was printed. -/
theorem find_operator :
    find l.operator (l.left ++ (l.operator ++ l.right)) = some l.left.length := by
  refine findPattern_append_self ?_ (fun c hc hop => ?_) l.right
  · unfold operator
    split <;> exact List.cons_ne_nil _ _
  · exact (l.of_mem_left hc).1 (l.eq_of_mem_operator hop)

/-- The longer operator is found only when it was printed. -/
theorem find_REDIRECTION_WITH_APPEND :
    (find REDIRECTION_WITH_APPEND (l.left ++ (l.operator ++ l.right))).isNone = !l.append := by
  cases happend : l.append with
  | true =>
    have hop : l.operator = REDIRECTION_WITH_APPEND := by rw [operator, if_pos happend]
    rw [← hop, l.find_operator]
    rfl
  | false =>
    have hop : l.operator = ['>'] := by
      rw [operator, happend]
      rfl
    -- The longer operator has two `>`, and the line has one.
    have hleft : l.left.count '>' = 0 := List.count_eq_zero.mpr fun h => (l.of_mem_left h).1 rfl
    have hright : l.right.count '>' = 0 := List.count_eq_zero.mpr fun h => (l.of_mem_right h).1 rfl
    rw [hop, Bool.not_false, Option.isNone_iff_eq_none, ← Option.not_isSome_iff_eq_none]
    intro hsome
    have hinfix := findPattern_isSome.mp hsome
    have hle := hinfix.sublist.count_le '>'
    rw [List.count_append, List.count_append, hleft, hright] at hle
    exact absurd hle (by decide)

/-- Without the mark the parser finds the parts. -/
theorem tokenizeRedirectionCommand_print :
    tokenizeRedirectionCommand (l.left ++ (l.operator ++ l.right)) = l.tokens := by
  have hop : (if (find REDIRECTION_WITH_APPEND (l.left ++ (l.operator ++ l.right))).isNone then
      REDIRECTION_WITH_NO_APPEND else REDIRECTION_WITH_APPEND) = l.operator := by
    rw [l.find_REDIRECTION_WITH_APPEND, operator]
    cases l.append <;> rfl
  simp only [tokenizeRedirectionCommand, hop, l.find_operator, Option.getD_some, tokens]
  rw [List.take_left, l.trim_left, ← List.drop_drop, List.drop_left, List.drop_left, l.trim_right]

/-! ## The whole line -/

/-- The line is not blank. -/
theorem parseCommandLine_print : parseCommandLine l.print ≠ [] := by
  obtain ⟨c, hmem, hc⟩ := l.command_plain.1
  rw [parseCommandLine_eq]
  exact wordsBy_ne_nil (by simp [print, left, hmem]) hc

/-- The line is no pipeline. -/
theorem not_mem_print : PIPE_DELIMITER ∉ l.print := by
  have hop : PIPE_DELIMITER ∉ l.operator := fun h => absurd (l.eq_of_mem_operator h) (by decide)
  have hmark : PIPE_DELIMITER ∉ l.mark := by
    intro h
    unfold mark at h
    cases hafter : l.afterMark with
    | none => simp [hafter] at h
    | some ws =>
      rw [hafter] at h
      rcases List.mem_cons.mp h with h | h
      · exact absurd h (by decide)
      · exact (ne_of_isSpace (l.spaces _ (by simp [hafter, h]))).2.1 rfl
  simp only [print, List.mem_append, not_or]
  exact ⟨⟨fun h => (l.of_mem_left h).2.1 rfl, hop, fun h => (l.of_mem_right h).2.1 rfl⟩, hmark⟩

/-- A line without `|` is in one part. -/
theorem not_isPipeCommand_print : isPipeCommand l.print = false := by
  have hmem : ∀ c ∈ trim l.print, (c == PIPE_DELIMITER) = false := by
    intro c hc
    have hprint := (List.dropWhile_sublist isSpace).mem ((List.rdropWhile_prefix isSpace _).mem hc)
    refine beq_eq_false_iff_ne.mpr fun heq => l.not_mem_print ?_
    rw [← heq]
    exact hprint
  rw [isPipeCommand, splitCommand, parts, List.splitOnP_eq_singleton hmem]
  split <;> simp

/-- The line is a redirection. -/
theorem isRedirectionCommand_print : isRedirectionCommand l.print = true := by
  have hmem : '>' ∈ l.operator := by
    unfold operator
    split <;> exact List.mem_cons_self
  have hprint : '>' ∈ l.print := by simp [print, hmem]
  have hfind : (find REDIRECTION_WITH_NO_APPEND l.print).isSome :=
    findPattern_singleton_isSome.mpr hprint
  rw [isRedirectionCommand, hfind, Bool.or_true]

/-- There is no `&` in front of the mark. -/
theorem not_mem_body : BACKGROUND_KEYWORD ∉ l.left ++ (l.operator ++ l.right) := by
  simp only [List.mem_append, not_or]
  exact ⟨fun h => (l.of_mem_left h).2.2 rfl, fun h => absurd (l.eq_of_mem_operator h) (by decide),
    fun h => (l.of_mem_right h).2.2 rfl⟩

/-- The line is marked exactly when the `&` was printed. -/
theorem marked_print_iff : Marked l.print ↔ l.afterMark.isSome := by
  cases hafter : l.afterMark with
  | none =>
    simp only [Option.isSome_none, Bool.false_eq_true, iff_false]
    intro h
    obtain ⟨pre, ws, hprint, -⟩ := h
    apply l.not_mem_body
    rw [print, mark, hafter, List.append_nil] at hprint
    simp [hprint]
  | some ws =>
    simp only [Option.isSome_some, iff_true]
    refine ⟨l.left ++ (l.operator ++ l.right), ws, by rw [print, mark, hafter], ?_⟩
    exact fun c hc => l.spaces c (by simp [hafter, hc])

/-- Without its mark the line ends with the right side. -/
theorem unmark_print : unmark l.print = l.left ++ (l.operator ++ l.right) := by
  cases hafter : l.afterMark with
  | none =>
    have hm : ¬ Marked l.print := by simp [marked_print_iff, hafter]
    rw [unmark_of_not_marked hm, print, mark, hafter, List.append_nil]
  | some ws =>
    rw [print, mark, hafter]
    exact unmark_of_marked fun c hc => l.spaces c (by simp [hafter, hc])

/-- The `&` is the last character of the line exactly when nothing stands behind it. -/
theorem getLast?_print_iff :
    (Marked l.print → l.print.getLast? = some BACKGROUND_KEYWORD) ↔
      ∀ ws ∈ l.afterMark, ws = [] := by
  rw [marked_print_iff]
  cases hafter : l.afterMark with
  | none => simp
  | some ws =>
    rw [print, mark, hafter]
    simp only [Option.isSome_some, forall_const, Option.mem_some_iff, forall_eq']
    constructor
    · intro hlast
      by_contra hne
      obtain ⟨init, c, rfl⟩ := List.eq_nil_or_concat ws |>.resolve_left hne
      rw [List.concat_eq_append, ← List.cons_append, ← List.append_assoc,
        List.getLast?_concat] at hlast
      have hspace := l.spaces c (by simp [hafter])
      exact (ne_of_isSpace hspace).2.2 (Option.some.inj hlast)
    · intro hnil
      rw [hnil, List.getLast?_concat]

/-- The line goes to the redirection, and is in the background if it has a mark. -/
theorem path_print :
    path l.print = .redirection (tokenizeRedirectionCommand (removeTrailingBackgroundChar l.print))
      l.afterMark.isSome
      ((tokenizeRedirectionCommand (removeTrailingBackgroundChar l.print)).redirection =
        REDIRECTION_WITH_APPEND) := by
  have hbackground : isBackgroundCommand l.print = l.afterMark.isSome := by
    rw [Bool.eq_iff_iff, isBackgroundCommand_iff, marked_print_iff]
  rw [path, if_neg l.parseCommandLine_print, l.not_isPipeCommand_print,
    l.isRedirectionCommand_print, hbackground]
  rfl

/-- The operator says whether the file is added to. -/
theorem operator_eq_iff : l.operator = REDIRECTION_WITH_APPEND ↔ l.append = true := by
  unfold operator
  cases l.append <;> decide

/-- A redirection line is parsed back exactly when nothing stands behind its `&`. -/
theorem path_print_iff :
    path l.print = .redirection ⟨trim l.command, l.operator, trim l.file⟩ l.afterMark.isSome
      l.append ↔ ∀ ws ∈ l.afterMark, ws = [] := by
  rw [path_print, ← l.getLast?_print_iff]
  have htokens := l.tokenizeRedirectionCommand_print
  rw [← unmark_print] at htokens
  constructor
  · intro h hm
    by_contra hlast
    -- The `&` is not stripped, so the file name is a different one.
    rw [removeTrailingBackgroundChar, if_neg hlast] at h
    obtain ⟨h, -, -⟩ := Path.redirection.inj h
    refine tokenizeRedirectionCommand_unmark_ne hm l.isRedirectionCommand_print ?_
    rw [htokens, h]
    rfl
  · intro hlast
    rw [removeTrailingBackgroundChar_eq_unmark hlast, htokens]
    simp only [tokens, operator_eq_iff, Bool.decide_eq_true]

end RedirectionLine

/-- `ls > f & `: a blank stands behind the `&`. -/
def blankAfterMark : RedirectionLine where
  command := text "ls"
  file := text "f"
  append := false
  beforeCommand := []
  afterCommand := [' ']
  beforeFile := [' ']
  afterFile := [' ']
  afterMark := some [' ']
  command_plain := by decide
  file_plain := by decide
  spaces := List.all_eq_true.mp (by decide)

/-- The file that is opened then is `f &`. -/
theorem path_blankAfterMark :
    path blankAfterMark.print = .redirection ⟨text "ls", text ">", text "f &"⟩ true false ∧
      path blankAfterMark.print ≠ .redirection ⟨text "ls", text ">", text "f"⟩ true false := by
  decide

end OsWet
