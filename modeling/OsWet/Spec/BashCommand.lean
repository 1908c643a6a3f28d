import OsWet.Spec.BackgroundMarking

/-!
# What bash is given

An external command is split into words and put together again with one blank between
them, before bash gets to see its quotes. So bash is given the line as it was typed
exactly when the white space inside it is single blanks.

## Main result

- `bashCommand_eq_typed_iff`: which lines reach bash as they were typed
-/

namespace OsWet

open Text CommandExecutor ExternalCommand

/-- The line as it was typed, without the white space around it and without the `&`. -/
def typed (line : Text) : Text := unmark (trim line)

/-- Each white space character is a blank, and no two of them stand together. -/
def SingleBlanks (s : Text) : Prop :=
  (∀ c ∈ s, isSpace c → c = ' ') ∧ s.IsChain fun c d => isSpace c → isSpace d = false

instance (s : Text) : Decidable (SingleBlanks s) :=
  @instDecidableAnd _ _ (List.decidableBAll _ s) inferInstance

/-- The words with single blanks between them. -/
theorem getBashCommand_eq_intercalate {args : List Text} (hne : args ≠ []) :
    getBashCommand args = [' '].intercalate args := by
  obtain ⟨init, last, rfl⟩ := List.eq_nil_or_concat args |>.resolve_left hne
  rw [List.concat_eq_append, getBashCommand_concat]
  clear hne
  induction init with
  | nil => simp
  | cons w init ih =>
    rw [List.cons_append, List.intercalate_cons_of_ne_nil (by simp), ← ih, List.flatMap_cons]
    simp only [List.append_assoc]

/-- Strings with the same last character are the same when they are without their `&`. -/
theorem removeTrailingBackgroundChar_inj {s t : Text} (h : s.getLast? = t.getLast?) :
    removeTrailingBackgroundChar s = removeTrailingBackgroundChar t ↔ s = t := by
  unfold removeTrailingBackgroundChar
  rw [h]
  split
  · rename_i hlast
    obtain ⟨s', rfl⟩ := List.getLast?_eq_some_iff.mp (h.trans hlast)
    obtain ⟨t', rfl⟩ := List.getLast?_eq_some_iff.mp hlast
    rw [List.dropLast_concat, List.dropLast_concat, List.append_left_inj]
  · exact Iff.rfl

/-! ## A trimmed line -/

/-- A trimmed line starts with a character that is no white space. -/
theorem trim_head? (line : Text) : ∀ c ∈ (trim line).head?, isSpace c = false := by
  intro c hc
  obtain ⟨dropped, hltrim, -⟩ := exists_rdropWhile_append isSpace (ltrim line)
  -- Trimming behind keeps the first character, which trimming in front has left.
  obtain ⟨rest, hrest⟩ := List.head?_eq_some_iff.mp hc
  rw [show (ltrim line).rdropWhile isSpace = trim line from rfl, hrest, ltrim,
    List.cons_append] at hltrim
  have hhead := List.head?_dropWhile_not isSpace line
  rw [hltrim] at hhead
  simpa using hhead

/-- A trimmed line ends with a character that is no white space. -/
theorem trim_getLast? (line : Text) : ∀ c ∈ (trim line).getLast?, isSpace c = false := by
  intro c hc
  have hne : trim line ≠ [] := by
    intro hnil
    rw [hnil] at hc
    cases hc
  have hlast := List.rdropWhile_last_not isSpace (ltrim line) hne
  rw [List.getLast?_eq_some_getLast hne, Option.mem_some_iff] at hc
  rw [← hc]
  exact Bool.eq_false_iff.mpr hlast

/-- In a trimmed line nothing stands behind the mark. -/
theorem removeTrailingBackgroundChar_trim (line : Text) :
    removeTrailingBackgroundChar (trim line) = typed line := by
  apply removeTrailingBackgroundChar_eq_unmark
  intro hm
  obtain ⟨pre, ws, htrim, hws⟩ := hm
  have htwice : rtrim (trim line) = trim line := List.rdropWhile_idempotent _ _
  rw [htrim, rtrim_of_marked hws] at htwice
  rw [htrim, ← htwice, List.getLast?_concat]

/-- Putting the words together keeps the last character of the line. -/
theorem getLast?_getBashCommand {t : Text} (hne : t ≠ [])
    (hlast : ∀ c ∈ t.getLast?, isSpace c = false) :
    (getBashCommand (words t)).getLast? = t.getLast? := by
  rw [List.getLast?_eq_some_getLast hne] at hlast ⊢
  obtain ⟨ws, u, hwords, -⟩ := wordsBy_concat t.dropLast (hlast _ rfl)
  rw [List.dropLast_append_getLast hne] at hwords
  rw [words, hwords, getBashCommand_concat, ← List.append_assoc, List.getLast?_concat]

/-! ## The string for bash -/

/-- The words of a line, put together again for bash, are the line as it was typed exactly
    when the white space inside it is single blanks. -/
theorem bashCommand_words_eq_typed_iff (line : Text) :
    bashCommand (words line) = typed line ↔ SingleBlanks (trim line) := by
  -- The words of the line are those of the trimmed line, which starts and ends with a word.
  have hwords : words line = words (trim line) := (parseCommandLine_eq line).symm
  have hhead := trim_head? line
  have hlast := trim_getLast? line
  rw [← removeTrailingBackgroundChar_trim, bashCommand, hwords]
  cases htrim : trim line with
  | nil =>
    have hblank : getBashCommand (words []) = [] := by simp [words, getBashCommand]
    rw [hblank]
    simp [SingleBlanks]
  | cons c rest =>
    rw [htrim] at hhead hlast
    have hne : words (c :: rest) ≠ [] := wordsBy_ne_nil List.mem_cons_self (hhead c rfl)
    rw [removeTrailingBackgroundChar_inj (getLast?_getBashCommand (List.cons_ne_nil c rest) hlast),
      getBashCommand_eq_intercalate hne]
    exact intercalate_wordsBy_eq_iff (by decide) (hhead c rfl) hlast

/-- A line for an external command reaches bash as it was typed exactly when the white
    space inside it is single blanks. -/
theorem bashCommand_eq_typed_iff {line cmd_line : Text} {args : List Text}
    (hpath : SmallShell.path line = .executor cmd_line)
    (hlookup : lookup cmd_line = .external args) :
    bashCommand args = typed line ↔ SingleBlanks (trim line) := by
  obtain ⟨rfl, hne⟩ := SmallShell.path_eq_executor hpath
  rw [parseCommandLine_eq] at hne
  obtain ⟨-, rfl⟩ := (lookup_external_iff hne args).mp hlookup
  exact bashCommand_words_eq_typed_iff cmd_line

/-- `sleep 5 &` reaches bash as it was typed. -/
theorem bashCommand_sleep :
    bashCommand [text "sleep", text "5", text "&"] = typed (text "  sleep 5 &") :=
  (bashCommand_eq_typed_iff (show SmallShell.path (text "  sleep 5 &") =
    .executor (text "  sleep 5 &") by decide) (by decide)).mpr (by decide)

/-- A quoted argument with two blanks reaches bash with one. -/
theorem bashCommand_two_blanks :
    SmallShell.path (text "echo \"a  b\"") = .executor (text "echo \"a  b\"") ∧
      lookup (text "echo \"a  b\"") = .external [text "echo", text "\"a", text "b\""] ∧
      bashCommand [text "echo", text "\"a", text "b\""] = text "echo \"a b\"" ∧
      typed (text "echo \"a  b\"") = text "echo \"a  b\"" ∧
      text "echo \"a b\"" ≠ text "echo \"a  b\"" := by
  decide

end OsWet
