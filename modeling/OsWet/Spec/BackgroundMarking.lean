import OsWet.Native.CommandLine

/-!
# Which lines run in the background

A line is marked when its last character that is not white space is `&`. The shell has
three tests for this and two places that strip the mark. This module has what each of them
does to a line with and without a mark.
-/

namespace OsWet

open Text

/-- The last character that is not white space is `&`. -/
def Marked (s : Text) : Prop :=
  ∃ pre ws, s = pre ++ BACKGROUND_KEYWORD :: ws ∧ ∀ c ∈ ws, isSpace c

/-- The line without its mark. -/
def unmark (s : Text) : Text :=
  if (rtrim s).getLast? = some BACKGROUND_KEYWORD then (rtrim s).dropLast else s

/-- The mark is no white space, so it is part of a word. -/
theorem isSpace_BACKGROUND_KEYWORD : isSpace BACKGROUND_KEYWORD = false := by decide

/-- White space behind a string is trimmed away. -/
theorem rtrim_append {ws : Text} (s : Text) (hws : ∀ c ∈ ws, isSpace c) :
    rtrim (s ++ ws) = rtrim s := by
  rw [rtrim, List.rdropWhile, List.reverse_append,
    List.dropWhile_append_of_pos fun c hc => hws c (List.mem_reverse.mp hc)]
  rfl

/-- A marked line up to the mark. -/
theorem rtrim_of_marked {pre ws : Text} (hws : ∀ c ∈ ws, isSpace c) :
    rtrim (pre ++ BACKGROUND_KEYWORD :: ws) = pre ++ [BACKGROUND_KEYWORD] := by
  rw [List.append_cons, rtrim_append _ hws]
  exact List.rdropWhile_concat_neg _ _ _ (by simp [isSpace_BACKGROUND_KEYWORD])

/-- `SmallShell::isBackgroundCommand` is right about every line. -/
theorem isBackgroundCommand_iff (s : Text) :
    SmallShell.isBackgroundCommand s = true ↔ Marked s := by
  rw [SmallShell.isBackgroundCommand, decide_eq_true_iff]
  constructor
  · -- The white space that `rtrim` takes off stands behind the mark.
    intro h
    obtain ⟨pre, hpre⟩ := List.getLast?_eq_some_iff.mp h
    obtain ⟨ws, hs, hws⟩ := exists_rdropWhile_append isSpace s
    refine ⟨pre, ws, ?_, hws⟩
    rw [hs, show s.rdropWhile isSpace = rtrim s from rfl, hpre, List.append_assoc]
    rfl
  · intro h
    obtain ⟨pre, ws, rfl, hws⟩ := h
    rw [rtrim_of_marked hws, List.getLast?_concat]

instance (s : Text) : Decidable (Marked s) :=
  decidable_of_iff _ (isBackgroundCommand_iff s)

/-- What stands in front of the mark is left. -/
theorem unmark_of_marked {pre ws : Text} (hws : ∀ c ∈ ws, isSpace c) :
    unmark (pre ++ BACKGROUND_KEYWORD :: ws) = pre := by
  rw [unmark, rtrim_of_marked hws, if_pos List.getLast?_concat, List.dropLast_concat]

/-- A line without a mark is left as it is. -/
theorem unmark_of_not_marked {s : Text} (h : ¬ Marked s) : unmark s = s := by
  rw [← isBackgroundCommand_iff, SmallShell.isBackgroundCommand, decide_eq_true_iff] at h
  exact if_neg h

/-! ## The words of a marked line -/

/-- Trimming the line first makes no difference to its words. -/
theorem parseCommandLine_eq (s : Text) : parseCommandLine s = words s := by
  rw [parseCommandLine, trim, words, rtrim, wordsBy_rdropWhile, ltrim, wordsBy_dropWhile]
  rfl

/-- The mark is at the end of the last word, and `unmark` takes it off. -/
theorem words_of_marked {s : Text} (h : Marked s) :
    ∃ ws u, words s = ws ++ [u ++ [BACKGROUND_KEYWORD]] ∧ words (unmark s) = ws ++ words u := by
  obtain ⟨pre, spaces, rfl, hspaces⟩ := h
  -- The mark is no white space, so it belongs to the last word.
  obtain ⟨ws, u, hmarked, hpre⟩ := wordsBy_concat pre isSpace_BACKGROUND_KEYWORD
  refine ⟨ws, u, ?_, ?_⟩
  · rw [List.append_cons, words, wordsBy_append_sep _ hspaces, hmarked]
  · rw [unmark_of_marked hspaces, words, hpre]
    rfl

/-- A line whose last word ends with `&` is marked. -/
theorem marked_of_words {s u : Text} {ws : List Text}
    (h : words s = ws ++ [u ++ [BACKGROUND_KEYWORD]]) : Marked s := by
  have htrim : words (rtrim s) = words s := by
    rw [words, rtrim, wordsBy_rdropWhile]
    rfl
  rw [← isBackgroundCommand_iff, SmallShell.isBackgroundCommand, decide_eq_true_iff]
  by_cases hnil : rtrim s = []
  · rw [← htrim, hnil] at h
    simp [words] at h
  · -- The last character of the line is the last character of the last word.
    have hlast : isSpace ((rtrim s).getLast hnil) = false := by
      have hnot := List.rdropWhile_last_not isSpace s hnil
      exact Bool.eq_false_iff.mpr hnot
    obtain ⟨ws', u', hwords, -⟩ := wordsBy_concat (rtrim s).dropLast hlast
    rw [List.dropLast_append_getLast hnil] at hwords
    have heq : ws ++ [u ++ [BACKGROUND_KEYWORD]] = ws' ++ [u' ++ [(rtrim s).getLast hnil]] := by
      rw [← h, ← htrim, ← hwords]
      rfl
    obtain ⟨-, heq⟩ := List.append_inj' heq rfl
    obtain ⟨-, heq⟩ := List.append_inj' (List.singleton_inj.mp heq) rfl
    rw [List.getLast?_eq_some_getLast hnil, ← List.singleton_inj.mp heq]

/-- The words of a line say whether it is marked. -/
theorem marked_congr {s t : Text} (h : words s = words t) : Marked s ↔ Marked t := by
  constructor
  · intro hm
    obtain ⟨ws, u, hs, -⟩ := words_of_marked hm
    exact marked_of_words (h ▸ hs)
  · intro hm
    obtain ⟨ws, u, ht, -⟩ := words_of_marked hm
    exact marked_of_words (h.trans ht)

/-- A line has other words without its mark. -/
theorem words_unmark_ne {s : Text} (h : Marked s) : words (unmark s) ≠ words s := by
  obtain ⟨ws, u, hs, hunmark⟩ := words_of_marked h
  have hmem : u ++ [BACKGROUND_KEYWORD] ∈ words s := by simp [hs]
  have hu : ∀ c ∈ u, isSpace c = false := fun c hc =>
    (of_mem_wordsBy hmem).2 c (List.mem_append.mpr (.inl hc))
  rw [hs, hunmark]
  intro heq
  have hwords := List.append_cancel_left heq
  -- The last word loses its mark, and is gone when it was nothing but the mark.
  by_cases hnil : u = []
  · subst hnil
    simp [words] at hwords
  · rw [words, wordsBy_eq_singleton hnil hu, List.singleton_inj] at hwords
    simp at hwords

/-- Every word but the last has a blank behind it. -/
theorem getBashCommand_concat (init : List Text) (last : Text) :
    ExternalCommand.getBashCommand (init ++ [last]) = init.flatMap (· ++ [' ']) ++ last := by
  -- The accumulator of the fold is what has been built so far.
  have hfold : ∀ (ws : List Text) (acc : Text),
      ws.foldl (fun bashCommand arg => bashCommand ++ arg ++ [' ']) acc =
        acc ++ ws.flatMap (· ++ [' ']) := by
    intro ws
    induction ws with
    | nil => simp
    | cons w ws ih =>
      intro acc
      rw [List.foldl_cons, ih, List.flatMap_cons]
      simp only [List.append_assoc]
  rw [ExternalCommand.getBashCommand, hfold, List.flatMap_append]
  simp

/-- Bash is given the words of the line, without the mark if there is one. -/
theorem words_bashCommand (s : Text) :
    words (ExternalCommand.bashCommand (words s)) = words (unmark s) := by
  have hspace : isSpace ' ' = true := by decide
  -- With a mark the last word loses it; without one the last word does not end with it.
  by_cases hm : Marked s
  · obtain ⟨ws, u, hs, hunmark⟩ := words_of_marked hm
    have hws : ∀ w ∈ ws, w ≠ [] ∧ ∀ c ∈ w, isSpace c = false := fun w hw =>
      of_mem_wordsBy (s := s) (by rw [← words, hs]; exact List.mem_append.mpr (.inl hw))
    rw [ExternalCommand.bashCommand, hs, getBashCommand_concat, ← List.append_assoc,
      removeTrailingBackgroundChar, if_pos List.getLast?_concat, List.dropLast_concat, hunmark,
      words, wordsBy_flatMap_append hspace hws]
    rfl
  · rw [unmark_of_not_marked hm]
    cases hwords : words s using List.reverseRecOn with
    | nil => simp [ExternalCommand.bashCommand, ExternalCommand.getBashCommand,
        removeTrailingBackgroundChar, words]
    | append_singleton ws w =>
      have hall : ∀ w' ∈ ws ++ [w], w' ≠ [] ∧ ∀ c ∈ w', isSpace c = false := fun w' hw' =>
        of_mem_wordsBy (s := s) (by rw [← words, hwords]; exact hw')
      have hw := hall w (by simp)
      have hlast : (ws.flatMap (· ++ [' ']) ++ w).getLast? ≠ some BACKGROUND_KEYWORD := by
        intro hlast
        rw [List.getLast?_append_of_ne_nil _ hw.1] at hlast
        obtain ⟨u, rfl⟩ := List.getLast?_eq_some_iff.mp hlast
        exact hm (marked_of_words hwords)
      rw [ExternalCommand.bashCommand, getBashCommand_concat, removeTrailingBackgroundChar,
        if_neg hlast, words,
        wordsBy_flatMap_append hspace fun w' hw' => hall w' (List.mem_append.mpr (.inl hw')),
        wordsBy_eq_singleton hw.1 hw.2]

/-- The words that are left without the mark depend on the words only. -/
theorem words_unmark_congr {s t : Text} (h : words s = words t) :
    words (unmark s) = words (unmark t) := by
  rw [← words_bashCommand s, h, words_bashCommand t]

/-! ## Builtin commands -/

/-- The command with these words is a builtin one. -/
def IsBuiltin (ws : List Text) : Prop := ∃ w ∈ ws.head?, w ∈ CommandExecutor.builtinCommands

instance (ws : List Text) : Decidable (IsBuiltin ws) :=
  inferInstanceAs (Decidable (∃ w ∈ ws.head?, w ∈ CommandExecutor.builtinCommands))

open CommandExecutor

/-- No builtin command is called by a word that ends with the mark. -/
theorem not_isBuiltin_of_marked_word (u : Text) (ws : List Text) :
    ¬ IsBuiltin ((u ++ [BACKGROUND_KEYWORD]) :: ws) := by
  intro h
  obtain ⟨w, hw, hmem⟩ := h
  cases hw
  -- No name of a builtin command ends with the mark.
  have hlast : ∀ b ∈ builtinCommands, b.getLast? ≠ some BACKGROUND_KEYWORD := by decide
  exact hlast _ hmem List.getLast?_concat

/-- The first word of an external command is the same with and without the mark, unless it
    is the marked word, which is no name of a builtin command. -/
theorem not_isBuiltin_of_unmark {s : Text} (hm : Marked s)
    (hb : ¬ IsBuiltin (words (unmark s))) : ¬ IsBuiltin (words s) := by
  obtain ⟨ws, u, hs, hunmark⟩ := words_of_marked hm
  rw [hs]
  cases ws with
  | nil => exact not_isBuiltin_of_marked_word u []
  | cons w ws =>
    rw [hunmark] at hb
    exact hb

/-! ## Pipelines -/

/-- In a marked pipeline the mark is at the end of the last part. -/
theorem splitCommand_of_marked {s : Text} (hm : Marked s) :
    ∃ init last, SmallShell.splitCommand s PIPE_DELIMITER =
      init ++ [last ++ [BACKGROUND_KEYWORD]] := by
  -- The mark is still there after trimming in front, so it ends the last part.
  have hltrim : Marked (ltrim s) := by
    obtain ⟨ws, u, hs, -⟩ := words_of_marked hm
    have hwords : words (ltrim s) = words s := wordsBy_dropWhile s
    exact marked_of_words (hwords.trans hs)
  obtain ⟨pre, spaces, hpre, hspaces⟩ := hltrim
  have hpipe : (BACKGROUND_KEYWORD == PIPE_DELIMITER) = false := by decide
  obtain ⟨init, last, -, hsplit⟩ := splitOnP_concat (· == PIPE_DELIMITER) pre hpipe
  refine ⟨init, last, ?_⟩
  rw [SmallShell.splitCommand, trim, hpre, rtrim_of_marked hspaces, parts, hsplit]
  simp

/-- `find` looks for the mark anywhere in the string. -/
theorem find_BACKGROUND_KEYWORD (s : Text) :
    (find [BACKGROUND_KEYWORD] s).isSome = true ↔ BACKGROUND_KEYWORD ∈ s :=
  findPattern_singleton_isSome

/-! ## Redirections -/

/-- The redirection operator is found in front of the mark. -/
theorem find_unmark {pattern pre ws : Text} (hne : pattern ≠ []) (hpat : ∀ c ∈ pattern, c = '>')
    (hws : ∀ c ∈ ws, isSpace c) :
    find pattern (pre ++ BACKGROUND_KEYWORD :: ws) = find pattern pre := by
  -- The operator cannot reach into the mark: neither the mark nor a space is `>`.
  refine findPattern_append hne (fun c hc hmem => ?_) pre
  have hgt := hpat c hmem
  subst hgt
  rcases List.mem_cons.mp hc with h | h
  · exact absurd h (by decide)
  · exact absurd (hws _ h) (by decide)

/-- The mark of a redirection that is not stripped ends up in the file name. -/
theorem tokenizeRedirectionCommand_unmark_ne {s : Text} (hm : Marked s)
    (hred : SmallShell.isRedirectionCommand s = true) :
    SmallShell.tokenizeRedirectionCommand s ≠ SmallShell.tokenizeRedirectionCommand (unmark s) := by
  obtain ⟨pre, ws, rfl, hws⟩ := hm
  rw [unmark_of_marked hws]
  have happend : ∀ c ∈ REDIRECTION_WITH_APPEND, c = '>' := by
    have htwo : REDIRECTION_WITH_APPEND = List.replicate 2 '>' := rfl
    rw [htwo]
    exact fun c hc => List.eq_of_mem_replicate hc
  have hnoAppend : ∀ c ∈ REDIRECTION_WITH_NO_APPEND, c = '>' := by
    have hone : REDIRECTION_WITH_NO_APPEND = List.replicate 1 '>' := rfl
    rw [hone]
    exact fun c hc => List.eq_of_mem_replicate hc
  -- Both operators are found where they are without the mark.
  have hop : ∀ op, op = REDIRECTION_WITH_APPEND ∨ op = REDIRECTION_WITH_NO_APPEND →
      find op (pre ++ BACKGROUND_KEYWORD :: ws) = find op pre := by
    rintro op (rfl | rfl)
    · exact find_unmark (by decide) happend hws
    · exact find_unmark (by decide) hnoAppend hws
  rw [SmallShell.isRedirectionCommand, hop _ (.inl rfl), hop _ (.inr rfl)] at hred
  simp only [SmallShell.tokenizeRedirectionCommand, hop _ (.inl rfl)]
  generalize hcurrent : (if (find REDIRECTION_WITH_APPEND pre).isNone then
    REDIRECTION_WITH_NO_APPEND else REDIRECTION_WITH_APPEND) = op
  have hcases : op = REDIRECTION_WITH_APPEND ∨ op = REDIRECTION_WITH_NO_APPEND := by
    subst hcurrent
    split <;> simp
  obtain ⟨index, hindex⟩ : ∃ index, find op pre = some index := by
    subst hcurrent
    rw [← Option.isSome_iff_exists]
    split
    · simp_all
    · simp_all [← Option.isSome_iff_ne_none]
  rw [hop op hcases, hindex, Option.getD_some]
  have hle : index + op.length ≤ pre.length := findPattern_add_length_le hindex
  intro htokens
  have hfile := congrArg SmallShell.RedirectionTokens.file htokens
  simp only at hfile
  rw [List.drop_append_of_le_length hle] at hfile
  -- The two file names have different words.
  have hmarked : Marked (pre.drop (index + op.length) ++ BACKGROUND_KEYWORD :: ws) :=
    ⟨_, ws, rfl, hws⟩
  apply words_unmark_ne hmarked
  rw [unmark_of_marked hws, ← parseCommandLine_eq, ← parseCommandLine_eq, parseCommandLine,
    parseCommandLine, hfile]

/-- The shell strips the mark where nothing stands behind it. -/
theorem removeTrailingBackgroundChar_eq_unmark {s : Text}
    (h : Marked s → s.getLast? = some BACKGROUND_KEYWORD) :
    removeTrailingBackgroundChar s = unmark s := by
  -- `removeTrailingBackgroundChar` looks at the very last character only.
  by_cases hm : Marked s
  · obtain ⟨pre, rfl⟩ := List.getLast?_eq_some_iff.mp (h hm)
    have hunmark : unmark (pre ++ [BACKGROUND_KEYWORD]) = pre := unmark_of_marked (by simp)
    rw [removeTrailingBackgroundChar, if_pos List.getLast?_concat, List.dropLast_concat, hunmark]
  · rw [unmark_of_not_marked hm, removeTrailingBackgroundChar, if_neg]
    intro hlast
    obtain ⟨pre, rfl⟩ := List.getLast?_eq_some_iff.mp hlast
    exact hm ⟨pre, [], rfl, by simp⟩

/-! ## The paths of a line -/

/-- A pipeline has two parts. -/
theorem path_pipe {line : Text} {args : List Text} (h : SmallShell.path line = .pipe args) :
    ∃ first second, args = [first, second] ∧
      SmallShell.splitCommand line PIPE_DELIMITER = args := by
  unfold SmallShell.path at h
  split at h
  · cases h
  · split at h
    · rename_i hpipe
      cases h
      rw [SmallShell.isPipeCommand, decide_eq_true_iff, List.length_eq_two] at hpipe
      obtain ⟨first, second, hsplit⟩ := hpipe
      exact ⟨first, second, hsplit, rfl⟩
    · split at h <;> cases h

/-- What `executeCommand` passes to the redirection. -/
theorem path_redirection {line : Text} {tokenizedArgs : SmallShell.RedirectionTokens}
    {isBackground append : Bool}
    (h : SmallShell.path line = .redirection tokenizedArgs isBackground append) :
    SmallShell.isRedirectionCommand line = true ∧
      tokenizedArgs =
        SmallShell.tokenizeRedirectionCommand (removeTrailingBackgroundChar line) ∧
      isBackground = SmallShell.isBackgroundCommand line := by
  unfold SmallShell.path at h
  split at h
  · cases h
  · split at h
    · cases h
    · split at h
      · rename_i hred
        cases h
        exact ⟨hred, rfl, rfl⟩
      · cases h

/-- The executor takes a line for an external command by its first word. -/
theorem lookup_external_iff {line : Text} (hne : words line ≠ []) (args : List Text) :
    lookup line = .external args ↔ ¬ IsBuiltin (words line) ∧ args = words line := by
  rw [lookup, parseCommandLine_eq]
  obtain ⟨w, ws, hws⟩ := List.exists_cons_of_ne_nil hne
  have hbuiltin : IsBuiltin (w :: ws) ↔ w ∈ builtinCommands := by simp [IsBuiltin]
  rw [hws, hbuiltin]
  by_cases hw : w ∈ builtinCommands
  · simp [hw]
  · simp [hw, eq_comm]

/-- The test of `ExternalCommand::execute` is about the last word. -/
theorem external_isBackGroundCommand_iff (args : List Text) :
    ExternalCommand.isBackGroundCommand args = true ↔ BACKGROUND_KEYWORD ∈ args.getLastD [] :=
  find_BACKGROUND_KEYWORD _

/-- The last word of a marked line has the mark in it. -/
theorem mem_last_of_marked {line : Text} (hm : Marked line) :
    BACKGROUND_KEYWORD ∈ (words line).getLastD [] := by
  obtain ⟨ws, u, hs, -⟩ := words_of_marked hm
  rw [hs, List.getLastD_concat]
  simp

end OsWet
