import OsWet.Spec.BashCommand

/-!
# Lines that are treated as their mark says

A line is treated as its mark says when every test that is made for it finds that it is to
run in the background exactly when it is marked, and what is run is the line without the
mark. A part of a pipeline and the command of a redirection go through the executor again,
and `ExternalCommand::execute` makes its own test on them.

A builtin command is compared by its words, which is all that it is given. An external one
is compared by the string that bash is given; the white space around it is no part of it.

## Main result

- `uniform_iff_uniformlyMarked`: which lines are treated as their mark says
-/

namespace OsWet

open Text CommandExecutor ExternalCommand

/-! ## What is run -/

/-- A command that is run: the words of a builtin one, or the string for bash. An empty
    string is no command. -/
inductive Ran where
  | builtin (words : List Text)
  | bash (command : Text)
  deriving DecidableEq, Repr

/-- The command that a string asks for. -/
def Ran.of (s : Text) : Ran := if IsBuiltin (words s) then .builtin (words s) else .bash s

/-- The command that `CommandExecutor::executeCommand` runs. -/
def CommandExecutor.runs (commandLine : Text) : Ran :=
  match lookup commandLine with
  | .nothing => .bash []
  | .builtin commandArg args => .builtin (commandArg :: args)
  | .external args => .bash (bashCommand args)

/-- `CommandExecutor::executeCommand` starts a background job: the command is external, and
    the test of `ExternalCommand::execute` says so. -/
def CommandExecutor.StartsBackground (commandLine : Text) : Prop :=
  ∃ args, lookup commandLine = .external args ∧ isBackGroundCommand args = true

/-- If this is an external command, the white space in it is single blanks, so that bash is
    given the command as it was typed. -/
def ReachesBash (s : Text) : Prop := ¬ IsBuiltin (words s) → SingleBlanks (trim s)

/-- If this is an external command, its last word has a `&` only if the line is marked. -/
def MarkedIfExternal (line s : Text) : Prop :=
  ¬ IsBuiltin (words s) → BACKGROUND_KEYWORD ∈ (words s).getLastD [] → Marked line

instance (s : Text) : Decidable (ReachesBash s) := inferInstanceAs (Decidable (_ → _))

instance (line s : Text) : Decidable (MarkedIfExternal line s) :=
  inferInstanceAs (Decidable (_ → _ → _))

/-- Trimming leaves the words as they are. -/
theorem words_trim (s : Text) : words (trim s) = words s := parseCommandLine_eq s

/-- The typed line has the words of the line without its mark. -/
theorem words_typed (s : Text) : words (typed s) = words (unmark s) :=
  words_unmark_congr (words_trim s)

/-- Without a mark the typed line is the trimmed one. -/
theorem typed_of_not_marked {s : Text} (h : ¬ Marked s) : typed s = trim s :=
  unmark_of_not_marked fun hm => h ((marked_congr (words_trim s)).mp hm)

/-- A builtin command gets its words. -/
theorem runs_of_builtin {s : Text} (h : IsBuiltin (words s)) : runs s = .builtin (words s) := by
  obtain ⟨w, hw, hbuiltin⟩ := h
  obtain ⟨ws, hws⟩ := List.head?_eq_some_iff.mp hw
  rw [runs, lookup, parseCommandLine_eq]
  simp only [hws, if_pos hbuiltin]

/-- Bash gets the words put together, without a mark. -/
theorem runs_of_external {s : Text} (h : ¬ IsBuiltin (words s)) :
    runs s = .bash (bashCommand (words s)) := by
  rw [runs, lookup, parseCommandLine_eq]
  cases hws : words s with
  | nil => rfl
  | cons w ws =>
    have hw : w ∉ builtinCommands := fun hmem => h ⟨w, by rw [hws]; rfl, hmem⟩
    simp only [if_neg hw]

/-- The executor runs a command as it is if it has no mark, or if it is builtin; and an
    external one has to reach bash. -/
theorem runs_eq_trim_iff (s : Text) :
    runs s = .of (trim s) ↔ (Marked s → IsBuiltin (words s)) ∧ ReachesBash s := by
  rw [Ran.of, words_trim]
  by_cases hb : IsBuiltin (words s)
  · -- A builtin command gets its words as they are.
    rw [if_pos hb, runs_of_builtin hb]
    exact ⟨fun _ => ⟨fun _ => hb, fun hnot => absurd hb hnot⟩, fun _ => rfl⟩
  · rw [if_neg hb, runs_of_external hb, Ran.bash.injEq]
    constructor
    · intro h
      -- Bash gets other words where a mark is stripped.
      have hm : ¬ Marked s := by
        intro hm
        apply words_unmark_ne hm
        rw [← words_bashCommand, h, words_trim]
      rw [← typed_of_not_marked hm, bashCommand_words_eq_typed_iff] at h
      exact ⟨fun hm' => absurd hm' hm, fun _ => h⟩
    · intro h
      rw [← typed_of_not_marked fun hm => hb (h.1 hm), bashCommand_words_eq_typed_iff]
      exact h.2 hb

/-- The executor runs a marked command without its mark exactly when what is left is not a
    builtin one, which it looks up with the mark still there, and reaches bash. -/
theorem runs_eq_typed_iff {s : Text} (hm : Marked s) :
    runs s = .of (typed s) ↔ ¬ IsBuiltin (words (unmark s)) ∧ ReachesBash s := by
  rw [Ran.of, words_typed]
  by_cases hb : IsBuiltin (words (unmark s))
  · rw [if_pos hb]
    refine ⟨fun h => ?_, fun h => absurd hb h.1⟩
    by_cases hbuiltin : IsBuiltin (words s)
    · -- The words that are run still have the mark.
      rw [runs_of_builtin hbuiltin, Ran.builtin.injEq] at h
      exact absurd h.symm (words_unmark_ne hm)
    · rw [runs_of_external hbuiltin] at h
      cases h
  · have hbuiltin := not_isBuiltin_of_unmark hm hb
    rw [if_neg hb, runs_of_external hbuiltin, Ran.bash.injEq, bashCommand_words_eq_typed_iff]
    exact ⟨fun h => ⟨hb, fun _ => h⟩, fun h => h.2 hbuiltin⟩

/-- With a mark or without one: the executor runs the line as its mark says. -/
theorem runs_eq_iff (s : Text) :
    runs s = .of (typed s) ↔ (Marked s → ¬ IsBuiltin (words (unmark s))) ∧ ReachesBash s := by
  by_cases hm : Marked s
  · rw [runs_eq_typed_iff hm]
    exact ⟨fun h => ⟨fun _ => h.1, h.2⟩, fun h => ⟨h.1 hm, h.2⟩⟩
  · rw [typed_of_not_marked hm, runs_eq_trim_iff]
    exact ⟨fun h => ⟨fun hm' => absurd hm' hm, h.2⟩, fun h => ⟨fun hm' => absurd hm' hm, h.2⟩⟩

/-- `ExternalCommand::execute` looks for a `&` anywhere in the last word. -/
theorem startsBackground_iff (s : Text) :
    StartsBackground s ↔
      ¬ IsBuiltin (words s) ∧ BACKGROUND_KEYWORD ∈ (words s).getLastD [] := by
  by_cases hne : words s = []
  · -- A blank part runs nothing.
    have hnothing : lookup s = .nothing := by rw [lookup, parseCommandLine_eq, hne]
    simp [StartsBackground, hnothing, hne]
  · constructor
    · intro h
      obtain ⟨args, hlookup, hbackground⟩ := h
      obtain ⟨hb, rfl⟩ := (lookup_external_iff hne args).mp hlookup
      exact ⟨hb, (external_isBackGroundCommand_iff _).mp hbackground⟩
    · intro h
      exact ⟨words s, (lookup_external_iff hne _).mpr ⟨h.1, rfl⟩,
        (external_isBackGroundCommand_iff _).mpr h.2⟩

/-- A part that starts a background job does so only in a marked line. -/
theorem startsBackground_imp_iff (line s : Text) :
    (StartsBackground s → Marked line) ↔ MarkedIfExternal line s := by
  rw [startsBackground_iff, and_imp]
  rfl

/-- A `&` in the last word is a `&` in the string. -/
theorem mem_of_mem_last {c : Char} {s : Text} (h : c ∈ (words s).getLastD []) : c ∈ s := by
  have hne : words s ≠ [] := by
    intro hnil
    rw [hnil] at h
    cases h
  rw [List.getLastD_eq_getLast?, List.getLast?_eq_some_getLast hne] at h
  exact (infix_of_mem_wordsBy (List.getLast_mem hne)).subset h

/-! ## Uniform marking -/

/-- The line is treated as its mark says. The test of the path that it takes finds that it
    is to run in the background exactly when it is marked; a command inside it is taken for
    a background one only if the line is marked; and what is run is the line without the
    mark. -/
def Uniform (line : Text) : Prop :=
  match SmallShell.path line with
  | .blank => True
  | .pipe args =>
    (PipeCommand.isBackGroundCommand args = true ↔ Marked line) ∧
      (∀ part ∈ args, StartsBackground part → Marked line) ∧
      runs (args.getD 0 []) = .of (trim (args.getD 0 [])) ∧
      runs (args.getD 1 []) =
        .of (if Marked line then typed (args.getD 1 []) else trim (args.getD 1 []))
  | .redirection tokenizedArgs isBackground _ =>
    (isBackground = true ↔ Marked line) ∧
      (StartsBackground tokenizedArgs.command → Marked line) ∧
      tokenizedArgs = SmallShell.tokenizeRedirectionCommand (unmark line) ∧
      runs tokenizedArgs.command = .of (trim tokenizedArgs.command)
  | .executor line =>
    (∀ args, lookup line = .external args → (isBackGroundCommand args = true ↔ Marked line)) ∧
      runs line = .of (typed line)

/-- When a line on this path is treated as its mark says. A pipeline: `&` is in its second
    part, and in the last word of an external first part, only if the line is marked; the
    first command is not an external one with a mark of its own; and the second command
    without the mark is not builtin. A redirection: nothing stands behind the mark; the last
    word of an external command has `&` only if the line is marked; and the command is not
    an external one with a mark of its own. Any other line: `&` is in the last word of an
    external command only as the mark, and the command without the mark is not builtin if
    there is a mark. On every path an external command reaches bash as it was typed. -/
def SmallShell.Path.UniformlyMarked (line : Text) : SmallShell.Path → Prop
  | .blank => True
  | .pipe args =>
    (BACKGROUND_KEYWORD ∈ args.getD 1 [] → Marked line) ∧
      MarkedIfExternal line (args.getD 0 []) ∧
      (Marked (args.getD 0 []) → IsBuiltin (words (args.getD 0 []))) ∧
      (Marked line → ¬ IsBuiltin (words (unmark (args.getD 1 [])))) ∧
      ReachesBash (args.getD 0 []) ∧ ReachesBash (args.getD 1 [])
  | .redirection tokenizedArgs _ _ =>
    (Marked line → line.getLast? = some BACKGROUND_KEYWORD) ∧
      MarkedIfExternal line tokenizedArgs.command ∧
      (Marked tokenizedArgs.command → IsBuiltin (words tokenizedArgs.command)) ∧
      ReachesBash tokenizedArgs.command
  | .executor line =>
    MarkedIfExternal line line ∧ (Marked line → ¬ IsBuiltin (words (unmark line))) ∧
      ReachesBash line

/-- When a line is treated as its mark says. -/
def UniformlyMarked (line : Text) : Prop := (SmallShell.path line).UniformlyMarked line

instance (line : Text) : DecidablePred (SmallShell.Path.UniformlyMarked line)
  | .blank => inferInstanceAs (Decidable True)
  | .pipe _ => inferInstanceAs (Decidable (_ ∧ _ ∧ _ ∧ _ ∧ _ ∧ _))
  | .redirection _ _ _ => inferInstanceAs (Decidable (_ ∧ _ ∧ _ ∧ _))
  | .executor _ => inferInstanceAs (Decidable (_ ∧ _ ∧ _))

instance (line : Text) : Decidable (UniformlyMarked line) :=
  inferInstanceAs (Decidable ((SmallShell.path line).UniformlyMarked line))

/-- The second part of a pipeline is marked when the line is. -/
theorem marked_second {line first second : Text} (hm : Marked line)
    (hsplit : SmallShell.splitCommand line PIPE_DELIMITER = [first, second]) : Marked second := by
  obtain ⟨init, last, hlast⟩ := splitCommand_of_marked hm
  rw [hsplit] at hlast
  have hlast : [first] ++ [second] = init ++ [last ++ [BACKGROUND_KEYWORD]] := hlast
  obtain ⟨-, h⟩ := List.append_inj' hlast rfl
  exact ⟨last, [], List.singleton_inj.mp h, by simp⟩

/-- The second command of a pipeline is run as the mark of the line says. -/
theorem runs_second_iff {line second : Text} (hmarked : Marked line → Marked second)
    (hmem : BACKGROUND_KEYWORD ∈ second → Marked line) :
    runs second = .of (if Marked line then typed second else trim second) ↔
      (Marked line → ¬ IsBuiltin (words (unmark second))) ∧ ReachesBash second := by
  by_cases hm : Marked line
  · rw [if_pos hm, runs_eq_typed_iff (hmarked hm)]
    exact ⟨fun h => ⟨fun _ => h.1, h.2⟩, fun h => ⟨h.1 hm, h.2⟩⟩
  · -- Without a mark on the line there is no `&` in the second part.
    have hsecond : ¬ Marked second := by
      intro h
      obtain ⟨pre, ws, rfl, -⟩ := h
      exact hm (hmem (by simp))
    rw [if_neg hm, runs_eq_trim_iff]
    exact ⟨fun h => ⟨fun hm' => absurd hm' hm, h.2⟩,
      fun h => ⟨fun hm' => absurd hm' hsecond, h.2⟩⟩

/-- The two parts of a pipeline and its test. -/
theorem pipe_uniform_iff {line first second : Text}
    (hsplit : SmallShell.splitCommand line PIPE_DELIMITER = [first, second]) :
    ((PipeCommand.isBackGroundCommand [first, second] = true ↔ Marked line) ∧
      (∀ part ∈ [first, second], StartsBackground part → Marked line) ∧
      runs first = .of (trim first) ∧
      runs second = .of (if Marked line then typed second else trim second)) ↔
    SmallShell.Path.UniformlyMarked line (.pipe [first, second]) := by
  have hmarked : Marked line → Marked second := fun hm => marked_second hm hsplit
  have hmemof : Marked line → BACKGROUND_KEYWORD ∈ second := by
    intro hm
    obtain ⟨pre, ws, hsecond, -⟩ := hmarked hm
    simp [hsecond]
  -- The test of a pipeline looks for the mark anywhere in the second part.
  have htest : (PipeCommand.isBackGroundCommand [first, second] = true ↔ Marked line) ↔
      (BACKGROUND_KEYWORD ∈ second → Marked line) := by
    rw [show PipeCommand.isBackGroundCommand [first, second] = true ↔
      BACKGROUND_KEYWORD ∈ second from find_BACKGROUND_KEYWORD second]
    exact ⟨fun h => h.mp, fun h => ⟨h, hmemof⟩⟩
  -- So what the executor finds in the second part adds nothing to it.
  have hparts : (BACKGROUND_KEYWORD ∈ second → Marked line) →
      ((∀ part ∈ [first, second], StartsBackground part → Marked line) ↔
        MarkedIfExternal line first) := by
    intro hmem
    have hsecond : StartsBackground second → Marked line := fun h =>
      hmem (mem_of_mem_last ((startsBackground_iff second).mp h).2)
    simp only [List.forall_mem_cons, List.not_mem_nil, false_imp_iff, implies_true, and_true,
      startsBackground_imp_iff line first]
    exact ⟨fun h => h.1, fun h => ⟨h, hsecond⟩⟩
  rw [htest]
  constructor
  · intro h
    obtain ⟨hmem, hstarts, hfirst, hsecond⟩ := h
    obtain ⟨hfirst, hreaches⟩ := (runs_eq_trim_iff first).mp hfirst
    obtain ⟨hsecond, hreaches'⟩ := (runs_second_iff hmarked hmem).mp hsecond
    exact ⟨hmem, (hparts hmem).mp hstarts, hfirst, hsecond, hreaches, hreaches'⟩
  · intro h
    obtain ⟨hmem, hstarts, hfirst, hsecond, hreaches, hreaches'⟩ := h
    exact ⟨hmem, (hparts hmem).mpr hstarts, (runs_eq_trim_iff first).mpr ⟨hfirst, hreaches⟩,
      (runs_second_iff hmarked hmem).mpr ⟨hsecond, hreaches'⟩⟩

/-- The command and the file of a redirection are those of the line without its mark exactly
    when nothing stands behind the mark. -/
theorem tokens_eq_iff {line : Text} (hred : SmallShell.isRedirectionCommand line = true) :
    SmallShell.tokenizeRedirectionCommand (removeTrailingBackgroundChar line) =
        SmallShell.tokenizeRedirectionCommand (unmark line) ↔
      (Marked line → line.getLast? = some BACKGROUND_KEYWORD) := by
  constructor
  · intro htokens hm
    by_contra hlast
    rw [removeTrailingBackgroundChar, if_neg hlast] at htokens
    exact tokenizeRedirectionCommand_unmark_ne hm hred htokens
  · intro hlast
    rw [removeTrailingBackgroundChar_eq_unmark hlast]

/-- Lines are treated as their mark says exactly when they are uniformly marked. -/
theorem uniform_iff_uniformlyMarked (line : Text) : Uniform line ↔ UniformlyMarked line := by
  unfold Uniform UniformlyMarked
  cases hpath : SmallShell.path line with
  | blank => exact Iff.rfl
  | pipe args =>
    obtain ⟨first, second, rfl, hsplit⟩ := path_pipe hpath
    exact pipe_uniform_iff hsplit
  | redirection tokenizedArgs isBackground append =>
    -- The test of this path is right; the stripping and the command inside can go wrong.
    obtain ⟨hred, rfl, rfl⟩ := path_redirection hpath
    simp only [SmallShell.Path.UniformlyMarked, isBackgroundCommand_iff, tokens_eq_iff hred,
      startsBackground_imp_iff, runs_eq_trim_iff, true_and]
    exact and_left_comm
  | executor line' =>
    obtain ⟨rfl, hne⟩ := SmallShell.path_eq_executor hpath
    rw [parseCommandLine_eq] at hne
    refine and_congr ?_ (runs_eq_iff line')
    simp only [lookup_external_iff hne, external_isBackGroundCommand_iff]
    -- A marked line has the `&` in its last word, so only the other direction can fail.
    constructor
    · intro h hb hmem
      exact (h _ ⟨hb, rfl⟩).mp hmem
    · intro h args h'
      obtain ⟨hb, rfl⟩ := h'
      exact ⟨h hb, mem_last_of_marked⟩

example : UniformlyMarked (text " ls -l | wc & ") ∧ ¬ UniformlyMarked (text "echo a&b | cat") ∧
    ¬ UniformlyMarked (text "echo a&b > f") ∧ ¬ UniformlyMarked (text "echo 'a  b' &") := by
  decide

/-- `echo a&b` is not marked, and runs in the background. -/
theorem echo_not_uniform :
    words (text "echo a&b") ≠ [] ∧ ¬ Uniform (text "echo a&b") := by
  refine ⟨by decide, fun h => ?_⟩
  have hpath : SmallShell.path (text "echo a&b") = .executor (text "echo a&b") := by decide
  have hlookup : lookup (text "echo a&b") = .external [text "echo", text "a&b"] := by decide
  rw [Uniform, hpath] at h
  exact absurd ((h.1 _ hlookup).mp (by decide)) (by decide)

end OsWet
