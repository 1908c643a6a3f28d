import OsWet.Native.ChangeDir

/-!
# The records of `cd`

The shell records the directory it is in and the one before. `cd` changes the directory of
the process first and asks for its name then, so when there is no name the process has
moved and the records have not: `pwd` prints the old directory, and the next `cd` records
the wrong previous one. This is the only way in which the records go wrong.

## Main result

- `cd_records_true_iff`: along a run the records are true exactly when every step meets
  `NameFollows`
-/

namespace OsWet

open Text

variable {Dir : Type*} (fs : Directories Dir)

/-! ## What one command does -/

namespace ChangeDirCommand

/-- What `cd` calls `chdir` with, if it calls it. -/
def chdirPath (s : DirState Dir) : List Text → Option Text
  | [arg] =>
    if arg = SPECIAL_ARG_TO_CHANGE_TO_PREV_DIRECTORY then
      if s.previousDirectory = [] then none else some s.previousDirectory
    else some arg
  | _ => none

/-- A `cd` that does not get to `chdir` changes nothing. -/
theorem execute_of_chdirPath_none {s : DirState Dir} {args : List Text}
    (h : chdirPath s args = none) (answers : DirAnswers) : (execute fs s args answers).1 = s := by
  match args with
  | [] => rfl
  | [arg] =>
    simp only [chdirPath] at h
    split at h
    case isTrue harg =>
      split at h
      case isTrue hunset => simp [execute, MAX_NUM_OF_ARGS, harg, hunset]
      case isFalse => cases h
    case isFalse => cases h
  | arg :: arg' :: args => simp [execute, MAX_NUM_OF_ARGS]

/-- With a directory to go to, `cd` tries to go there. -/
theorem execute_of_chdirPath_some {s : DirState Dir} {args : List Text} {path : Text}
    (h : chdirPath s args = some path) (answers : DirAnswers) :
    execute fs s args answers = changeTo fs s path answers := by
  match args with
  | [] => cases h
  | [arg] =>
    simp only [chdirPath] at h
    split at h
    case isTrue harg =>
      split at h
      case isTrue => cases h
      case isFalse hset =>
        cases h
        simp [execute, MAX_NUM_OF_ARGS, harg, hset]
    case isFalse harg =>
      cases h
      simp [execute, MAX_NUM_OF_ARGS, harg]
  | arg :: arg' :: args => cases h

/-- When `chdir` fails nothing changes. -/
theorem changeTo_of_chdir_fails (s : DirState Dir) (path : Text) {answers : DirAnswers}
    (h : answers.chdir = false) :
    changeTo fs s path answers = (s, [.perror (text "smash error: chdir failed")]) := by
  simp [changeTo, Directories.chdir, h]

/-- When the name of the directory cannot be found, the shell has moved and its record has not. -/
theorem changeTo_of_no_name (s : DirState Dir) (path : Text) {answers : DirAnswers}
    (h : answers.chdir = true) (hname : answers.get_current_dir_name = false) :
    changeTo fs s path answers =
      ({ s with
          workingDirectory := fs.resolve s.workingDirectory path
          left := s.workingDirectory :: s.left },
        [.perror (text "smash error: get_current_dir_name failed")]) := by
  simp [changeTo, Directories.chdir, Directories.get_current_dir_name, h, hname]

/-- When both calls succeed, the record is that of the new directory. -/
theorem changeTo_of_name (s : DirState Dir) (path : Text) {answers : DirAnswers}
    (h : answers.chdir = true) (hname : answers.get_current_dir_name = true) :
    changeTo fs s path answers =
      ({ currentDirectory := fs.name (fs.resolve s.workingDirectory path)
         previousDirectory := s.currentDirectory
         workingDirectory := fs.resolve s.workingDirectory path
         left := s.workingDirectory :: s.left }, []) := by
  simp [changeTo, Directories.chdir, Directories.get_current_dir_name, h, hname]

end ChangeDirCommand

open ChangeDirCommand

/-! ## What the records should say -/

/-- The records name the directory that the process is in and the one that it was in before
    the last change; without a change the second one is not set. -/
structure RecordsTrue (s : DirState Dir) : Prop where
  current : s.currentDirectory = fs.name s.workingDirectory
  previous : s.previousDirectory = (s.left.head?.map fs.name).getD []

/-- Two `cd -` in a row that succeed end where they started, with the same records. -/
def Returns (s : DirState Dir) : Prop :=
  ∀ answers answers' s₁ s₂,
    execute fs s [SPECIAL_ARG_TO_CHANGE_TO_PREV_DIRECTORY] answers = (s₁, []) →
    execute fs s₁ [SPECIAL_ARG_TO_CHANGE_TO_PREV_DIRECTORY] answers' = (s₂, []) →
    s₂.workingDirectory = s.workingDirectory ∧ s₂.currentDirectory = s.currentDirectory ∧
      s₂.previousDirectory = s.previousDirectory

/-- A message on standard error. -/
def Output.isError : Output → Bool
  | .cout _ => false
  | .cerr _ => true
  | .perror _ => true

/-- A command that prints an error leaves the working directory and the records. -/
def ErrorLeaves (s : DirState Dir) (action : DirAction) : Prop :=
  ∀ s' out, (dirMachine fs).step s action = .ok (s', out) → (∃ o ∈ out, o.isError) →
    s'.workingDirectory = s.workingDirectory ∧ s'.currentDirectory = s.currentDirectory ∧
      s'.previousDirectory = s.previousDirectory

/-- A `chdir` that succeeds is followed by a `get_current_dir_name` that succeeds, unless it
    stays in a directory that the process was in before as well. -/
def NameFollows (s : DirState Dir) : DirAction → Prop
  | .cd args answers => ∀ path ∈ chdirPath s args, answers.chdir →
      answers.get_current_dir_name ∨
        fs.resolve s.workingDirectory path = s.workingDirectory ∧
          s.left.head? = some s.workingDirectory
  | .pwd _ => True

variable {fs}

/-! ## One step -/

/-- What a step does: nothing, or a change of directory with or without a name for it. -/
theorem dirMachine_step_cases {s s' : DirState Dir} {action : DirAction} {out : List Output}
    (h : (dirMachine fs).step s action = .ok (s', out)) :
    s' = s ∧ NameFollows fs s action ∨
      ∃ args answers path, action = .cd args answers ∧ chdirPath s args = some path ∧
        answers.chdir = true ∧ (s', out) = changeTo fs s path answers := by
  cases action with
  -- `pwd` reads the records and changes nothing.
  | pwd args =>
    left
    obtain ⟨rfl, -⟩ := Prod.mk.inj (Outcome.ok.inj h)
    exact ⟨rfl, trivial⟩
  | cd args answers =>
    have h := (Outcome.ok.inj h).symm
    -- No path, or a `chdir` that fails: nothing changes.
    cases hpath : chdirPath s args with
    | none =>
      left
      have hs := execute_of_chdirPath_none fs hpath answers
      rw [← h] at hs
      exact ⟨hs, fun path hmem => by rw [hpath] at hmem; cases hmem⟩
    | some path =>
      rw [execute_of_chdirPath_some fs hpath] at h
      cases hchdir : answers.chdir with
      | false =>
        left
        rw [changeTo_of_chdir_fails fs s path hchdir] at h
        obtain ⟨rfl, -⟩ := Prod.mk.inj h
        exact ⟨rfl, fun _ _ hc => by rw [hchdir] at hc; cases hc⟩
      | true => exact .inr ⟨args, answers, path, rfl, hpath, hchdir, h⟩

/-- The record is true at the start. -/
theorem recordsTrue_initEnvironment (d : Dir) : RecordsTrue fs (fs.initEnvironment d) := ⟨rfl, rfl⟩

/-- Two directories with one name are the same: the name leads to both. -/
theorem Directories.name_inj (fs : Directories Dir) {d d' : Dir} (h : fs.name d = fs.name d') :
    d = d' := by
  rw [← fs.resolve_name d d, h, fs.resolve_name]

/-- A set record of the previous directory names the directory that was left last. -/
theorem RecordsTrue.exists_left {s : DirState Dir} (hs : RecordsTrue fs s)
    (h : s.previousDirectory ≠ []) :
    ∃ d, s.left.head? = some d ∧ s.previousDirectory = fs.name d := by
  have hprevious := hs.previous
  cases hleft : s.left.head? with
  | none =>
    rw [hleft] at hprevious
    exact absurd hprevious h
  | some d =>
    rw [hleft] at hprevious
    exact ⟨d, rfl, hprevious⟩

/-- A step keeps the record true if its name follows. -/
theorem recordsTrue_step {s s' : DirState Dir} {action : DirAction} {out : List Output}
    (hs : RecordsTrue fs s) (hfollows : NameFollows fs s action)
    (h : (dirMachine fs).step s action = .ok (s', out)) : RecordsTrue fs s' := by
  obtain ⟨rfl, -⟩ | ⟨args, answers, path, rfl, hpath, hchdir, h⟩ := dirMachine_step_cases h
  · -- A step without a change of the directory keeps what the records say.
    exact hs
  · cases hname : answers.get_current_dir_name with
    | true =>
      -- The new name is that of the new directory, the old name that of the old one.
      rw [changeTo_of_name fs s path hchdir hname] at h
      obtain ⟨rfl, -⟩ := Prod.mk.inj h
      exact ⟨rfl, hs.current⟩
    | false =>
      -- The change went nowhere, and the record of the directory before says so already.
      rw [changeTo_of_no_name fs s path hchdir hname] at h
      obtain ⟨rfl, -⟩ := Prod.mk.inj h
      have hstays := hfollows path hpath hchdir
      rw [hname] at hstays
      obtain ⟨hresolve, hleft⟩ := hstays.resolve_left (by decide)
      have hprevious := hs.previous
      rw [hleft] at hprevious
      exact ⟨by rw [hresolve]; exact hs.current, hprevious⟩

/-- A step that does not meet `NameFollows` moves the process away from its records. -/
theorem not_recordsTrue_step {s s' : DirState Dir} {action : DirAction} {out : List Output}
    (hs : RecordsTrue fs s) (hfollows : ¬ NameFollows fs s action)
    (h : (dirMachine fs).step s action = .ok (s', out)) : ¬ RecordsTrue fs s' := by
  obtain ⟨rfl, hf⟩ | ⟨args, answers, path, rfl, hpath, hchdir, h⟩ := dirMachine_step_cases h
  · exact absurd hf hfollows
  · intro hs'
    apply hfollows
    intro path' hpath' _
    rw [hpath] at hpath'
    obtain rfl := Option.some.inj hpath'
    -- A name that was given makes the step follow the condition.
    cases hname : answers.get_current_dir_name with
    | true => exact .inl rfl
    | false =>
      right
      rw [changeTo_of_no_name fs s path hchdir hname] at h
      obtain ⟨rfl, -⟩ := Prod.mk.inj h
      -- The records are the old ones, so they are true only of the old directories.
      have hcurrent : fs.name s.workingDirectory = fs.name (fs.resolve s.workingDirectory path) :=
        hs.current.symm.trans hs'.current
      have hprevious : s.previousDirectory = fs.name s.workingDirectory := hs'.previous
      obtain ⟨d, hleft, hd⟩ := hs.exists_left (by rw [hprevious]; exact fs.name_ne_nil _)
      rw [hprevious] at hd
      exact ⟨(fs.name_inj hcurrent).symm, by rw [hleft, fs.name_inj hd]⟩

/-- What prints an error and meets `NameFollows` changes nothing that is recorded. -/
theorem errorLeaves_of_nameFollows {s : DirState Dir} {action : DirAction}
    (hfollows : NameFollows fs s action) : ErrorLeaves fs s action := by
  intro s' out h herror
  obtain ⟨rfl, -⟩ | ⟨args, answers, path, rfl, hpath, hchdir, h⟩ := dirMachine_step_cases h
  · exact ⟨rfl, rfl, rfl⟩
  · cases hname : answers.get_current_dir_name with
    | true =>
      -- The command has succeeded, and prints nothing.
      rw [changeTo_of_name fs s path hchdir hname] at h
      obtain ⟨-, rfl⟩ := Prod.mk.inj h
      simp at herror
    | false =>
      rw [changeTo_of_no_name fs s path hchdir hname] at h
      obtain ⟨rfl, -⟩ := Prod.mk.inj h
      have hstays := hfollows path hpath hchdir
      rw [hname] at hstays
      exact ⟨(hstays.resolve_left (by decide)).1, rfl, rfl⟩

/-! ## Going back -/

/-- A `cd -` that prints no error has gone to the recorded directory. -/
theorem execute_previous_eq {s s' : DirState Dir} {answers : DirAnswers}
    (h : execute fs s [SPECIAL_ARG_TO_CHANGE_TO_PREV_DIRECTORY] answers = (s', [])) :
    s.previousDirectory ≠ [] ∧
      s' = { currentDirectory := fs.name (fs.resolve s.workingDirectory s.previousDirectory)
             previousDirectory := s.currentDirectory
             workingDirectory := fs.resolve s.workingDirectory s.previousDirectory
             left := s.workingDirectory :: s.left } := by
  -- Without a previous directory `cd -` prints an error.
  by_cases hunset : s.previousDirectory = []
  · simp [execute, MAX_NUM_OF_ARGS, hunset] at h
  · have hpath : chdirPath s [SPECIAL_ARG_TO_CHANGE_TO_PREV_DIRECTORY] =
        some s.previousDirectory := by
      simp [chdirPath, hunset]
    rw [execute_of_chdirPath_some fs hpath] at h
    refine ⟨hunset, ?_⟩
    -- Only the way where both calls succeed prints nothing.
    cases hchdir : answers.chdir with
    | false => simp [changeTo_of_chdir_fails fs s _ hchdir] at h
    | true =>
      cases hname : answers.get_current_dir_name with
      | false => simp [changeTo_of_no_name fs s _ hchdir hname] at h
      | true =>
        rw [changeTo_of_name fs s _ hchdir hname] at h
        exact (Prod.mk.inj h).1.symm

/-- With a true record two `cd -` in a row end where they started. -/
theorem RecordsTrue.returns {s : DirState Dir} (hs : RecordsTrue fs s) : Returns fs s := by
  intro answers answers' s₁ s₂ h₁ h₂
  obtain ⟨hset, rfl⟩ := execute_previous_eq h₁
  obtain ⟨-, rfl⟩ := execute_previous_eq h₂
  obtain ⟨d, -, hd⟩ := hs.exists_left hset
  -- The first goes to the directory that was left, the second to the one it came from.
  simp only [hd, hs.current, fs.resolve_name, and_self]

/-! ## Runs -/

/-- Along a run of `cd` and `pwd` the records are true, `cd -` leads back, and a command that
    prints an error changes nothing, exactly when every step meets `NameFollows`. -/
theorem cd_records_true_iff (fs : Directories Dir) (d : Dir) (actions : List DirAction) :
    ((dirMachine fs).EveryState (fun s => RecordsTrue fs s ∧ Returns fs s)
        (fs.initEnvironment d) actions ∧
      (dirMachine fs).EveryStep (ErrorLeaves fs) (fs.initEnvironment d) actions) ↔
      (dirMachine fs).EveryStep (NameFollows fs) (fs.initEnvironment d) actions := by
  have hstates := Machine.everyState_iff_everyStep (M := dirMachine fs)
    (P := fun s => RecordsTrue fs s ∧ Returns fs s) (recordsTrue_initEnvironment d)
    (fun s hs => ⟨hs, hs.returns⟩) (fun s action s' o => recordsTrue_step)
    (fun s action s' o hs hfollows h hs' => not_recordsTrue_step hs hfollows h hs'.1) actions
  constructor
  · intro h
    exact hstates.mp h.1
  · intro h
    refine ⟨hstates.mpr h, ?_⟩
    exact Machine.everyStep_of_everyStep (recordsTrue_initEnvironment d)
      (fun s action s' o hs hfollows hstep =>
        ⟨recordsTrue_step hs hfollows hstep, errorLeaves_of_nameFollows hfollows⟩) h

/-! ## A file system with two directories -/

/-- `/` and `/a`. -/
def twoDirectories : Directories Bool where
  name d := if d then text "/a" else text "/"
  resolve d path :=
    if path = text "/a" ∨ path = text "a" then true
    else if path = text "/" ∨ path = text ".." then false
    else d
  name_ne_nil := by decide
  resolve_name := by decide

/-- `cd a` moves the process to `/a` and gets no name for it: an error is printed, `pwd` goes
    on printing `/`, and the records are not true any more. -/
theorem cd_without_name_moves :
    ∃ s out, (dirMachine twoDirectories).exec (twoDirectories.initEnvironment false)
        [.cd [text "a"] ⟨true, false⟩, .pwd []] = .ok (s, out) ∧
      out = [.perror (text "smash error: get_current_dir_name failed"), .cout (text "/")] ∧
      twoDirectories.name s.workingDirectory = text "/a" ∧ s.currentDirectory = text "/" ∧
      ¬ RecordsTrue twoDirectories s := by
  refine ⟨_, _, rfl, rfl, rfl, rfl, fun h => ?_⟩
  exact absurd h.current (by decide)

end OsWet
