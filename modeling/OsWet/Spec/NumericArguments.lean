import OsWet.Spec.NumberText
import OsWet.Spec.SmashStep

/-!
# What the numbers given to `fg`, `bg` and `kill` stand for

The commands check that an argument is a number, and then convert it to an `int` without
another check. A number that does not fit becomes a different one: the commands look up
the wrong job, and `kill` sends the wrong signal. With numbers that fit they do what the
arguments say.

## Main result

- `JobCommand.means_iff`: the arguments mean what they say exactly when the numbers fit an
  `int`; another job is acted on exactly when it has the id that the number turns into
-/

namespace OsWet

open Text

/-! ## The exact value of an argument -/

namespace Text

/-- The number that an argument says. -/
def value (arg : Text) : Int :=
  let (negative, digits) := sign (arg.dropWhile isSpace)
  if negative then -decimal digits else decimal digits

/-- What `strtol` or `atoi` and the conversion to `int` make of a number. -/
def narrow (n : Int) : Int := toInt (max LONG_MIN (min LONG_MAX n))

/-- A number is kept when it is cut to an `int` exactly if it fits. -/
theorem narrow_eq_iff (n : Int) : narrow n = n ↔ FitsInt n := by
  have hbounds := toInt_bounds (max LONG_MIN (min LONG_MAX n))
  constructor
  · intro h
    rw [← h]
    exact hbounds
  · intro h
    have hclamp : max LONG_MIN (min LONG_MAX n) = n := by
      unfold FitsInt at h
      unfold LONG_MIN LONG_MAX
      omega
    rw [narrow, hclamp]
    exact (toInt_eq_iff n).mpr h

/-- An argument that is a number as a whole is read as its exact value, narrowed. -/
theorem strtol_fst_of_whole {arg : Text} (hend : (strtol arg).2 = []) (hne : (strtol arg).2 ≠ arg) :
    toInt (strtol arg).1 = narrow (value arg) := by
  unfold strtol value narrow at *
  generalize sign (arg.dropWhile isSpace) = signed at *
  obtain ⟨negative, rest⟩ := signed
  dsimp only at *
  split at hend
  case isTrue hdigits =>
    -- Without a digit `strtol` ends where it started.
    rw [if_pos hdigits] at hne
    exact absurd rfl hne
  case isFalse hdigits =>
    have hall : rest.takeWhile isDigit = rest :=
      List.takeWhile_eq_self_iff.mpr (List.dropWhile_eq_nil_iff.mp hend)
    rw [if_neg hdigits, hall]

/-- `atoi` reads a string of digits, also an empty one. -/
theorem atoi_of_digits {s : Text} (h : ∀ c ∈ s, isDigit c = true) : atoi s = narrow (value s) := by
  obtain ⟨hspace, hsign⟩ := sign_of_digits h
  by_cases hnil : s = []
  · subst hnil
    decide
  · rw [atoi, strtol_of_digits hspace hsign h hnil, narrow, value, dropWhile_isSpace hspace, hsign]

end Text

/-! ## The commands -/

/-- A command that acts on a job. -/
inductive JobCommand where
  | fg
  | bg
  | kill
  deriving DecidableEq, Repr

namespace JobCommand

/-- The word that asks for the command. -/
def name : JobCommand → Text
  | .fg => text "fg"
  | .bg => text "bg"
  | .kill => text "kill"

/-- What the command accepts as its arguments. -/
def areParamsValid : JobCommand → List Text → Bool
  | .fg => ForegroundCommand.areParamsValid
  | .bg => ForegroundCommand.areParamsValid
  | .kill => KillCommand.areParamsValid

/-- The command as the shell executes it. -/
def execute (command : JobCommand) (s : Smash) (args : List Text) (env : Env) :
    Smash × List Output :=
  match command with
  | .fg => s.executeForeground args env.permitted
  | .bg =>
    let (jobsList, children, out) := BackgroundCommand.execute s.shell.jobsList s.children args
      env.permitted env.now env.now'
    ({ shell := { s.shell with jobsList := jobsList }
       children := children
       point := .prompt }, out)
  | .kill =>
    let (children, out) := KillCommand.execute s.shell.jobsList s.children args env.permitted
    ({ s with children := children, point := .prompt }, out)

/-- A line that asks for the command executes it. -/
theorem execute_eq {s : Smash} {cmd_line line : Text} {args : List Text} {env : Env}
    {command : JobCommand} (hpath : SmallShell.path cmd_line = .executor line)
    (hlookup : CommandExecutor.lookup line = .builtin command.name args) :
    s.execute cmd_line env = .ok (command.execute
      { s with shell := { s.shell with currentCommand := cmd_line } } args env) := by
  have hnames : text "fg" ≠ text "bg" ∧ text "fg" ≠ text "kill" ∧ text "bg" ≠ text "kill" := by
    decide
  simp only [Smash.execute, hpath, hlookup]
  cases command with
  | fg => rw [name, if_pos rfl, execute]
  | bg =>
    rw [name, if_neg hnames.1.symm, if_pos rfl]
    rfl
  | kill =>
    rw [name, if_neg hnames.2.1.symm, if_neg hnames.2.2.symm, if_pos rfl]
    rfl

/-- The argument that is to be the id of a job. -/
def jobArg (command : JobCommand) (args : List Text) : Option Text :=
  match command with
  | .fg => args[0]?
  | .bg => args[0]?
  | .kill => args[1]?

/-- The number after the `-`. -/
def signalValue (args : List Text) : Int := value ((args.getD 0 []).drop 1)

/-- The message for a job that is not in the list. -/
def noSuchJob (command : JobCommand) (jobId : Int) : Output :=
  .cerr (text "smash error: " ++ command.name ++ text ": job-id " ++ toText jobId ++
    text " does not exist")

/-- What the command does to a job; `kill` sends the signal `signalNumber`. -/
def act (command : JobCommand) (signalNumber : Int) (s : Smash) (env : Env) (job : JobEntry) :
    Smash × List Output :=
  let line := Output.cout (job.command ++ text " : " ++ toText job.pid)
  match command with
  | .fg =>
    match ForegroundCommand.continueIfJobIsStopped s.children job env.permitted with
    | (false, children) =>
      ({ s with children := children, point := .prompt },
        [line, .perror (text "smash error: kill failed")])
    | (true, children) =>
      ({ shell :=
          { jobsList := s.shell.jobsList.removeJobByPid job.pid
            currentPidForegroundProcess := job.pid
            currentJobIdForegroundProcess := job.jobId
            currentCommand := job.command }
         children := children
         point := .foreground job s.shell.currentPidForegroundProcess
          s.shell.currentJobIdForegroundProcess }, [line])
  | .bg =>
    if !job.isStopped then
      ({ s with point := .prompt }, [.cerr (text "smash error: bg: job-id " ++ toText job.jobId ++
        text " is already running in the background")])
    else
      match s.children.kill job.pid Children.SIGCONT env.permitted with
      | (true, children) =>
        ({ shell := { s.shell with jobsList := Smash.resumed s.shell.jobsList job env.now }
           children := children
           point := .prompt }, [line])
      | (false, children) =>
        ({ shell := { s.shell with
            jobsList := Smash.takenBack s.shell.jobsList job env.now env.now' }
           children := children
           point := .prompt }, [line, .perror (text "smash error: kill failed")])
  | .kill =>
    ({ s with
        children := (s.children.kill job.pid signalNumber env.permitted).2
        point := .prompt },
      [.cout (text "signal number " ++ toText signalNumber ++ text " was sent to pid " ++
        toText job.pid)])

/-! ## What the arguments should mean -/

/-- The arguments mean what they say. `kill` takes the number after the `-` for the signal,
    and this is one of 1 to 32. The job is the one with the number for its id; when there is
    none, the command says so and does nothing else. The message may give a number that is
    `named` for the one that was typed. -/
def Means (named : Int → Int → Prop) (command : JobCommand) (s : Smash) (args : List Text)
    (env : Env) : Prop :=
  (command = .kill → 1 ≤ signalValue args ∧ signalValue args ≤ 32) ∧
    ∀ arg ∈ command.jobArg args,
      match s.shell.jobsList.getJobById (value arg) with
      | some job => command.execute s args env = command.act (signalValue args) s env job
      | none => ∃ jobId, named (value arg) jobId ∧
          command.execute s args env = ({ s with point := .prompt }, [command.noSuchJob jobId])

/-! ## What the code does -/

/-- Messages for different jobs are different. -/
theorem noSuchJob_inj {command : JobCommand} {m n : Int}
    (h : command.noSuchJob m = command.noSuchJob n) : m = n := by
  have htext := Output.cerr.inj h
  exact toText_inj (List.append_cancel_left (List.append_cancel_right htext))

/-- Nothing that is done to a job is reported as a job that does not exist. -/
theorem act_ne_noSuchJob (command : JobCommand) (signalNumber : Int) (s : Smash) (env : Env)
    (job : JobEntry) (jobId : Int) :
    (command.act signalNumber s env job).2 ≠ [command.noSuchJob jobId] := by
  cases command with
  -- What `fg` prints for a job is a line or nothing.
  | fg =>
    unfold act noSuchJob
    dsimp only
    split <;> simp
  | bg =>
    unfold act noSuchJob
    dsimp only
    -- `bg` may say that the job is running.
    split
    · -- Both are errors, and they end differently.
      intro h
      have htext := Output.cerr.inj (List.singleton_inj.mp h)
      have hlast := congrArg List.getLast? htext
      rw [List.getLast?_append_of_ne_nil _ (by decide),
        List.getLast?_append_of_ne_nil _ (by decide)] at hlast
      exact absurd hlast (by decide)
    · split <;> simp
  -- `kill` prints a line for every job.
  | kill => simp [act, noSuchJob]

/-- The number of the signal matters to `kill` only. -/
theorem act_congr {command : JobCommand} {m n : Int} (h : command = .kill → m = n) (s : Smash)
    (env : Env) (job : JobEntry) : command.act m s env job = command.act n s env job := by
  cases command with
  | fg => rfl
  | bg => rfl
  | kill => rw [h rfl]

/-- The argument of `fg` and `bg` is the only one, and a number as a whole. -/
theorem of_areParamsValid {args : List Text} {arg : Text}
    (hvalid : ForegroundCommand.areParamsValid args = true) (harg : args[0]? = some arg) :
    args = [arg] ∧ toInt (strtol arg).1 = narrow (value arg) := by
  match args with
  | [] => cases harg
  | [arg'] =>
    cases harg
    have hwhole : (strtol arg).2 = [] ∧ (strtol arg).2 ≠ arg := by
      simpa [ForegroundCommand.areParamsValid] using hvalid
    exact ⟨rfl, strtol_fst_of_whole hwhole.1 hwhole.2⟩
  | arg' :: arg'' :: args => cases hvalid

/-- The arguments of `kill` are a minus with digits and a string of digits. -/
theorem of_kill_areParamsValid {args : List Text}
    (hvalid : KillCommand.areParamsValid args = true) :
    ∃ signal jobId, args = [signal, jobId] ∧
      KillCommand.extractSignalNumberFromArgs signal = narrow (signalValue args) ∧
      atoi jobId = narrow (value jobId) ∧ 1 ≤ narrow (signalValue args) ∧
      narrow (signalValue args) ≤ 32 := by
  match args with
  | [] => cases hvalid
  | [signal] => cases hvalid
  | [signal, jobId] =>
    simp only [KillCommand.areParamsValid, Bool.decide_and, Bool.and_eq_true, decide_eq_true_eq,
      List.all_eq_true] at hvalid
    obtain ⟨-, hsignal, hmin, hmax, hjobId⟩ := hvalid
    have heq : KillCommand.extractSignalNumberFromArgs signal =
        narrow (signalValue [signal, jobId]) := atoi_of_digits hsignal
    rw [heq] at hmin hmax
    exact ⟨signal, jobId, rfl, heq, atoi_of_digits hjobId, hmin, hmax⟩
  | signal :: jobId :: arg :: args => cases hvalid

/-- What a command does when its arguments are valid: it looks up the narrowed number. -/
theorem execute_of_valid {command : JobCommand} {s : Smash} {args : List Text} {env : Env}
    {arg : Text} (hvalid : command.areParamsValid args = true)
    (harg : arg ∈ command.jobArg args) :
    command.execute s args env =
      match s.shell.jobsList.getJobById (narrow (value arg)) with
      | some job => command.act (narrow (signalValue args)) s env job
      | none => ({ s with point := .prompt }, [command.noSuchJob (narrow (value arg))]) := by
  -- The three commands look the number up in the same way and differ in what they print.
  cases command with
  | fg =>
    obtain ⟨rfl, hid⟩ := of_areParamsValid hvalid harg
    have hgetJob : ForegroundCommand.getJob s.shell.jobsList [arg] =
        match s.shell.jobsList.getJobById (narrow (value arg)) with
        | some job => .ok job
        | none => .error (noSuchJob .fg (narrow (value arg))) := by
      rw [ForegroundCommand.getJob, hid]
      rfl
    rw [execute, Smash.executeForeground, show ForegroundCommand.areParamsValid [arg] = true
      from hvalid, hgetJob]
    cases s.shell.jobsList.getJobById (narrow (value arg)) with
    | none => rfl
    | some job => rfl
  | bg =>
    obtain ⟨rfl, hid⟩ := of_areParamsValid hvalid harg
    have hgetJob : BackgroundCommand.getJob s.shell.jobsList [arg] =
        match s.shell.jobsList.getJobById (narrow (value arg)) with
        | some job => .ok job
        | none => .error (noSuchJob .bg (narrow (value arg))) := by
      rw [BackgroundCommand.getJob, hid]
      rfl
    rw [execute, BackgroundCommand.execute, show ForegroundCommand.areParamsValid [arg] = true
      from hvalid, hgetJob]
    cases s.shell.jobsList.getJobById (narrow (value arg)) with
    | none => rfl
    | some job =>
      -- A stopped job is resumed, whatever the signal answers.
      simp only [Bool.not_true, Bool.false_eq_true, if_false, act]
      split
      · rfl
      · cases s.children.kill job.pid Children.SIGCONT env.permitted with
        | mk sent children => cases sent <;> rfl
  | kill =>
    obtain ⟨signal, jobId, rfl, hsignal, hid, -, -⟩ := of_kill_areParamsValid hvalid
    cases harg
    rw [execute, KillCommand.execute, show KillCommand.areParamsValid [signal, arg] = true
      from hvalid]
    simp only [Bool.not_true, Bool.false_eq_true, if_false, List.getD_cons_succ,
      List.getD_cons_zero, hid, hsignal]
    cases s.shell.jobsList.getJobById (narrow (value arg)) with
    | none => rfl
    | some job => rfl

/-- A valid signal number that fits an `int` is one of 1 to 32. -/
theorem signalValue_of_valid {command : JobCommand} {args : List Text}
    (hvalid : command.areParamsValid args = true) (hkill : command = .kill)
    (hfits : FitsInt (signalValue args)) : 1 ≤ signalValue args ∧ signalValue args ≤ 32 := by
  subst hkill
  obtain ⟨-, -, -, -, -, hmin, hmax⟩ := of_kill_areParamsValid hvalid
  rw [(narrow_eq_iff _).mpr hfits] at hmin hmax
  exact ⟨hmin, hmax⟩

/-- A number that does not fit an `int` is the id of no job. -/
theorem getJobById_eq_none {l : JobsList} (hids : ∀ job ∈ l.jobs, FitsInt job.jobId) {n : Int}
    (hn : ¬ FitsInt n) : l.getJobById n = none := by
  rw [JobsList.getJobById, List.find?_eq_none]
  intro job hjob heq
  apply hn
  rw [← of_decide_eq_true heq]
  exact hids job hjob

/-- The exact condition, whatever number the message may give. -/
theorem means_iff_of_named {named : Int → Int → Prop} (hnamed : ∀ n, named n n)
    {command : JobCommand} {s : Smash} {args : List Text} {env : Env}
    (hids : ∀ job ∈ s.shell.jobsList.jobs, FitsInt job.jobId)
    (hvalid : command.areParamsValid args = true) :
    command.Means named s args env ↔
      (command = .kill → FitsInt (signalValue args)) ∧
        ∀ arg ∈ command.jobArg args, FitsInt (value arg) ∨
          s.shell.jobsList.getJobById (narrow (value arg)) = none ∧
            named (value arg) (narrow (value arg)) := by
  constructor
  · intro h
    -- If the command means the typed numbers, then each of them fits, or there is nothing to mean.
    obtain ⟨hsignal, hjob⟩ := h
    refine ⟨fun hkill => ?_, fun arg harg => ?_⟩
    · -- The code accepts only 1 to 32, which all fit.
      have hrange := hsignal hkill
      unfold FitsInt
      omega
    · -- A number that does not fit asks for no job, so the command has to say that there is none.
      by_cases hfits : FitsInt (value arg)
      · exact .inl hfits
      · right
        have hmeans := hjob arg harg
        rw [getJobById_eq_none hids hfits, execute_of_valid hvalid harg] at hmeans
        obtain ⟨jobId, hname, heq⟩ := hmeans
        -- The job that is found under the narrowed number would be acted on.
        cases hfound : s.shell.jobsList.getJobById (narrow (value arg)) with
        | some job =>
          rw [hfound] at heq
          exact absurd (congrArg Prod.snd heq) (act_ne_noSuchJob command _ s env job jobId)
        | none =>
          rw [hfound] at heq
          have hid := noSuchJob_inj (List.singleton_inj.mp (congrArg Prod.snd heq))
          exact ⟨rfl, hid ▸ hname⟩
  · intro h
    -- If the numbers fit, narrowing changes nothing.
    obtain ⟨hsignal, hjob⟩ := h
    refine ⟨fun hkill => signalValue_of_valid hvalid hkill (hsignal hkill), fun arg harg => ?_⟩
    have hact : ∀ job, command.act (narrow (signalValue args)) s env job =
        command.act (signalValue args) s env job :=
      act_congr (fun hkill => (narrow_eq_iff _).mpr (hsignal hkill)) s env
    rw [execute_of_valid hvalid harg]
    by_cases hfits : FitsInt (value arg)
    · -- The number that is looked up is the one that was typed.
      rw [(narrow_eq_iff _).mpr hfits]
      cases s.shell.jobsList.getJobById (value arg) with
      | some job => exact hact job
      | none => exact ⟨value arg, hnamed _, rfl⟩
    · -- A number that does not fit is no id of a job, and its narrowed form has to be none either.
      obtain ⟨hnone, hname⟩ := (hjob arg harg).resolve_left hfits
      rw [getJobById_eq_none hids hfits, hnone]
      exact ⟨_, hname, rfl⟩

/-- With valid arguments the commands do what the arguments say, and name the number that was
    typed, exactly when the numbers fit an `int`. They act on the right job, if on any,
    exactly when the signal number fits and a job number that does not fit is not turned into
    the id of a listed job. -/
theorem means_iff {command : JobCommand} {s : Smash} {args : List Text} {env : Env}
    (hids : ∀ job ∈ s.shell.jobsList.jobs, FitsInt job.jobId)
    (hvalid : command.areParamsValid args = true) :
    (command.Means Eq s args env ↔
      (command = .kill → FitsInt (signalValue args)) ∧
        ∀ arg ∈ command.jobArg args, FitsInt (value arg)) ∧
    (command.Means (fun _ _ => True) s args env ↔
      (command = .kill → FitsInt (signalValue args)) ∧
        ∀ arg ∈ command.jobArg args, FitsInt (value arg) ∨
          s.shell.jobsList.getJobById (narrow (value arg)) = none) := by
  constructor
  · rw [means_iff_of_named (fun _ => rfl) hids hvalid]
    have hname : ∀ n, FitsInt n ∨ s.shell.jobsList.getJobById (narrow n) = none ∧ n = narrow n ↔
        FitsInt n := by
      intro n
      exact or_iff_left_of_imp fun h => (narrow_eq_iff n).mp h.2.symm
    simp only [hname]
  · rw [means_iff_of_named (fun _ => trivial) hids hvalid]
    simp only [and_true]

/-- A shell with one stopped job, number 1. -/
def oneJob : Smash where
  shell := ⟨⟨[⟨0, 100, 1, text "sleep 9", true⟩], 1⟩, SmallShell.RESET_PID_VALUE,
    SmallShell.RESET_JOBID_VALUE, []⟩
  children := Function.update Children.empty 100 (some (.stopped true))
  point := .ready

/-- Answers that permit all signals. -/
def permits : Env := ⟨none, true, 0, 0⟩

/-- `kill -9 1` means what it says. -/
theorem means_kill : Means Eq .kill oneJob [text "-9", text "1"] permits :=
  (means_iff (by decide) (by decide)).1.mpr ⟨by decide, by decide⟩

/-- There is no job 4294967297, and `fg 4294967297` continues job 1. There is no signal
    4294967305, and `kill -4294967305 1` sends signal 9. -/
theorem not_means_out_of_range :
    (areParamsValid .fg [text "4294967297"] = true ∧
      oneJob.shell.jobsList.getJobById 4294967297 = none ∧
      (execute .fg oneJob [text "4294967297"] permits).2 = [.cout (text "sleep 9 : 100")] ∧
      ¬ Means (fun _ _ => True) .fg oneJob [text "4294967297"] permits) ∧
    areParamsValid .kill [text "-4294967305", text "1"] = true ∧
      (execute .kill oneJob [text "-4294967305", text "1"] permits).2 =
        [.cout (text "signal number 9 was sent to pid 100")] ∧
      ¬ Means (fun _ _ => True) .kill oneJob [text "-4294967305", text "1"] permits := by
  have hnamed : ∀ n : Int, (fun _ _ : Int => True) n n := fun _ => trivial
  refine ⟨⟨by decide, by decide, by decide, fun h => ?_⟩, by decide, by decide, fun h => ?_⟩
  · have hfits := ((means_iff_of_named hnamed (by decide) (by decide)).mp h).2 _ rfl
    exact absurd hfits (by decide)
  · have hfits := ((means_iff_of_named hnamed (by decide) (by decide)).mp h).1 rfl
    exact absurd hfits (by decide)

end JobCommand

end OsWet
