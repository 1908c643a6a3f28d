import OsWet.Native.CommandLine
import OsWet.Native.JobsList
import OsWet.ForStd.Children
import OsWet.ForStd.Machine

/-!
# The shell, its signal handlers and its children

The main loop of `smash.cpp` with the commands that deal with jobs: external commands in
the foreground and in the background, `fg`, `bg` and `kill`. The shell shares its jobs
list with the handlers of `SIGINT` and `SIGTSTP`, and the process table with the kernel.

The machine stops where the shell blocks: in `getline`, and in `waitpid` for a foreground
child. There the children move and the handlers run. A line that asks for another command
is not an action of this machine.
-/

namespace OsWet

open Text

/-- The fields of `SmallShell` that the job commands use. -/
structure SmallShell where
  jobsList : JobsList
  currentPidForegroundProcess : Int
  currentJobIdForegroundProcess : Int
  currentCommand : Text
  deriving DecidableEq, Repr

namespace SmallShell

/-- No process is in the foreground. -/
def RESET_PID_VALUE : Int := 0

/-- The process in the foreground is no job. -/
def RESET_JOBID_VALUE : Int := 0

section Handlers

variable {κ : Type} (shell : SmallShell) (processes : κ) (kill : κ → Int → Int → Bool × κ)

/-- `handleIntSignal`, for any `kill` and the processes that it acts on. -/
def handleIntSignalWith : κ × List Output :=
  let pidProcessToStop := shell.currentPidForegroundProcess
  -- without a foreground process only the message is printed
  if pidProcessToStop ≠ RESET_PID_VALUE then
    match kill processes pidProcessToStop Children.SIGKILL with
    | (true, processes) =>
      (processes, [.cout (text "smash: got ctrl-C"),
        .cout (text "smash: process " ++ toText pidProcessToStop ++ text " was killed")])
    | (false, processes) =>
      (processes, [.cout (text "smash: got ctrl-C"), .perror (text "smash error: kill failed")])
  else (processes, [.cout (text "smash: got ctrl-C")])

/-- `handleStpSignal` at the time `now`, for any `kill`. -/
def handleStpSignalWith (now : Int) : SmallShell × κ × List Output :=
  let pidProcessToStop := shell.currentPidForegroundProcess
  if pidProcessToStop ≠ RESET_PID_VALUE then
    match kill processes pidProcessToStop Children.SIGSTOP with
    | (true, processes) =>
      let jobsList :=
        -- A job that was in the list before keeps its id.
        if shell.currentJobIdForegroundProcess ≠ RESET_JOBID_VALUE then
          shell.jobsList.addJobWithId now shell.currentJobIdForegroundProcess pidProcessToStop
            shell.currentCommand true
        else shell.jobsList.addJob now pidProcessToStop shell.currentCommand true
      ({ shell with jobsList := jobsList }, processes, [.cout (text "smash: got ctrl-Z"),
        .cout (text "smash: process " ++ toText pidProcessToStop ++ text " was stopped")])
    | (false, processes) =>
      (shell, processes,
        [.cout (text "smash: got ctrl-Z"), .perror (text "smash error: kill failed")])
  else (shell, processes, [.cout (text "smash: got ctrl-Z")])

end Handlers

/-- `handleIntSignal`. -/
def handleIntSignal (shell : SmallShell) (children : Children) (permitted : Bool) :
    Children × List Output :=
  shell.handleIntSignalWith children fun children pid sig => children.kill pid sig permitted

/-- `handleStpSignal` at the time `now`. -/
def handleStpSignal (shell : SmallShell) (children : Children) (permitted : Bool) (now : Int) :
    SmallShell × Children × List Output :=
  shell.handleStpSignalWith children (fun children pid sig => children.kill pid sig permitted) now

end SmallShell

namespace ForegroundCommand

/-- `areParamsValid`, of `fg` and of `bg`. -/
def areParamsValid : List Text → Bool
  | [] => true
  -- the whole argument has to be a number
  | [arg] => (strtol arg).2 = [] ∧ (strtol arg).2 ≠ arg
  | _ => false

/-- `getJob`: the job, or what is printed when there is none. -/
def getJob (jobsList : JobsList) (args : List Text) : Except Output JobEntry :=
  match args with
  | [] =>
    match jobsList.getLastJob with
    | some job => .ok job
    | none => .error (.cerr (text "smash error: fg: jobs list is empty"))
  | arg :: _ =>
    let jobId := toInt (strtol arg).1
    match jobsList.getJobById jobId with
    | some job => .ok job
    | none => .error
      (.cerr (text "smash error: fg: job-id " ++ toText jobId ++ text " does not exist"))

/-- `continueIfJobIsStopped`, for any `kill`: whether it returns 1. -/
def continueIfJobIsStoppedWith {κ : Type} (processes : κ) (kill : κ → Int → Int → Bool × κ)
    (job : JobEntry) : Bool × κ :=
  if job.isStopped then kill processes job.pid Children.SIGCONT else (true, processes)

/-- `continueIfJobIsStopped`: whether it returns 1. -/
def continueIfJobIsStopped (children : Children) (job : JobEntry) (permitted : Bool) :
    Bool × Children :=
  continueIfJobIsStoppedWith children (fun children pid sig => children.kill pid sig permitted) job

end ForegroundCommand

namespace BackgroundCommand

/-- `getJob`. -/
def getJob (jobsList : JobsList) (args : List Text) : Except Output JobEntry :=
  match args with
  | [] =>
    match jobsList.getLastStoppedJob with
    | some job => .ok job
    | none => .error (.cerr (text "smash error: bg: there is no stopped jobs to resume"))
  | arg :: _ =>
    let jobId := toInt (strtol arg).1
    match jobsList.getJobById jobId with
    | some job => .ok job
    | none => .error
      (.cerr (text "smash error: bg: job-id " ++ toText jobId ++ text " does not exist"))

/-- `execute`, with the times of the two calls of `addJob`. -/
def execute (jobsList : JobsList) (children : Children) (args : List Text) (permitted : Bool)
    (now now' : Int) : JobsList × Children × List Output :=
  if !ForegroundCommand.areParamsValid args then
    (jobsList, children, [.cerr (text "smash error: bg: invalid arguments")])
  else
    match getJob jobsList args with
    | .error out => (jobsList, children, [out])
    | .ok job =>
      -- only a stopped job can go on in the background
      if !job.isStopped then
        (jobsList, children, [.cerr (text "smash error: bg: job-id " ++ toText job.jobId ++
          text " is already running in the background")])
      else
        -- the job is put back under its id, as a running one
        let moved := (jobsList.removeJobByPid job.pid).addJobWithId now job.jobId job.pid
          job.command false
        let line := Output.cout (job.command ++ text " : " ++ toText job.pid)
        match children.kill job.pid Children.SIGCONT permitted with
        | (true, children) => (moved, children, [line])
        | (false, children) =>
          -- The move is taken back when the signal could not be sent.
          ((moved.removeJobByPid job.pid).addJobWithId now' job.jobId job.pid job.command true,
            children, [line, .perror (text "smash error: kill failed")])

end BackgroundCommand

namespace KillCommand

/-- `extractSignalNumberFromArgs`, on the first argument. -/
def extractSignalNumberFromArgs (arg : Text) : Int := atoi (arg.drop 1)

/-- `areParamsValid`. -/
def areParamsValid : List Text → Bool
  | [arg, jobId] =>
    arg.head? = some '-' ∧ (arg.drop 1).all isDigit ∧ 1 ≤ extractSignalNumberFromArgs arg ∧
      extractSignalNumberFromArgs arg ≤ 32 ∧ jobId.all isDigit
  | _ => false

/-- `execute`. What `kill` returns is not looked at. -/
def execute (jobsList : JobsList) (children : Children) (args : List Text) (permitted : Bool) :
    Children × List Output :=
  if !areParamsValid args then (children, [.cerr (text "smash error: kill: invalid arguments")])
  else
    let jobId := atoi (args.getD 1 [])
    let signalNumber := extractSignalNumberFromArgs (args.getD 0 [])
    match jobsList.getJobById jobId with
    | none => (children,
      [.cerr (text "smash error: kill: job-id " ++ toText jobId ++ text " does not exist")])
    | some job =>
      ((children.kill job.pid signalNumber permitted).2,
        [.cout (text "signal number " ++ toText signalNumber ++ text " was sent to pid " ++
          toText job.pid)])

end KillCommand

/-- Where the shell is: in `getline`, about to execute a line, or in the `waitpid` of
    `runForegroundExternalCommand` or of `ForegroundCommand::waitForJobToFinish`. -/
inductive ShellPoint where
  | prompt
  | ready
  | external (pid : Int)
  | foreground (job : JobEntry) (prevPid prevJobId : Int)
  deriving DecidableEq, Repr

/-- The shell and its children. -/
structure Smash where
  shell : SmallShell
  children : Children
  point : ShellPoint

/-- What the system answers while a command runs: the pid of the child, if it can be
    forked, whether signals to the job are permitted, and the time. -/
structure Env where
  forked : Option Int
  permitted : Bool
  now : Int
  now' : Int
  deriving DecidableEq, Repr

/-- What happens next: a part of the main loop, a key, or something that a child does. -/
inductive SmashAction where
  | removeFinishedJobs
  | execute (cmd_line : Text) (env : Env)
  | ctrlC (permitted : Bool)
  | ctrlZ (permitted : Bool) (now : Int)
  | waitReturns
  | child (pid : Int) (e : ChildEvent)
  deriving DecidableEq, Repr

namespace Smash

/-- The shell is in a `waitpid` for a foreground child. -/
def Waiting : ShellPoint → Prop
  | .external _ | .foreground .. => True
  | .prompt | .ready => False

instance : DecidablePred Waiting
  | .external _ | .foreground .. => isTrue trivial
  | .prompt | .ready => isFalse id

/-- The kernel gives a new child a positive pid that no child has. -/
def fork (children : Children) (pid : Int) : Outcome Empty Children :=
  if 0 < pid ∧ ¬ children.Unreaped pid then .ok (children.fork pid) else .stuck

/-- `ExternalCommand::execute` up to the `waitpid`. -/
def executeExternal (s : Smash) (args : List Text) (env : Env) :
    Outcome Empty (Smash × List Output) :=
  match env.forked with
  | none => .ok ({ s with point := .prompt }, [.perror (text "smash error: fork failed")])
  | some pid => do
    let children ← fork s.children pid
    -- the foreground child is not listed, the shell waits for it
    if !ExternalCommand.isBackGroundCommand args then
      return ({ shell := { s.shell with currentPidForegroundProcess := pid }
                children := children
                point := .external pid }, [])
    else
      let jobsList := s.shell.jobsList.addJob env.now pid s.shell.currentCommand false
      return ({ shell := { s.shell with jobsList := jobsList }
                children := children
                point := .prompt }, [])

/-- `ForegroundCommand::execute` up to the `waitpid`. -/
def executeForeground (s : Smash) (args : List Text) (permitted : Bool) : Smash × List Output :=
  let back := { s with point := .prompt }
  if !ForegroundCommand.areParamsValid args then
    (back, [.cerr (text "smash error: fg: invalid arguments")])
  else
    match ForegroundCommand.getJob s.shell.jobsList args with
    | .error out => (back, [out])
    | .ok job =>
      let line := Output.cout (job.command ++ text " : " ++ toText job.pid)
      match ForegroundCommand.continueIfJobIsStopped s.children job permitted with
      | (false, children) =>
        ({ back with children := children }, [line, .perror (text "smash error: kill failed")])
      | (true, children) =>
        -- what `execute` restores after the wait
        let prevPid := s.shell.currentPidForegroundProcess
        let prevJobId := s.shell.currentJobIdForegroundProcess
        ({ shell :=
            { jobsList := s.shell.jobsList.removeJobByPid job.pid
              currentPidForegroundProcess := job.pid
              currentJobIdForegroundProcess := job.jobId
              currentCommand := job.command }
           children := children
           point := .foreground job prevPid prevJobId }, [line])

/-- `SmallShell::executeCommand` on a line that asks for one of the job commands. -/
def execute (s : Smash) (cmd_line : Text) (env : Env) : Outcome Empty (Smash × List Output) :=
  let s := { s with shell := { s.shell with currentCommand := cmd_line } }
  match SmallShell.path cmd_line with
  | .executor line =>
    match CommandExecutor.lookup line with
    | .external args => s.executeExternal args env
    | .builtin commandArg args =>
      if commandArg = text "fg" then .ok (s.executeForeground args env.permitted)
      else if commandArg = text "bg" then
        let (jobsList, children, out) := BackgroundCommand.execute s.shell.jobsList s.children args
          env.permitted env.now env.now'
        .ok ({ shell := { s.shell with jobsList := jobsList }
               children := children
               point := .prompt }, out)
      else if commandArg = text "kill" then
        let (children, out) := KillCommand.execute s.shell.jobsList s.children args env.permitted
        .ok ({ s with children := children, point := .prompt }, out)
      -- other builtin commands are not actions of this machine
      else .stuck
    | .nothing => .stuck
  | .blank => .ok ({ s with point := .prompt }, [])
  | .pipe _ | .redirection .. => .stuck

/-- The `waitpid` for the foreground child returns, and the command ends. -/
def waitReturns (s : Smash) : Outcome Empty (Smash × List Output) :=
  let out (status : Int) : List Output :=
    if status = -1 then [.perror (text "smash error: waitpid failed")] else []
  match s.point with
  | .external pid =>
    match s.children.waitUntraced pid with
    | some (status, children) =>
      .ok ({ shell := { s.shell with currentPidForegroundProcess := SmallShell.RESET_PID_VALUE }
             children := children
             point := .prompt }, out status)
    | none => .stuck
  | .foreground job prevPid prevJobId =>
    match s.children.waitUntraced job.pid with
    | some (status, children) =>
      .ok ({ shell := { s.shell with
               currentPidForegroundProcess := prevPid
               currentJobIdForegroundProcess := prevJobId }
             children := children
             point := .prompt }, out status)
    | none => .stuck
  | .prompt | .ready => .stuck

/-- The shell as a machine. -/
def machine : Machine Smash SmashAction Output Empty where
  step s
    | .removeFinishedJobs =>
      match s.point with
      | .prompt =>
        -- the main loop calls `removeFinishedJobs` before each line
        let (jobsList, children, out) :=
          s.shell.jobsList.removeFinishedJobs Children.waitNoHang s.children
        .ok ({ shell := { s.shell with jobsList := jobsList }
               children := children
               point := .ready }, out)
      | _ => .stuck
    | .execute cmd_line env =>
      match s.point with
      | .ready => s.execute cmd_line env
      | _ => .stuck
    | .ctrlC permitted =>
      -- the handler of `SIGINT` runs while `waitpid` blocks
      if Waiting s.point then
        let (children, out) := s.shell.handleIntSignal s.children permitted
        .ok ({ s with children := children }, out)
      else .stuck
    | .ctrlZ permitted now =>
      -- and so does the handler of `SIGTSTP`
      if Waiting s.point then
        let (shell, children, out) := s.shell.handleStpSignal s.children permitted now
        .ok ({ s with shell := shell, children := children }, out)
      else .stuck
    | .waitReturns => s.waitReturns
    | .child pid e =>
      match s.children.event pid e with
      | some children => .ok ({ s with children := children }, [])
      | none => .stuck

/-- A new shell. -/
def initial : Smash where
  shell := ⟨.empty, SmallShell.RESET_PID_VALUE, SmallShell.RESET_JOBID_VALUE, []⟩
  children := .empty
  point := .prompt

end Smash

end OsWet
