import OsWet.Native.Smash

/-!
# The shell statement by statement

`runForegroundExternalCommand` and `ForegroundCommand::execute` as the shell process runs
them, one statement after the other. The handlers of `SIGINT` and `SIGTSTP` may run before
each statement, and at the prompt. What the shell does between these commands is one step,
which can leave any jobs list and any children.

A pid that is not a child's may belong to a process of somebody else. There the system
answers whether `kill` succeeds.
-/

namespace OsWet

open Text

/-- The statement of `runForegroundExternalCommand` that comes next, in the parent. -/
inductive ExternalStatement where
  | setPid
  | waitpid
  | perror
  | resetPid
  deriving DecidableEq, Repr

/-- The statement of `ForegroundCommand::execute` that comes next, once there is a job. -/
inductive ForegroundStatement where
  | cout
  | continueIfJobIsStopped
  | removeJobByPid
  | prevPid
  | prevJobId
  | setPid
  | setCommand
  | setJobId
  | waitForJobToFinish
  | perror
  | restorePid
  | restoreJobId
  deriving DecidableEq, Repr

/-- The local variables of `ForegroundCommand::execute`. -/
structure ForegroundLocals where
  job : JobEntry
  prevPid : Int
  prevJobId : Int
  deriving DecidableEq, Repr

inductive StatementPoint where
  | prompt
  | external (pid : Int) (next : ExternalStatement)
  | foreground (locals : ForegroundLocals) (next : ForegroundStatement)
  deriving DecidableEq, Repr

/-- What the shell prints, and the signals that its handlers send: whether they go to an
    unreaped child. -/
inductive ShellEvent where
  | print (o : Output)
  | signal (pid sig : Int) (toChild : Bool)
  deriving DecidableEq, Repr

/-- What happens next. `succeeds` is the answer to a `kill`, if there is one. -/
inductive StatementAction where
  | external (forked : Option Int)
  | fg (args : List Text)
  | next (succeeds : Bool)
  | ctrlC (succeeds : Bool)
  | ctrlZ (succeeds : Bool) (now : Int)
  | child (pid : Int) (e : ChildEvent)
  | other (jobsList : JobsList) (currentCommand : Text) (children : Children)

/-- The shell at a statement. The field `awaited` is history: whether the process of the
    command is one that `waitpid` still waits for. It is so from a `fork` on, and from an `fg`
    of a job that is a child, until `waitpid` returns and does not report a stop. -/
structure SmashStatements where
  shell : SmallShell
  children : Children
  point : StatementPoint
  awaited : Bool

namespace SmashStatements

/-- `kill`, on children and on processes of others. -/
def kill (succeeds : Bool) (children : Children) (pid sig : Int) : Bool × Children :=
  if children.Unreaped pid then children.kill pid sig succeeds else (succeeds, children)

/-- The `kill` of a handler, which leaves an event. -/
def sendSignal (succeeds : Bool) (processes : Children × List ShellEvent) (pid sig : Int) :
    Bool × Children × List ShellEvent :=
  let (sent, children) := kill succeeds processes.1 pid sig
  (sent, children, processes.2 ++ [.signal pid sig (processes.1.Unreaped pid)])

/-- A `waitpid` that returns now reports a stop. -/
def reportsStop (children : Children) (pid : Int) : Bool :=
  match children pid with
  | some (.stopped _) => true
  | _ => false

/-- The next statement of `runForegroundExternalCommand`. -/
def nextExternal (s : SmashStatements) (pid : Int) :
    ExternalStatement → Outcome Empty (SmashStatements × List ShellEvent)
  | .setPid =>
    .ok ({ s with
      shell := { s.shell with currentPidForegroundProcess := pid }
      point := .external pid .waitpid }, [])
  | .waitpid =>
    match s.children.waitUntraced pid with
    | some (status, children) =>
      .ok ({ s with
        children := children
        awaited := reportsStop s.children pid
        point := .external pid (if status = -1 then .perror else .resetPid) }, [])
    | none => .stuck
  | .perror =>
    .ok ({ s with point := .external pid .resetPid },
      [.print (.perror (text "smash error: waitpid failed"))])
  | .resetPid =>
    .ok ({ s with
      shell := { s.shell with currentPidForegroundProcess := SmallShell.RESET_PID_VALUE }
      point := .prompt }, [])

/-- The next statement of `ForegroundCommand::execute`. -/
def nextForeground (s : SmashStatements) (locals : ForegroundLocals) (succeeds : Bool) :
    ForegroundStatement → Outcome Empty (SmashStatements × List ShellEvent)
  | .cout =>
    .ok ({ s with point := .foreground locals .continueIfJobIsStopped },
      [.print (.cout (locals.job.command ++ text " : " ++ toText locals.job.pid))])
  | .continueIfJobIsStopped =>
    match ForegroundCommand.continueIfJobIsStoppedWith s.children (kill succeeds) locals.job with
    | (true, children) =>
      .ok ({ s with children := children, point := .foreground locals .removeJobByPid }, [])
    | (false, children) =>
      .ok ({ s with children := children, point := .prompt },
        [.print (.perror (text "smash error: kill failed"))])
  | .removeJobByPid =>
    .ok ({ s with
      shell := { s.shell with jobsList := s.shell.jobsList.removeJobByPid locals.job.pid }
      point := .foreground locals .prevPid }, [])
  | .prevPid =>
    let locals := { locals with prevPid := s.shell.currentPidForegroundProcess }
    .ok ({ s with point := .foreground locals .prevJobId }, [])
  | .prevJobId =>
    let locals := { locals with prevJobId := s.shell.currentJobIdForegroundProcess }
    .ok ({ s with point := .foreground locals .setPid }, [])
  | .setPid =>
    .ok ({ s with
      shell := { s.shell with currentPidForegroundProcess := locals.job.pid }
      point := .foreground locals .setCommand }, [])
  | .setCommand =>
    .ok ({ s with
      shell := { s.shell with currentCommand := locals.job.command }
      point := .foreground locals .setJobId }, [])
  | .setJobId =>
    .ok ({ s with
      shell := { s.shell with currentJobIdForegroundProcess := locals.job.jobId }
      point := .foreground locals .waitForJobToFinish }, [])
  | .waitForJobToFinish =>
    match s.children.waitUntraced locals.job.pid with
    | some (status, children) =>
      .ok ({ s with
        children := children
        awaited := reportsStop s.children locals.job.pid
        point := .foreground locals (if status = -1 then .perror else .restorePid) }, [])
    | none => .stuck
  | .perror =>
    .ok ({ s with point := .foreground locals .restorePid },
      [.print (.perror (text "smash error: waitpid failed"))])
  | .restorePid =>
    .ok ({ s with
      shell := { s.shell with currentPidForegroundProcess := locals.prevPid }
      point := .foreground locals .restoreJobId }, [])
  | .restoreJobId =>
    .ok ({ s with
      shell := { s.shell with currentJobIdForegroundProcess := locals.prevJobId }
      point := .prompt }, [])

/-- `ForegroundCommand::execute` up to the first statement that needs the job. -/
def startForeground (s : SmashStatements) (args : List Text) : SmashStatements × List ShellEvent :=
  if !ForegroundCommand.areParamsValid args then
    (s, [.print (.cerr (text "smash error: fg: invalid arguments"))])
  else
    match ForegroundCommand.getJob s.shell.jobsList args with
    | .error out => (s, [.print out])
    | .ok job =>
      -- the other locals are set before they are read
      let locals := ⟨job, SmallShell.RESET_PID_VALUE, SmallShell.RESET_JOBID_VALUE⟩
      ({ s with
        awaited := s.children.Unreaped job.pid
        point := .foreground locals .cout }, [])

/-- The shell and its handlers as a machine. -/
def machine : Machine SmashStatements StatementAction ShellEvent Empty where
  step s
    | .external forked =>
      match s.point, forked with
      | .prompt, none => .ok (s, [.print (.perror (text "smash error: fork failed"))])
      | .prompt, some pid => do
        let children ← Smash.fork s.children pid
        return ({ s with children := children, awaited := true
                         point := .external pid .setPid }, [])
      | _, _ => .stuck
    | .fg args =>
      match s.point with
      | .prompt => .ok (s.startForeground args)
      | _ => .stuck
    | .next succeeds =>
      match s.point with
      | .prompt => .stuck
      | .external pid next => s.nextExternal pid next
      | .foreground locals next => s.nextForeground locals succeeds next
    | .ctrlC succeeds =>
      let ((children, signals), out) :=
        s.shell.handleIntSignalWith (s.children, []) (sendSignal succeeds)
      .ok ({ s with children := children }, signals ++ out.map .print)
    | .ctrlZ succeeds now =>
      let (shell, (children, signals), out) :=
        s.shell.handleStpSignalWith (s.children, []) (sendSignal succeeds) now
      .ok ({ s with shell := shell, children := children }, signals ++ out.map .print)
    | .child pid e =>
      match s.children.event pid e with
      | some children => .ok ({ s with children := children }, [])
      | none => .stuck
    | .other jobsList currentCommand children =>
      -- the jobs are processes that the shell has forked
      if s.point = .prompt ∧ ∀ job ∈ jobsList.jobs, 0 < job.pid then
        let shell := { s.shell with jobsList := jobsList, currentCommand := currentCommand }
        .ok ({ s with shell := shell, children := children }, [])
      else .stuck

/-- A new shell. -/
def initial : SmashStatements where
  shell := ⟨.empty, SmallShell.RESET_PID_VALUE, SmallShell.RESET_JOBID_VALUE, []⟩
  children := .empty
  point := .prompt
  awaited := false

end SmashStatements

end OsWet
