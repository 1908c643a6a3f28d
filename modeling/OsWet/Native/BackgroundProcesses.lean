import OsWet.Native.PipeProcesses
import OsWet.Native.Text

/-!
# The processes of background commands

`ExternalCommand::runBackgroundExternalCommand` in the shell and `runBackgroundChildProcess` in
the children, for one background command after the other. The child of a command waits for a
message from the shell before it becomes the program; the shell sends it when the job is in
the jobs list. The commands are numbered, and the number of a command also stands for its pipe
and for the pid of its child.

A step of the machine is one system call of one process, or the death of a process: any process
may be killed at any time, and a `write` to a pipe that nobody can read from kills the shell.
`pipe` and `close` succeed in the shell; `fork` may fail, and so may every call in a child.
Where `pipe` fails, the source goes on with whatever the array holds, which is left out. Of
what the shell does between two background commands, only `removeFinishedJobs` is in the model:
the other commands are left out, also `fg`, which takes the job of a running child off the list.
-/

namespace OsWet

/-- Where the shell is in `runBackgroundExternalCommand`; it is `ready` between two commands. -/
inductive BackgroundShellPoint where
  | ready
  | fork
  | closeRead
  | addJob
  | write
  | killed
  deriving DecidableEq, Repr

/-- Where a child is in `runBackgroundChildProcess`, and then its program. -/
inductive BackgroundChildPoint where
  | unborn
  | setpgrp
  | closeWrite
  | read
  | execute
  | running
  | exited
  deriving DecidableEq, Repr

/-- The shell and its background children. The command `count` is the one that the shell is
    executing, or the next one; `jobs` are the commands in the jobs list. -/
structure BackgroundShell where
  shell : PipeProcess BackgroundShellPoint
  count : Nat
  readWritePipes : Nat → Int × Int
  child : Nat → PipeProcess BackgroundChildPoint
  pipe : Nat → Pipe Char
  jobs : List Nat

/-- One system call of one process, or the death of one. -/
inductive BackgroundAction where
  | pipe (fds : Int × Int)
  | fork (forked : Bool)
  | shell
  | removeFinishedJobs
  | kill
  /-- The child of a command; its call succeeds if `succeeds`. -/
  | child (i : Nat) (succeeds : Bool)
  | killChild (i : Nat)
  deriving DecidableEq, Repr

/-- What happens to a command. -/
inductive BackgroundEvent where
  | listed (i : Nat)
  | executed (i : Nat)
  /-- The shell is killed by `SIGPIPE` when it sends the message for the command. -/
  | brokenPipe (i : Nat)
  deriving DecidableEq, Repr

namespace ExternalCommand

/-- The nine characters, with the NUL character at the end. -/
def FINISHED_ADDING_PID_TO_JOB_LIST_MSG : Text := text "Finished" ++ ['\x00']

/-- The length that `write` and `read` are called with. -/
def FINISHED_ADDING_PID_TO_JOB_LIST_MSG_LENGTH : Nat := 9

/-- Some process has a descriptor for `file`. -/
def Held (s : BackgroundShell) (file : OpenFile) : Prop :=
  s.shell.table.Holds file ∨ ∃ i < s.count + 1, (s.child i).table.Holds file

instance (s : BackgroundShell) (file : OpenFile) : Decidable (Held s file) :=
  inferInstanceAs (Decidable (_ ∨ _))

/-- The processes with another state of one child. -/
def setChild (s : BackgroundShell) (i : Nat) (p : PipeProcess BackgroundChildPoint) :
    BackgroundShell :=
  { s with child := Function.update s.child i p }

/-- The processes with another content of one pipe. -/
def setPipe (s : BackgroundShell) (i : Nat) (pipe : Pipe Char) : BackgroundShell :=
  { s with pipe := Function.update s.pipe i pipe }

/-- `pipe(readWritePipes)`, for the next command. -/
def makePipe (s : BackgroundShell) (fds : Int × Int) : Outcome Empty BackgroundShell :=
  match s.shell.point with
  | .ready => do
    let table ← s.shell.table.openPipe s.count fds
    return { s with
      shell := ⟨.fork, table⟩
      readWritePipes := Function.update s.readWritePipes s.count fds }
  | _ => .stuck

/-- `fork`. When it fails both descriptors of the pipe stay open. -/
def forkStep (s : BackgroundShell) (forked : Bool) : Outcome Empty BackgroundShell :=
  let table := s.shell.table
  match s.shell.point with
  | .fork =>
    if forked then
      .ok { setChild s s.count ⟨.setpgrp, table⟩ with shell := ⟨.closeRead, table⟩ }
    else .ok { s with shell := ⟨.ready, table⟩, count := s.count + 1 }
  | _ => .stuck

/-- The shell dies, and what it has open is closed. -/
def killShell (s : BackgroundShell) : BackgroundShell := { s with shell := ⟨.killed, ∅⟩ }

/-- The shell after `fork`. -/
def shellStep (s : BackgroundShell) : Outcome Empty (BackgroundShell × List BackgroundEvent) :=
  let table := s.shell.table
  let readWritePipes := s.readWritePipes s.count
  match s.shell.point with
  | .closeRead => .ok ({ s with shell := ⟨.addJob, table.close readWritePipes.1⟩ }, [])
  | .addJob => .ok ({ s with shell := ⟨.write, table⟩, jobs := s.jobs ++ [s.count] },
      [.listed s.count])
  | .write =>
    match table.lookup readWritePipes.2 with
    | some (.writeEnd i) => do
      match ← (s.pipe i).write (Held s (.readEnd i)) FINISHED_ADDING_PID_TO_JOB_LIST_MSG with
      | none => return (killShell s, [.brokenPipe i])
      | some pipe =>
        return ({ setPipe s i pipe with shell := ⟨.ready, table⟩, count := s.count + 1 }, [])
    -- `perror("smash error: write failed")`
    | _ => .ok ({ s with shell := ⟨.ready, table⟩, count := s.count + 1 }, [])
  | .ready | .fork | .killed => .stuck

/-- `removeFinishedJobs` of the main loop. -/
def removeFinishedJobs (s : BackgroundShell) : Outcome Empty BackgroundShell :=
  match s.shell.point with
  | .ready => .ok { s with jobs := s.jobs.filter fun i => (s.child i).point ≠ .exited }
  | _ => .stuck

/-- `exit(1)`, or the death of the process. -/
def exitChild (s : BackgroundShell) (i : Nat) : BackgroundShell := setChild s i ⟨.exited, ∅⟩

/-- The next statement of a child. After every call that fails it exits. -/
def childStep (s : BackgroundShell) (i : Nat) (succeeds : Bool) :
    Outcome Empty (BackgroundShell × List BackgroundEvent) :=
  let table := (s.child i).table
  let readWritePipes := s.readWritePipes i
  match (s.child i).point with
  | .setpgrp =>
    if succeeds then .ok (setChild s i ⟨.closeWrite, table⟩, []) else .ok (exitChild s i, [])
  | .closeWrite =>
    if succeeds then .ok (setChild s i ⟨.read, table.close readWritePipes.2⟩, [])
    else .ok (exitChild s i, [])
  | .read =>
    if succeeds then
      match table.lookup readWritePipes.1 with
      | some (.readEnd j) => do
        -- what was read is not looked at
        let (_, pipe) ← (s.pipe j).read (Held s (.writeEnd j))
          FINISHED_ADDING_PID_TO_JOB_LIST_MSG_LENGTH
        return (setPipe (setChild s i ⟨.execute, table⟩) j pipe, [])
      | _ => .ok (exitChild s i, [])
    else .ok (exitChild s i, [])
  | .execute =>
    if succeeds then .ok (setChild s i ⟨.running, table⟩, [.executed i])
    else .ok (exitChild s i, [])
  | .unborn | .running | .exited => .stuck

/-- A child or its program dies, of itself or by a signal. -/
def killChild (s : BackgroundShell) (i : Nat) : Outcome Empty BackgroundShell :=
  match (s.child i).point with
  | .unborn | .exited => .stuck
  | _ => .ok (exitChild s i)

/-- The shell and its background commands as a machine. -/
def machine : Machine BackgroundShell BackgroundAction BackgroundEvent Empty where
  step s
    | .pipe fds => do return (← makePipe s fds, [])
    | .fork forked => do return (← forkStep s forked, [])
    | .shell => shellStep s
    | .removeFinishedJobs => do return (← removeFinishedJobs s, [])
    | .kill => if s.shell.point = .killed then .stuck else .ok (killShell s, [])
    | .child i succeeds => childStep s i succeeds
    | .killChild i => do return (← killChild s i, [])

/-- The shell, with these descriptors, before its first background command. -/
def initial (table : FileTable) (capacity : Nat) : BackgroundShell where
  shell := ⟨.ready, table⟩
  count := 0
  readWritePipes := fun _ => (0, 0)
  child := fun _ => ⟨.unborn, ∅⟩
  pipe := fun _ => ⟨capacity, []⟩
  jobs := []

end ExternalCommand

end OsWet
