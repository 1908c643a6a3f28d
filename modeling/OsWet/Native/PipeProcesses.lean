import OsWet.ForStd.Pipe

/-!
# The processes of a pipeline

`PipeCommand::execute` with all the processes it makes: the shell, the child that executes
the first command with its output to the pipe, the child that executes the second one with
its input from the pipe, and the program that each child starts when its command is an
external one. Every process has a table of descriptors of its own, copied by `fork`. A step of
the machine is one system call of one process; `pipe` succeeds, and `fork` may fail. Where
`pipe` fails, the source goes on with whatever the array holds, which is left out.

A program that the first child starts, or a builtin command in the child itself, writes its
output in pieces and ends. A program that the second child starts reads until it has read all
it wants to or finds the end of the stream; a builtin command reads nothing. What a command
prints with its standard output elsewhere is not in the model, nor are the entries that
`waitForCommandToFinish` makes in the jobs list.
-/

namespace OsWet

/-- How a child executes its command: in the child itself, or as a program that it waits for,
    or as one that it does not wait for. -/
inductive Execution where
  | builtin
  | foreground
  | background
  deriving DecidableEq, Repr

/-- A line with a pipe: how its two commands are executed, and whether the shell waits. -/
structure PipeLine where
  first : Execution
  second : Execution
  isBackGroundCommand : Bool
  deriving DecidableEq, Repr

/-- Where the shell is in `PipeCommand::execute`. -/
inductive PipeShellPoint where
  | pipe
  | forkFirst
  | forkSecond
  | closeRead
  | closeWrite
  | waitFirst
  | waitSecond
  | returned
  /-- After `perror("smash error: fork failed")`. -/
  | forkFailed
  deriving DecidableEq, Repr

/-- Where a child is, from `runFirstPipeCommand` or `runSecondPipeCommand` to its end. -/
inductive PipeChildPoint where
  | unborn
  | redirect
  | closeRead
  | closeWrite
  | execute
  | executing
  | closeOutput
  | exit
  | zombie
  | reaped
  deriving DecidableEq, Repr

/-- A program that a child has started. -/
inductive ProgramPoint where
  | unborn
  | running
  | exited
  deriving DecidableEq, Repr

/-- The two children. -/
inductive PipeChild where
  | first
  | second
  deriving DecidableEq, Repr

/-- How the command of a child is executed. -/
def PipeLine.execution (line : PipeLine) : PipeChild → Execution
  | .first => line.first
  | .second => line.second

/-- A process: where it is, and its descriptors. -/
structure PipeProcess (π : Type) where
  point : π
  table : FileTable
  deriving DecidableEq

/-- The processes of a pipeline over bytes `β`. `toWrite` is what the first command has yet to
    write, `wants` how much the second one still wants to read, and `none` stands for
    everything. -/
structure Pipeline (β : Type) where
  shell : PipeProcess PipeShellPoint
  readWritePipes : Int × Int
  child : PipeChild → PipeProcess PipeChildPoint
  program : PipeChild → PipeProcess ProgramPoint
  pipe : Pipe β
  toWrite : List β
  wants : Option Nat
  sawEnd : Bool

/-- One system call of one process. -/
inductive PipelineAction where
  | pipe (fds : Int × Int)
  /-- The shell; its `fork` succeeds if `forked`. -/
  | shell (forked : Bool)
  /-- A child; its `fork` succeeds if `forked`. -/
  | child (c : PipeChild) (forked : Bool)
  /-- The first command writes `n` bytes. -/
  | write (n : Nat)
  /-- The second command reads up to `n` bytes. -/
  | read (n : Nat)
  /-- The program of a child ends. -/
  | programExit (c : PipeChild)
  deriving DecidableEq, Repr

/-- What becomes of the output of the first command. -/
inductive PipelineEvent (β : Type) where
  | wrote (bytes : List β)
  | brokenPipe
  | elsewhere (bytes : List β)
  | read (bytes : List β)
  | ended
  deriving DecidableEq, Repr

namespace PipeCommand

variable {β : Type}

/-- Some process has a descriptor for `file`. -/
def Held (s : Pipeline β) (file : OpenFile) : Prop :=
  s.shell.table.Holds file ∨ (s.child .first).table.Holds file ∨
    (s.child .second).table.Holds file ∨ (s.program .first).table.Holds file ∨
    (s.program .second).table.Holds file

instance (s : Pipeline β) (file : OpenFile) : Decidable (Held s file) :=
  inferInstanceAs (Decidable (_ ∨ _ ∨ _ ∨ _ ∨ _))

/-- The processes with another state of one child. -/
def setChild (s : Pipeline β) (c : PipeChild) (p : PipeProcess PipeChildPoint) : Pipeline β :=
  { s with child := Function.update s.child c p }

/-- The processes with another state of one program. -/
def setProgram (s : Pipeline β) (c : PipeChild) (p : PipeProcess ProgramPoint) : Pipeline β :=
  { s with program := Function.update s.program c p }

/-- `pipe(readWritePipes)`. -/
def makePipe (s : Pipeline β) (fds : Int × Int) : Outcome Empty (Pipeline β) :=
  match s.shell.point with
  | .pipe => do
    let table ← s.shell.table.openPipe 0 fds
    return { s with shell := ⟨.forkFirst, table⟩, readWritePipes := fds }
  | _ => .stuck

/-- `waitpid(pid, nullptr, 0)` for a child. -/
def waitChild (s : Pipeline β) (c : PipeChild) (next : PipeShellPoint) :
    Outcome Empty (Pipeline β) :=
  if (s.child c).point = .zombie then
    .ok { setChild s c { s.child c with point := .reaped } with
      shell := { s.shell with point := next } }
  else .stuck

/-- The next statement of `execute` in the shell. -/
def shellStep (line : PipeLine) (s : Pipeline β) (forked : Bool) : Outcome Empty (Pipeline β) :=
  let table := s.shell.table
  match s.shell.point with
  | .pipe => .stuck
  | .forkFirst =>
    if forked then
      .ok { setChild s .first ⟨.redirect, table⟩ with shell := ⟨.forkSecond, table⟩ }
    else .ok { s with shell := ⟨.forkFailed, table⟩ }
  | .forkSecond =>
    if forked then
      .ok { setChild s .second ⟨.redirect, table⟩ with shell := ⟨.closeRead, table⟩ }
    else .ok { s with shell := ⟨.forkFailed, table⟩ }
  -- `closePipeFDs`
  | .closeRead => .ok { s with shell := ⟨.closeWrite, table.close s.readWritePipes.1⟩ }
  | .closeWrite =>
    -- `waitForCommandToFinish` does not wait in the background
    .ok { s with shell := ⟨if line.isBackGroundCommand then .returned else .waitFirst,
      table.close s.readWritePipes.2⟩ }
  | .waitFirst => waitChild s .first .waitSecond
  | .waitSecond => waitChild s .second .returned
  | .returned | .forkFailed => .stuck

/-- After `executeCommand` the first child closes its output, and the second one exits. -/
def afterCommand : PipeChild → PipeChildPoint
  | .first => .closeOutput
  | .second => .exit

/-- The next statement of a child, from `runFirstPipeCommand` or `runSecondPipeCommand`. -/
def childStep (line : PipeLine) (s : Pipeline β) (c : PipeChild) (forked : Bool) :
    Outcome Empty (Pipeline β) :=
  let table := (s.child c).table
  match (s.child c).point with
  | .redirect =>
    -- `redirectFirstCommandOutputToPipe`, `redirectSecondCommandInputToPipe`
    .ok (setChild s c ⟨.closeRead, match c with
      | .first => table.dup2 s.readWritePipes.2 1
      | .second => table.dup2 s.readWritePipes.1 0⟩)
  | .closeRead => .ok (setChild s c ⟨.closeWrite, table.close s.readWritePipes.1⟩)
  | .closeWrite => .ok (setChild s c ⟨.execute, table.close s.readWritePipes.2⟩)
  | .execute =>
    match line.execution c with
    | .builtin => .ok (setChild s c ⟨.executing, table⟩)
    | .foreground =>
      if forked then
        .ok (setProgram (setChild s c ⟨.executing, table⟩) c ⟨.running, table⟩)
      else .ok (setChild s c ⟨afterCommand c, table⟩)
    | .background =>
      if forked then
        .ok (setProgram (setChild s c ⟨afterCommand c, table⟩) c ⟨.running, table⟩)
      else .ok (setChild s c ⟨afterCommand c, table⟩)
  | .executing =>
    match line.execution c with
    -- a builtin command returns when all its output is written
    | .builtin =>
      if c = .first ∧ s.toWrite ≠ [] then .stuck
      else .ok (setChild s c ⟨afterCommand c, table⟩)
    -- `waitpid` for the program
    | _ =>
      if (s.program c).point = .exited then .ok (setChild s c ⟨afterCommand c, table⟩) else .stuck
  | .closeOutput => .ok (setChild s c ⟨.exit, table.close 1⟩)
  -- `exit(0)` closes what is open
  | .exit => .ok (setChild s c ⟨.zombie, ∅⟩)
  | .unborn | .zombie | .reaped => .stuck

/-- The descriptors of the process that writes the output of the first command, while it
    does. -/
def writerTable (line : PipeLine) (s : Pipeline β) : Option FileTable :=
  if line.first = .builtin then
    if (s.child .first).point = .executing then some (s.child .first).table else none
  else if (s.program .first).point = .running then some (s.program .first).table else none

/-- The writer is killed by `SIGPIPE`. -/
def killWriter (line : PipeLine) (s : Pipeline β) : Pipeline β :=
  if line.first = .builtin then setChild s .first ⟨.zombie, ∅⟩
  else setProgram s .first ⟨.exited, ∅⟩

/-- `write(1, ..)` of the first command. -/
def writeStep (line : PipeLine) (s : Pipeline β) (n : Nat) :
    Outcome Empty (Pipeline β × List (PipelineEvent β)) :=
  let bytes := s.toWrite.take n
  if bytes = [] then .stuck
  else
    match writerTable line s with
    | none => .stuck
    | some table =>
      match table.lookup 1 with
      | some (.writeEnd _) => do
        match ← s.pipe.write (Held s (.readEnd 0)) bytes with
        | none => return (killWriter line s, [.brokenPipe])
        | some pipe => return ({ s with pipe := pipe, toWrite := s.toWrite.drop n }, [.wrote bytes])
      | _ => .ok ({ s with toWrite := s.toWrite.drop n }, [.elsewhere bytes])

/-- The program of the second command has read what it wanted. -/
def readerDone (s : Pipeline β) : Prop := s.sawEnd ∨ s.wants = some 0

instance (s : Pipeline β) : Decidable (readerDone s) := inferInstanceAs (Decidable (_ ∨ _))

/-- `read(0, ..)` of the second command. -/
def readStep (s : Pipeline β) (n : Nat) : Outcome Empty (Pipeline β × List (PipelineEvent β)) :=
  if (s.program .second).point = .running ∧ ¬ readerDone s then
    match (s.program .second).table.lookup 0 with
    | some (.readEnd _) => do
      let (bytes, pipe) ← s.pipe.read (Held s (.writeEnd 0)) (s.wants.elim n (min n))
      if bytes = [] then return ({ s with sawEnd := true }, [.ended])
      else
        return ({ s with pipe := pipe, wants := s.wants.map (· - bytes.length) }, [.read bytes])
    | _ => .stuck
  else .stuck

/-- The program of a child has done all it wanted to: the first has written its output, and the
    second has read. -/
def programDone (s : Pipeline β) : PipeChild → Prop
  | .first => s.toWrite = []
  | .second => readerDone s

instance (s : Pipeline β) (c : PipeChild) : Decidable (programDone s c) :=
  match c with
  | .first => inferInstanceAs (Decidable (s.toWrite = []))
  | .second => inferInstanceAs (Decidable (readerDone s))

/-- The program of a child ends. -/
def programExit (s : Pipeline β) (c : PipeChild) : Outcome Empty (Pipeline β) :=
  if (s.program c).point = .running ∧ programDone s c then
    .ok (setProgram s c ⟨.exited, ∅⟩)
  else .stuck

/-- The pipeline as a machine. -/
def machine (line : PipeLine) (β : Type) :
    Machine (Pipeline β) PipelineAction (PipelineEvent β) Empty where
  step s
    | .pipe fds => do return (← makePipe s fds, [])
    | .shell forked => do return (← shellStep line s forked, [])
    | .child c forked => do return (← childStep line s c forked, [])
    | .write n => writeStep line s n
    | .read n => readStep s n
    | .programExit c => do return (← programExit s c, [])

/-- The shell, with these descriptors, when it starts a pipeline: the first command has `output`
    to write, and the second one wants to read so much. -/
def initial (table : FileTable) (capacity : Nat) (output : List β) (wants : Option Nat) :
    Pipeline β where
  shell := ⟨.pipe, table⟩
  readWritePipes := (0, 0)
  child := fun _ => ⟨.unborn, ∅⟩
  program := fun _ => ⟨.unborn, ∅⟩
  pipe := ⟨capacity, []⟩
  toWrite := output
  wants := wants
  sawEnd := false

end PipeCommand

end OsWet
