import OsWet.Native.CommandLine
import OsWet.Native.JobsList
import OsWet.ForStd.Descriptors

/-!
# What the commands of the shell do to its descriptors

`RedirectionCommand`, `ExternalCommand`, `PipeCommand` and `CatCommand` in the shell
process, with every answer of `open`, `read`, `dup`, `pipe` and `fork`. What a forked child
does to its own descriptors is not in the model. The other builtin commands open and close
nothing.
-/

namespace OsWet

open Text

/-- What `open` and then the calls of `read` answer for a file of `cat`: each `read` fails,
    or gives a chunk of the file, which is empty at the end. -/
inductive FileAnswer where
  | openFails
  | opened (fd : Int) (reads : List (Option Text))
  deriving DecidableEq, Repr

/-- What the system answers while a line is executed; `none` and `false` are failures.
    `readWritePipes` is what the array for the pipe holds before `pipe` fills it. -/
structure Answers where
  opened : Option Int
  saveStdOutFd : Option Int
  pipe : Option (Int × Int)
  readWritePipes : Int × Int
  firstForked : Bool
  secondForked : Bool
  written : Bool
  files : List FileAnswer
  deriving DecidableEq, Repr

/-- The descriptor that a redirection replaces. -/
def STDOUT_FILENO : Int := 1

namespace CatCommand

/-- How many bytes `cat` reads at a time. -/
def DEFAULT_BLOCK_SIZE : Nat := 4096

/-- What `cout << buffer` writes: the chunk up to a NUL character. -/
def upToNul (chunk : Text) : Text := chunk.takeWhile (· ≠ '\x00')

/-- The loop of `printFile`, and the end of the function. -/
def readLoop (t : Descriptors) (fd : Int) :
    List (Option Text) → Outcome Empty (Descriptors × List Output)
  | [] => .stuck
  -- `return` without `close`
  | none :: _ => .ok (t, [.perror (text "smash error: read failed")])
  | some buffer :: reads =>
    -- `read` gives no more than was asked for
    if DEFAULT_BLOCK_SIZE < buffer.length then .stuck
    -- `shouldKeepReading`
    else if 0 < buffer.length then do
      let (t, out) ← readLoop t fd reads
      return (t, .cout (upToNul buffer) :: out)
    else .ok (t.close fd, [.cout (upToNul buffer)])

def printFile (t : Descriptors) : FileAnswer → Outcome Empty (Descriptors × List Output)
  | .openFails => .ok (t, [.perror (text "smash error: open failed")])
  | .opened fd reads => do readLoop (← t.openAt fd) fd reads

/-- The loop of `execute` over the file names. -/
def printFiles (t : Descriptors) :
    List Text → List FileAnswer → Outcome Empty (Descriptors × List Output)
  | [], _ => .ok (t, [])
  | _ :: _, [] => .stuck
  | _ :: filenames, answer :: answers => do
    let (t, out) ← printFile t answer
    let (t, out') ← printFiles t filenames answers
    return (t, out ++ out')

def execute (t : Descriptors) (args : List Text) (answers : Answers) :
    Outcome Empty (Descriptors × List Output) :=
  if args = [] then .ok (t, [.cerr (text "smash error: cat: not enough arguments")])
  else printFiles t args answers.files

end CatCommand

/-- `int readWritePipes[2]; if (pipe(readWritePipes) == -1) perror(..)`: the table, what the
    array holds then, and the message. A failing `pipe` leaves the array as it was. -/
def makeReadWritePipes (t : Descriptors) (answers : Answers) :
    Outcome Empty (Descriptors × (Int × Int) × List Output) :=
  match answers.pipe with
  | none => .ok (t, answers.readWritePipes, [.perror (text "smash error: pipe failed")])
  | some readWritePipes => do
    let t ← t.openPipe readWritePipes
    return (t, readWritePipes, [])

namespace ExternalCommand

/-- `runBackgroundExternalCommand` in the shell. When `pipe` fails it goes on with what the
    array holds. -/
def runBackgroundExternalCommand (t : Descriptors) (answers : Answers) :
    Outcome Empty (Descriptors × List Output) := do
  let (t, readWritePipes, out) ← makeReadWritePipes t answers
  if !answers.firstForked then return (t, out ++ [.perror (text "smash error: fork failed")])
  else
    -- the read end is the child's; the write end stays open
    let closed := if t.Open readWritePipes.1 then [] else
      [Output.perror (text "smash error: close failed")]
    let written := if answers.written then [] else
      [Output.perror (text "smash error: write failed")]
    return (t.close readWritePipes.1, out ++ closed ++ written)

/-- `execute`. In the foreground the shell forks and waits. -/
def executeFds (t : Descriptors) (args : List Text) (answers : Answers) :
    Outcome Empty (Descriptors × List Output) :=
  if isBackGroundCommand args then runBackgroundExternalCommand t answers
  else .ok (t, if answers.firstForked then [] else [.perror (text "smash error: fork failed")])

end ExternalCommand

namespace CommandExecutor

/-- `executeCommand`. -/
def executeFds (t : Descriptors) (commandLine : Text) (answers : Answers) :
    Outcome Empty (Descriptors × List Output) :=
  match lookup commandLine with
  | .nothing => .ok (t, [])
  | .builtin commandArg args =>
    if commandArg = text "cat" then CatCommand.execute t args answers else .ok (t, [])
  | .external args => ExternalCommand.executeFds t args answers

end CommandExecutor

namespace RedirectionCommand

/-- `runRedirectedCommand`. -/
def runRedirectedCommand (t : Descriptors) (command : Text) (answers : Answers) :
    Outcome Empty (Descriptors × List Output) :=
  match answers.opened with
  | none => .ok (t, [.perror (text "smash error: open failed")])
  | some fd => do
    let t ← t.openAt fd
    -- the result of `dup` is not checked
    let (saveStdOutFd, t) ← t.dup STDOUT_FILENO answers.saveStdOutFd
    let t := t.dup2 fd STDOUT_FILENO
    let (t, out) ← CommandExecutor.executeFds t command answers
    -- restore standard output
    let t := t.dup2 saveStdOutFd STDOUT_FILENO
    -- the second `close` should be that of `saveStdOutFd`
    return ((t.close fd).close fd, out)

/-- `execute` in the shell. -/
def execute (t : Descriptors) (command : Text) (isBackground : Bool) (answers : Answers) :
    Outcome Empty (Descriptors × List Output) :=
  if isBackground then
    .ok (t, if answers.firstForked then [] else [.perror (text "smash error: pid failed")])
  else runRedirectedCommand t command answers

end RedirectionCommand

namespace PipeCommand

/-- `execute` in the shell. When `pipe` fails it goes on with what the array holds. -/
def execute (t : Descriptors) (answers : Answers) : Outcome Empty (Descriptors × List Output) := do
  let (t, readWritePipes, out) ← makeReadWritePipes t answers
  if !answers.firstForked || !answers.secondForked then
    return (t, out ++ [.perror (text "smash error: fork failed")])
  else return ((t.close readWritePipes.1).close readWritePipes.2, out)

end PipeCommand

namespace SmallShell

/-- `executeCommand`. -/
def executeFds (t : Descriptors) (cmd_line : Text) (answers : Answers) :
    Outcome Empty (Descriptors × List Output) :=
  match path cmd_line with
  | .blank => .ok (t, [])
  | .pipe _ => PipeCommand.execute t answers
  | .redirection tokenizedArgs isBackground _ =>
    RedirectionCommand.execute t tokenizedArgs.command isBackground answers
  | .executor cmd_line => CommandExecutor.executeFds t cmd_line answers

/-- The shell, executing one line after the other. -/
def fdMachine : Machine Descriptors (Text × Answers) Output Empty where
  step t l := executeFds t l.1 l.2

end SmallShell

end OsWet
