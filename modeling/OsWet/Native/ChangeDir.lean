import OsWet.ForStd.Machine
import OsWet.Native.JobsList

/-!
# The working directory of the shell

`ChangeDirCommand` and `GetCurrentDirectoryCommand`, with the two records of `SmallShell`
and the working directory that the kernel keeps for the process. Whether `chdir` and
`get_current_dir_name` succeed is chosen for each command.
-/

namespace OsWet

open Text

/-- What the kernel makes of the names of directories. A directory is reached by the name
    that `get_current_dir_name` has for it, from wherever the process is. -/
structure Directories (Dir : Type*) where
  name : Dir → Text
  resolve : Dir → Text → Dir
  name_ne_nil : ∀ d, name d ≠ []
  resolve_name : ∀ d d', resolve d (name d') = d'

/-- The shell and what the kernel keeps for it. `left` are the directories that the process
    was in before it changed to another one, the last one first; no code reads it. -/
structure DirState (Dir : Type*) where
  currentDirectory : Text
  previousDirectory : Text
  workingDirectory : Dir
  left : List Dir
  deriving DecidableEq, Repr

/-- What the system answers to a `cd`: whether the calls succeed. -/
structure DirAnswers where
  chdir : Bool
  get_current_dir_name : Bool
  deriving DecidableEq, Repr

namespace Directories

variable {Dir : Type*} (fs : Directories Dir)

/-- `chdir(path)`: the result and the state after it. -/
def chdir (s : DirState Dir) (path : Text) (succeeds : Bool) : Int × DirState Dir :=
  if succeeds then
    (0, { s with
      workingDirectory := fs.resolve s.workingDirectory path
      left := s.workingDirectory :: s.left })
  else (-1, s)

/-- `get_current_dir_name()`, with `none` for a null pointer. -/
def get_current_dir_name (s : DirState Dir) (succeeds : Bool) : Option Text :=
  if succeeds then some (fs.name s.workingDirectory) else none

/-- The records after `initEnvironment` in the directory `d`. When it has no name for it the
    shell exits. -/
def initEnvironment (d : Dir) : DirState Dir :=
  { currentDirectory := fs.name d, previousDirectory := [], workingDirectory := d, left := [] }

end Directories

namespace ChangeDirCommand

variable {Dir : Type*} (fs : Directories Dir)

/-- `cd` takes one argument. -/
def MAX_NUM_OF_ARGS : Nat := 1

/-- The argument that stands for the previous directory. -/
def SPECIAL_ARG_TO_CHANGE_TO_PREV_DIRECTORY : Text := text "-"

/-- `execute` from the call of `chdir` on. -/
def changeTo (s : DirState Dir) (path : Text) (answers : DirAnswers) :
    DirState Dir × List Output :=
  -- the record, not the directory that the process is in
  let previousDirectory := s.currentDirectory
  let (result, s) := fs.chdir s path answers.chdir
  if result = -1 then (s, [.perror (text "smash error: chdir failed")])
  else
    match fs.get_current_dir_name s answers.get_current_dir_name with
    -- the process stays where it has gone to
    | none => (s, [.perror (text "smash error: get_current_dir_name failed")])
    | some currentDir =>
      ({ s with currentDirectory := currentDir, previousDirectory := previousDirectory }, [])

def execute (s : DirState Dir) (args : List Text) (answers : DirAnswers) :
    DirState Dir × List Output :=
  match args with
  | [] => (s, [])
  | arg :: args =>
    if args.length + 1 > MAX_NUM_OF_ARGS then
      (s, [.cerr (text "smash error: cd: too many arguments")])
    else if arg = SPECIAL_ARG_TO_CHANGE_TO_PREV_DIRECTORY then
      if s.previousDirectory = [] then (s, [.cerr (text "smash error: cd: OLDPWD not set")])
      else changeTo fs s s.previousDirectory answers
    else changeTo fs s arg answers

end ChangeDirCommand

namespace GetCurrentDirectoryCommand

/-- `execute`. It prints the record. -/
def execute {Dir : Type*} (s : DirState Dir) (_args : List Text) : List Output :=
  [.cout s.currentDirectory]

end GetCurrentDirectoryCommand

/-- A command of the shell that has to do with its directory. -/
inductive DirAction where
  | cd (args : List Text) (answers : DirAnswers)
  | pwd (args : List Text)
  deriving DecidableEq, Repr

/-- The shell that runs these commands one after the other. -/
def dirMachine {Dir : Type*} (fs : Directories Dir) :
    Machine (DirState Dir) DirAction Output Empty where
  step s
    | .cd args answers => .ok (ChangeDirCommand.execute fs s args answers)
    | .pwd args => .ok (s, GetCurrentDirectoryCommand.execute s args)

end OsWet
