import OsWet.Native.Text

/-!
# From a command line to a command

How `SmallShell::executeCommand` and `CommandExecutor::executeCommand` find out what a
line asks for: a pipeline, a redirection, a builtin command or an external one, and
whether it is to run in the background. What the commands then do is in other modules.
-/

namespace OsWet

open Text

/-- The mark of a command that is to run in the background. -/
def BACKGROUND_KEYWORD : Char := '&'

/-- What stands between the two commands of a pipeline. -/
def PIPE_DELIMITER : Char := '|'

/-- The operator that adds to the file. -/
def REDIRECTION_WITH_APPEND : Text := text ">>"

/-- The operator that overwrites the file. -/
def REDIRECTION_WITH_NO_APPEND : Text := text ">"

/-- `parseCommandLine`. -/
def parseCommandLine (cmd_line : Text) : List Text := words (trim cmd_line)

/-- `removeTrailingBackgroundChar`, of `SmallShell` and of `ExternalCommand`. -/
def removeTrailingBackgroundChar (bashCommand : Text) : Text :=
  if bashCommand.getLast? = some BACKGROUND_KEYWORD then bashCommand.dropLast else bashCommand

namespace ExternalCommand

/-- The test of `ExternalCommand::execute`, on the last word. -/
def isBackGroundCommand (args : List Text) : Bool :=
  (find [BACKGROUND_KEYWORD] (args.getLastD [])).isSome

/-- `getBashCommand`. -/
def getBashCommand (args : List Text) : Text :=
  -- every word with a blank behind it, and the last blank taken off again
  (args.foldl (fun bashCommand arg => bashCommand ++ arg ++ [' ']) []).dropLast

/-- The string that `execvBashCommandInChildProcess` passes to bash. -/
def bashCommand (args : List Text) : Text := removeTrailingBackgroundChar (getBashCommand args)

end ExternalCommand

namespace PipeCommand

/-- The test of `PipeCommand::waitForCommandToFinish`, on the last part. -/
def isBackGroundCommand (args : List Text) : Bool :=
  (find [BACKGROUND_KEYWORD] (args.getLastD [])).isSome

end PipeCommand

namespace CommandExecutor

/-- The keys of `builtinCommandsArgToCommand`. -/
def builtinCommands : List Text :=
  [text "chprompt", text "showpid", text "pwd", text "cd", text "jobs", text "kill", text "fg",
   text "bg", text "quit", text "cat"]

/-- What `CommandExecutor::executeCommand` does with a line. -/
inductive Lookup where
  | nothing
  | builtin (commandArg : Text) (args : List Text)
  | external (args : List Text)
  deriving DecidableEq, Repr

/-- The lookup of `CommandExecutor::executeCommand`. -/
def lookup (commandLine : Text) : Lookup :=
  match parseCommandLine commandLine with
  | [] => .nothing
  | commandArg :: args =>
    -- the name of the command decides, not what it is given
    if commandArg ∈ builtinCommands then .builtin commandArg args
    else .external (commandArg :: args)

end CommandExecutor

namespace SmallShell

/-- `splitCommand`. -/
def splitCommand (cmd_line : Text) (delimiter : Char) : List Text := parts delimiter (trim cmd_line)

/-- A line with exactly two parts. -/
def isPipeCommand (cmd_line : Text) : Bool := (splitCommand cmd_line PIPE_DELIMITER).length = 2

/-- A line with one of the operators anywhere in it. -/
def isRedirectionCommand (cmd_line : Text) : Bool :=
  (find REDIRECTION_WITH_APPEND cmd_line).isSome ||
    (find REDIRECTION_WITH_NO_APPEND cmd_line).isSome

/-- `isBackgroundCommand`, for a line that is not blank. -/
def isBackgroundCommand (cmd_line : Text) : Bool :=
  (rtrim cmd_line).getLast? = some BACKGROUND_KEYWORD

/-- The three strings of `tokenizeRedirectionCommand`, for a redirection. -/
structure RedirectionTokens where
  command : Text
  redirection : Text
  file : Text
  deriving DecidableEq, Repr

/-- The line is split at the first operator; with `>>` anywhere in the line that is the one. -/
def tokenizeRedirectionCommand (cmdLine : Text) : RedirectionTokens :=
  let currentRedirectionCommand :=
    if (find REDIRECTION_WITH_APPEND cmdLine).isNone then REDIRECTION_WITH_NO_APPEND
    else REDIRECTION_WITH_APPEND
  let index := (find currentRedirectionCommand cmdLine).getD 0
  { command := trim (cmdLine.take index)
    redirection := currentRedirectionCommand
    file := trim (cmdLine.drop (index + currentRedirectionCommand.length)) }

/-- The path that a line takes through `SmallShell::executeCommand`. -/
inductive Path where
  | blank
  | pipe (args : List Text)
  | redirection (tokenizedArgs : RedirectionTokens) (isBackground append : Bool)
  | executor (cmd_line : Text)
  deriving DecidableEq, Repr

/-- `SmallShell::executeCommand` up to the calls of the commands. -/
def path (cmd_line : Text) : Path :=
  if parseCommandLine cmd_line = [] then .blank
  else if isPipeCommand cmd_line then .pipe (splitCommand cmd_line PIPE_DELIMITER)
  else if isRedirectionCommand cmd_line then
    let tokenizedArgs := tokenizeRedirectionCommand (removeTrailingBackgroundChar cmd_line)
    .redirection tokenizedArgs (isBackgroundCommand cmd_line)
      (tokenizedArgs.redirection = REDIRECTION_WITH_APPEND)
  else .executor cmd_line

/-- A line for the executor is not blank, and goes there as it is. -/
theorem path_eq_executor {cmd_line line : Text} (h : path cmd_line = .executor line) :
    line = cmd_line ∧ parseCommandLine cmd_line ≠ [] := by
  unfold path at h
  split at h
  · cases h
  · rename_i hne
    split at h
    · cases h
    · split at h
      · cases h
      · cases h
        exact ⟨rfl, hne⟩

end SmallShell

end OsWet
