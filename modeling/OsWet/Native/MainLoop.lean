import OsWet.Native.CommandLine
import OsWet.ForStd.InputStream
import OsWet.ForStd.Machine

/-!
# The main loop of the shell

`main` of `smash.cpp` and `SmallShell::executeCommand`. What the commands do to the shell
and to the system is a parameter; a command always returns. Whether the loop goes on depends
on the line alone.

`std::cin` is a stream of characters, and `cmd_line` is empty where `getline` fails. The
children of the shell share its standard input: a program reads from it, and `exit` in a
child that the shell has forked moves it back to where that child's copy of the stream
stands. So what a command does includes what is unread afterwards. The loop takes fuel, and
is stuck without it.
-/

namespace OsWet

/-- What the parts of a turn of the main loop do to a state of the shell and the system. The
    parts that take time, or start a child, also say what of the standard input is unread
    when they are done. -/
structure Commands (σ : Type*) where
  printPrompt : σ → σ
  removeFinishedJobs : σ × Text → σ × Text
  setCurrentCommand : σ → Text → σ
  pipeCommand : σ × Text → List Text → σ × Text
  redirectionCommand : σ × Text → SmallShell.RedirectionTokens → Bool → Bool → σ × Text
  commandExecutor : σ × Text → Text → σ × Text

/-- Run a part of a turn, which may change what `cin` has not read yet. -/
def share {σ : Type*} (part : σ × Text → σ × Text) (s : σ) (cin : InputStream Char) :
    σ × InputStream Char :=
  let (s, rest) := part (s, cin.rest)
  (s, cin.moved rest)

/-- `c_str` and back: a string up to its first NUL. -/
def cStr (s : Text) : Text := s.takeWhile (· != '\x00')

namespace SmallShell

variable {σ : Type*} (commands : Commands σ)

/-- The first word that ends the shell. -/
def QUIT_COMMAND_KEYWORD : Text := text "quit"

/-- `executeCommand`: the new state, and whether the shell goes on. -/
def executeCommand (s : σ) (cin : InputStream Char) (cmd_line : Text) :
    (σ × InputStream Char) × Bool :=
  let s := commands.setCurrentCommand s cmd_line
  match parseCommandLine cmd_line with
  | [] => ((s, cin), true)
  | commandArg :: _ =>
    let after := match path cmd_line with
      | .blank => (s, cin)
      | .pipe args => share (commands.pipeCommand · args) s cin
      | .redirection tokenizedArgs isBackground append =>
        share (commands.redirectionCommand · tokenizedArgs isBackground append) s cin
      | .executor cmd_line => share (commands.commandExecutor · cmd_line) s cin
    -- the first word decides, whatever the rest of the line asks for
    (after, commandArg ≠ QUIT_COMMAND_KEYWORD)

/-- The loop of `main`. -/
def mainLoop : Nat → σ × InputStream Char → Outcome Empty σ
  | 0, _ => .stuck
  | fuel + 1, (s, cin) =>
    let s := commands.printPrompt s
    -- what `getline` says about the stream is not looked at
    let (cmd_line, cin) := cin.getUntil '\n'
    let (s, cin) := share commands.removeFinishedJobs s cin
    let (after, continueSmash) := executeCommand commands s cin (cStr cmd_line)
    if continueSmash then mainLoop fuel after else .ok after.1

/-- `main`, in the state after the shell was set up. -/
def main (fuel : Nat) (s : σ) (input : Text) : Outcome Empty σ :=
  mainLoop commands fuel (s, .ofList input)

end SmallShell

end OsWet
