import Mathlib.Logic.Function.Basic

/-!
# The children of a process

The part of the process table that a parent sees: its children that it has not reaped,
with what `waitpid` and `kill` do to them. A child that was sent `SIGKILL` can only die;
it is dying until it is a zombie. A stop is reported by `waitpid` once.
-/

namespace OsWet

/-- The state of a child that has not been reaped. -/
inductive ChildState where
  | running
  | stopped (reported : Bool)
  | dying
  | zombie
  deriving DecidableEq, Repr

/-- What a child, or somebody else outside the parent, does to it. -/
inductive ChildEvent where
  | exits
  | stops
  | continues
  deriving DecidableEq, Repr

/-- The children by pid. -/
abbrev Children : Type := Int → Option ChildState

namespace Children

/-- The signals that the shell sends, with their numbers on Linux. -/
def SIGKILL : Int := 9

def SIGCONT : Int := 18

def SIGSTOP : Int := 19

/-- No children. -/
def empty : Children := fun _ => none

/-- A new child runs. -/
def fork (children : Children) (pid : Int) : Children :=
  Function.update children pid (some .running)

/-- `waitpid(pid, _, WNOHANG)`. -/
def waitNoHang (children : Children) (pid : Int) : Int × Children :=
  match children pid with
  | some .zombie => (pid, Function.update children pid none)
  | some _ => (0, children)
  | none => (-1, children)

/-- `waitpid(pid, _, WUNTRACED)`, with `none` while it blocks. -/
def waitUntraced (children : Children) (pid : Int) : Option (Int × Children) :=
  match children pid with
  | some .zombie => some (pid, Function.update children pid none)
  | some (.stopped false) => some (pid, Function.update children pid (some (.stopped true)))
  | some _ => none
  | none => some (-1, children)

/-- What a signal does to a child at once. The other signals have an effect only through
    what the child then does. -/
def signalled (sig : Int) : ChildState → ChildState
  | .running => if sig = SIGKILL then .dying else if sig = SIGSTOP then .stopped false else .running
  | .stopped reported =>
    if sig = SIGKILL then .dying else if sig = SIGCONT then .running else .stopped reported
  | .dying => .dying
  | .zombie => .zombie

/-- `kill(pid, sig)`, and whether it succeeds: there must be such a child, and the parent
    must be permitted to send it signals. -/
def kill (children : Children) (pid sig : Int) (permitted : Bool) : Bool × Children :=
  match children pid with
  | some state =>
    if permitted then (true, Function.update children pid (some (signalled sig state)))
    else (false, children)
  | none => (false, children)

/-- A child moves by itself, or somebody else stops, continues or kills it. -/
def event (children : Children) (pid : Int) (e : ChildEvent) : Option Children :=
  match e, children pid with
  | .exits, some .running | .exits, some (.stopped _) | .exits, some .dying =>
    some (Function.update children pid (some .zombie))
  | .stops, some .running => some (Function.update children pid (some (.stopped false)))
  | .continues, some (.stopped _) => some (Function.update children pid (some .running))
  | _, _ => none

/-- The child has not been reaped. -/
def Unreaped (children : Children) (pid : Int) : Prop := (children pid).isSome

instance (children : Children) (pid : Int) : Decidable (children.Unreaped pid) :=
  inferInstanceAs (Decidable ((children pid).isSome = true))

end Children

end OsWet
