import Mathlib.Algebra.Group.Int.Defs

/-!
# The metadata of a connection

`MessageMetaData` of `message.h`, and the times in it.
-/

namespace OsWet

/-- `struct timeval`. -/
structure Timeval where
  tv_sec : Int
  tv_usec : Int
  deriving DecidableEq, Repr

/-- The macro `timersub`. -/
def timersub (a b : Timeval) : Timeval :=
  let tv_sec := a.tv_sec - b.tv_sec
  let tv_usec := a.tv_usec - b.tv_usec
  if tv_usec < 0 then ⟨tv_sec - 1, tv_usec + 1000000⟩ else ⟨tv_sec, tv_usec⟩

/-- `convertTimeValToMSULong`. -/
def convertTimeValToMSULong (timeV : Timeval) : Int :=
  (timeV.tv_sec * 1000 + timeV.tv_usec.tdiv 1000) % 2 ^ 64

/-- `struct t_message_meta_data`. -/
structure MetaData where
  arrivalTime : Timeval
  dispatchTime : Timeval
  threadID : Int
  requestsCount : Int
  numStaticRequests : Int
  numDynamicRequests : Int
  deriving DecidableEq, Repr

end OsWet
