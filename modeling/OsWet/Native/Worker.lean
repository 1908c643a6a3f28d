import OsWet.Native.Request

/-!
# A worker and its requests

The loop of `workerThreadJob` in one worker, with `requestHandle` as it is. The counters are local
to the thread, and the metadata block belongs to the worker until it is freed; getting the message
from the queue is in `OsWet.Native.Server`.
-/

namespace OsWet

/-- The counters of `workerThreadJob`. -/
structure ThreadCounts where
  jobCount : Int
  staticCount : Int
  dynamicCount : Int
  deriving DecidableEq, Repr

namespace ThreadCounts

/-- What the counters are before the loop. -/
def zero : ThreadCounts := ⟨0, 0, 0⟩

/-- The counters after another job was taken on. -/
def countJob (counts : ThreadCounts) : ThreadCounts :=
  { counts with jobCount := counts.jobCount + 1 }

/-- The counters after `requestHandle` has returned `currentIsStatic`. -/
def update (counts : ThreadCounts) (currentIsStatic : Int) : ThreadCounts :=
  -- an invalid request is not counted
  if currentIsStatic = HW3_INVALID_VALUE then counts
  else if currentIsStatic ≠ 0 then { counts with staticCount := counts.staticCount + 1 }
  else { counts with dynamicCount := counts.dynamicCount + 1 }

/-- The metadata that the worker hands to `requestHandle`. -/
def fillIn (counts : ThreadCounts) (threadID : Int) (currentTime : Timeval)
    (metaData : MetaData) : MetaData where
  arrivalTime := metaData.arrivalTime
  dispatchTime := timersub currentTime metaData.arrivalTime
  threadID := threadID
  requestsCount := counts.jobCount
  numStaticRequests := counts.staticCount
  numDynamicRequests := counts.dynamicCount

end ThreadCounts

/-- An iteration of the loop for a connection that `MQGet` has returned: what `requestHandle`
    returned and left in the metadata, and the new counters. -/
def workerThreadJobRound (threadID : Int) (counts : ThreadCounts) (currentConnFd : Int)
    (metaData : MetaData) (currentTime : Timeval) (buffers : Buffers) :
    ServerProcess (Int × MetaData × ThreadCounts) := do
  let counts := counts.countJob
  let (currentIsStatic, metaData) ←
    requestHandle currentConnFd (counts.fillIn threadID currentTime metaData) buffers
  let counts := counts.update currentIsStatic
  Close currentConnFd
  return (currentIsStatic, metaData, counts)

end OsWet
