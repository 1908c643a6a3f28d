import OsWet.Native.Text

/-!
# The jobs list

`JobsList.cpp`. The list hands out job ids from `maxJobId`, which its operations keep as
the largest id of the list. The second overload of `addJob`, which puts a job back under
the id it had, is `addJobWithId` here.
-/

namespace OsWet

/-- What the shell prints. `perror` adds the reason of the failure, which is left out. -/
inductive Output where
  | cout (s : Text)
  | cerr (s : Text)
  | perror (s : Text)
  deriving DecidableEq, Repr

/-- `JobsList::JobEntry`. -/
structure JobEntry where
  startTime : Int
  pid : Int
  jobId : Int
  command : Text
  isStopped : Bool
  deriving DecidableEq, Repr

/-- `JobsList`. -/
structure JobsList where
  jobs : List JobEntry
  maxJobId : Int
  deriving DecidableEq, Repr

namespace JobsList

/-- The largest id of a list without jobs; the first job gets the next one. -/
def FIRST_JOB_ID : Int := 0

/-- The list of a new shell. -/
def empty : JobsList := ⟨[], FIRST_JOB_ID⟩

/-- `++x` for an `int`, which wraps around. -/
def increment (x : Int) : Int := (x + 1).bmod (2 ^ 32)

/-- `addJob(pid, command, isStopped)` at the time `now`. -/
def addJob (l : JobsList) (now pid : Int) (command : Text) (isStopped : Bool) : JobsList :=
  let maxJobId := increment l.maxJobId
  ⟨l.jobs ++ [⟨now, pid, maxJobId, command, isStopped⟩], maxJobId⟩

/-- The loop of `addJob(jobId, ..)` over the entries, with `maxJobId`. It stops at the
    place of the new entry; an entry that it passes may move `maxJobId`. -/
def insertLoop (newJob : JobEntry) : List JobEntry → Int → List JobEntry × Int
  | [], maxJobId => ([], maxJobId)
  | job :: jobs, maxJobId =>
    -- the new entry goes between this entry and the next, and the loop ends
    if (∀ next ∈ jobs.head?, newJob.jobId < next.jobId) ∧ job.jobId < newJob.jobId then
      (job :: newJob :: jobs, maxJobId)
    else
      let (jobs', maxJobId') :=
        insertLoop newJob jobs (if maxJobId ≤ newJob.jobId then newJob.jobId else maxJobId)
      (job :: jobs', maxJobId')

/-- `addJob(jobId, pid, command, isStopped)` at the time `now`. -/
def addJobWithId (l : JobsList) (now jobId pid : Int) (command : Text) (isStopped : Bool) :
    JobsList :=
  let newJob : JobEntry := ⟨now, pid, jobId, command, isStopped⟩
  -- an empty list, or an id below all others: `maxJobId` is not looked at
  if ∀ job ∈ l.jobs.head?, jobId < job.jobId then ⟨newJob :: l.jobs, l.maxJobId⟩
  else
    let (jobs, maxJobId) := insertLoop newJob l.jobs l.maxJobId
    ⟨jobs, maxJobId⟩

/-- `eraseJob`, called with an entry of the list and its index. -/
def eraseJob (l : JobsList) (i : Nat) (job : JobEntry) : JobsList where
  jobs := l.jobs.eraseIdx i
  maxJobId :=
    -- the largest id goes, so the one before the last entry is the largest now
    if job.jobId = l.maxJobId then
      if l.jobs.length = 1 then 0
      else (l.jobs[l.jobs.length - 2]?).elim l.maxJobId JobEntry.jobId
    else l.maxJobId

/-- The loop of `removeJobById` and `removeJobByPid` at index `i`: erase the first entry
    that meets the test. -/
def removeLoop (l : JobsList) (test : JobEntry → Bool) : List JobEntry → Nat → JobsList
  | [], _ => l
  | job :: jobs, i => if test job then l.eraseJob i job else removeLoop l test jobs (i + 1)

def removeJobById (l : JobsList) (jobId : Int) : JobsList :=
  l.removeLoop (fun job => job.jobId = jobId) l.jobs 0

def removeJobByPid (l : JobsList) (pid : Int) : JobsList :=
  l.removeLoop (fun job => job.pid = pid) l.jobs 0

/-- The first loop of `removeFinishedJobs`: the jobs whose process `waitpid` reaps. The
    function `waitpid` answers for a pid and changes the process table. -/
def jobsToRemove {κ : Type} (waitpid : κ → Int → Int × κ) :
    List JobEntry → κ → List JobEntry × κ × List Output
  | [], procs => ([], procs, [])
  | job :: jobs, procs =>
    let (status, procs) := waitpid procs job.pid
    let (rest, procs, out) := jobsToRemove waitpid jobs procs
    (if 0 < status then job :: rest else rest, procs,
      if status = -1 then .perror (text "smash error: waitpid failed") :: out else out)

/-- `removeFinishedJobs`. -/
def removeFinishedJobs {κ : Type} (waitpid : κ → Int → Int × κ) (l : JobsList) (procs : κ) :
    JobsList × κ × List Output :=
  let (finished, procs, out) := jobsToRemove waitpid l.jobs procs
  (finished.foldl (fun l job => l.removeJobById job.jobId) l, procs, out)

/-- The first job with the id. -/
def getJobById (l : JobsList) (jobId : Int) : Option JobEntry :=
  l.jobs.find? fun job => job.jobId = jobId

/-- The job at the end of the list. -/
def getLastJob (l : JobsList) : Option JobEntry := l.jobs.getLast?

/-- `getLastStoppedJob`: the loop keeps the last stopped entry it has seen. -/
def getLastStoppedJob (l : JobsList) : Option JobEntry :=
  l.jobs.foldl (fun lastStoppedJob job => if job.isStopped then some job else lastStoppedJob) none

end JobsList

end OsWet
