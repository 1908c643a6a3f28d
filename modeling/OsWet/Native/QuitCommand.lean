import OsWet.Native.JobsList
import OsWet.ForStd.Children

/-!
# The commands `jobs` and `quit`

`JobsList::printJobsList` and `JobsList::killAllJobs`, with the commands that call them.
-/

namespace OsWet

open Text

namespace JobsList

/-- `getJobElapsedTime` at the time `now`. Both times are whole seconds. -/
def getJobElapsedTime (now : Int) (job : JobEntry) : Int := now - job.startTime

/-- The line of `printJobsList` for a job, at the time `now`. -/
def jobLine (now : Int) (job : JobEntry) : Text :=
  let line := text "[" ++ toText job.jobId ++ text "] " ++ job.command ++ text " : " ++
    toText job.pid ++ text " " ++ toText (getJobElapsedTime now job) ++ text " secs"
  if job.isStopped then line ++ text " (stopped)" else line

/-- `printJobsList`, where `now` is the time at which a job is printed. -/
def printJobsList (l : JobsList) (now : JobEntry → Int) : List Output :=
  l.jobs.map fun job => .cout (jobLine (now job) job)

/-- The loop of `killAllJobs`, for any `kill` and the processes that it acts on. -/
def killLoop {κ : Type} (kill : κ → Int → Int → Bool × κ) : List JobEntry → κ → κ × List Output
  | [], processes => (processes, [])
  | job :: jobs, processes =>
    let line := Output.cout (toText job.pid ++ text ": " ++ job.command)
    match kill processes job.pid Children.SIGKILL with
    | (true, processes) =>
      let (processes, out) := killLoop kill jobs processes
      (processes, line :: out)
    | (false, processes) =>
      -- the loop goes on with the next job
      let (processes, out) := killLoop kill jobs processes
      (processes, line :: .perror (text "smash error: kill failed") :: out)

/-- `killAllJobs`. The jobs stay in the list. -/
def killAllJobs {κ : Type} (l : JobsList) (kill : κ → Int → Int → Bool × κ) (processes : κ) :
    κ × List Output :=
  let (processes, out) := killLoop kill l.jobs processes
  (processes, .cout (text "smash: sending SIGKILL signal to " ++
    toText (l.jobs.length : Int) ++ text " jobs:") :: out)

end JobsList

namespace QuitCommand

/-- The argument that makes `quit` kill the jobs. -/
def KILL_OPTION : Text := text "kill"

/-- `execute`. Every other argument is passed over. -/
def execute {κ : Type} (jobsList : JobsList) (kill : κ → Int → Int → Bool × κ) (processes : κ)
    (args : List Text) : κ × List Output :=
  if args.head? = some KILL_OPTION then jobsList.killAllJobs kill processes else (processes, [])

end QuitCommand

namespace JobsCommand

/-- `execute`. -/
def execute (jobsList : JobsList) (now : JobEntry → Int) (_args : List Text) : List Output :=
  jobsList.printJobsList now

end JobsCommand

end OsWet
