import OsWet.Spec.SmashStep
import OsWet.Spec.JobsListCorrect

/-!
# Job ids over a run of the shell

The ids of the jobs list stay in order as long as no job comes back to a list with at
most one other job, all of smaller ids: there `addJob` forgets to move `maxJobId`.
-/

namespace OsWet.Smash

open Text JobsList

/-- The step numbers a new job only while there is an `int` above the next id, and puts a
    job back under its old id (`SIGTSTP` after `fg`, `bg`, or `bg` that takes its move
    back) only when two other jobs, or one with a larger id, are listed. -/
def KeepsIds (s : Smash) : SmashAction → Prop
  | .execute cmd_line env =>
    (StartsInBackground cmd_line → env.forked.isSome →
      s.shell.jobsList.maxJobId + 1 < INT_MAX) ∧
    ∀ job, Resumes s.shell.jobsList cmd_line job →
      ¬ ShortReturn (s.shell.jobsList.removeJobByPid job.pid).jobs job.jobId ∧
      ((s.children.kill job.pid Children.SIGCONT env.permitted).1 = false →
        ¬ ShortReturn ((resumed s.shell.jobsList job env.now).removeJobByPid job.pid).jobs
          job.jobId)
  | .ctrlZ permitted _ =>
    (s.children.kill s.shell.currentPidForegroundProcess Children.SIGSTOP permitted).1 = true →
      if s.shell.currentJobIdForegroundProcess ≠ SmallShell.RESET_JOBID_VALUE then
        ¬ ShortReturn s.shell.jobsList.jobs s.shell.currentJobIdForegroundProcess
      else s.shell.jobsList.maxJobId + 1 < INT_MAX
  | _ => True

/-- The id of the job that the shell waits for after `fg`; it is 0 everywhere else. -/
def JobIdAt (s : Smash) : ShellPoint → Prop
  | .foreground job _ prevJobId =>
    s.shell.currentJobIdForegroundProcess = job.jobId ∧
      (0 < job.jobId ∧ job.jobId < INT_MAX) ∧ prevJobId = SmallShell.RESET_JOBID_VALUE
  | _ => s.shell.currentJobIdForegroundProcess = SmallShell.RESET_JOBID_VALUE

/-- The ids are in order, and the shell knows the id of the job it waits for. -/
structure IdsInv (s : Smash) : Prop where
  ids : IdsInOrder s.shell.jobsList
  jobId : s.JobIdAt s.point

/-- The ids are in order in a new shell. -/
theorem idsInv_initial : IdsInv initial := ⟨idsInOrder_empty, rfl⟩

/-- Steps that meet the condition keep the ids in order. -/
theorem IdsInv.step {s s' : Smash} {a : SmashAction} (h : IdsInv s) (hkeeps : s.KeepsIds a)
    (hstep : Step s a s') : IdsInv s' := by
  -- Only the steps that add a job need the condition; erasing keeps the order.
  obtain ⟨hids, hjobId⟩ := h
  cases hstep with
  | removeFinishedJobs hpoint hrun =>
    rw [hpoint] at hjobId
    have hremoved := hids.removeFinishedJobs Children.waitNoHang s.children
    rw [hrun] at hremoved
    exact ⟨hremoved, hjobId⟩
  | nothing hpoint =>
    rw [hpoint] at hjobId
    exact ⟨hids, hjobId⟩
  | external hpoint =>
    rw [hpoint] at hjobId
    exact ⟨hids, hjobId⟩
  | background hpoint hstarts hforked =>
    rw [hpoint] at hjobId
    -- A new job gets the next id.
    exact ⟨hids.addJob (hkeeps.1 hstarts (by simp [hforked])) _ _ _ _, hjobId⟩
  | foreground hpoint hjob =>
    rw [hpoint] at hjobId
    exact ⟨hids.removeJobByPid _, rfl, hids.bounds _ hjob, hjobId⟩
  | resume hpoint hjob hresumes =>
    rw [hpoint] at hjobId
    -- The job is erased and inserted again under its own id.
    have hbounds := hids.bounds _ hjob
    exact ⟨(hids.removeJobByPid _).addJobWithId hbounds (hkeeps.2 _ hresumes).1 _ _ _ _, hjobId⟩
  | @takeBack _ env job _ hpoint hjob hresumes hkill =>
    rw [hpoint] at hjobId
    have hbounds := hids.bounds _ hjob
    -- Two returns, and each has to find the list long enough.
    obtain ⟨hmove, hback⟩ := hkeeps.2 _ hresumes
    have hmoved : IdsInOrder (resumed s.shell.jobsList job env.now) :=
      (hids.removeJobByPid _).addJobWithId hbounds hmove _ _ _ _
    exact ⟨(hmoved.removeJobByPid _).addJobWithId hbounds (hback hkill) _ _ _ _, hjobId⟩
  | ctrlC => exact ⟨hids, hjobId⟩
  | @ctrlZ permitted now children hwait hpid hkill =>
    have hkeeps' := hkeeps (by rw [hkill])
    refine ⟨?_, hjobId⟩
    by_cases hfg : s.shell.currentJobIdForegroundProcess ≠ SmallShell.RESET_JOBID_VALUE
    · -- The job came to the foreground from the list, and goes back to its place.
      rw [if_pos hfg] at hkeeps' ⊢
      have hbounds : 0 < s.shell.currentJobIdForegroundProcess ∧
          s.shell.currentJobIdForegroundProcess < INT_MAX := by
        cases hpoint : s.point with
        | foreground job prevPid prevJobId =>
          rw [hpoint] at hjobId
          rw [hjobId.1]
          exact hjobId.2.1
        | external pid =>
          rw [hpoint] at hjobId
          exact absurd hjobId hfg
        | prompt => exact absurd hwait (by rw [hpoint]; exact id)
        | ready => exact absurd hwait (by rw [hpoint]; exact id)
      exact hids.addJobWithId hbounds hkeeps' _ _ _ _
    · rw [if_neg hfg] at hkeeps' ⊢
      exact hids.addJob hkeeps' _ _ _ _
  | ctrlZ_fails => exact ⟨hids, hjobId⟩
  | externalReturns hpoint =>
    rw [hpoint] at hjobId
    exact ⟨hids, hjobId⟩
  | foregroundReturns hpoint =>
    rw [hpoint] at hjobId
    -- The id of the foreground job is reset to what it was before `fg`.
    exact ⟨hids, hjobId.2.2⟩
  | child => exact ⟨hids, hjobId⟩

/-- Along every run whose steps meet the condition, the ids are sound. -/
theorem idsSound_of_keepsIds (acts : List SmashAction)
    (h : machine.EveryStep KeepsIds initial acts) :
    machine.EveryState (fun s => IdsSound s.shell.jobsList) initial acts :=
  Machine.everyState_of_everyStep idsInv_initial (fun _ hinv => hinv.ids.sound)
    (fun _ _ _ _ hinv hkeeps hstep => hinv.step hkeeps (step_cases hstep)) h

/-- Three jobs, and the second comes to the foreground and is stopped there. -/
def returnToMiddleRun : List SmashAction :=
  [.removeFinishedJobs, .execute (text "a&") (forks 100), .removeFinishedJobs,
   .execute (text "b&") (forks 101), .removeFinishedJobs, .execute (text "c&") (forks 102),
   .removeFinishedJobs, .execute (text "fg 2") (forks 103), .ctrlZ true 0, .waitReturns]

/-- A line that is not `bg` keeps the ids in order when the next id is small. -/
theorem keepsIds_of_not_bg {s : Smash} {cmd_line : Text} {env : Env}
    (hmax : s.shell.jobsList.maxJobId + 1 < INT_MAX)
    (hbg : ∀ args, CommandExecutor.lookup cmd_line ≠ .builtin (text "bg") args) :
    s.KeepsIds (.execute cmd_line env) :=
  ⟨fun _ _ => hmax, fun _ ⟨args, hlookup, _⟩ => absurd hlookup (hbg args)⟩

theorem idsSound_returnToMiddleRun :
    (∃ s out, machine.exec initial returnToMiddleRun = .ok (s, out) ∧
      s.shell.jobsList.jobs.map JobEntry.jobId = [1, 2, 3]) ∧
    machine.EveryState (fun s => IdsSound s.shell.jobsList) initial returnToMiddleRun := by
  refine ⟨⟨_, _, rfl, by decide⟩, idsSound_of_keepsIds returnToMiddleRun ?_⟩
  intro _ _ h
  obtain ⟨⟩ := h
  refine ⟨trivial, ?_⟩
  intro _ _ h
  obtain ⟨⟩ := h
  refine ⟨keepsIds_of_not_bg (by decide) (fun _ h => by cases h), ?_⟩
  intro _ _ h
  obtain ⟨⟩ := h
  refine ⟨trivial, ?_⟩
  intro _ _ h
  obtain ⟨⟩ := h
  refine ⟨keepsIds_of_not_bg (by decide) (fun _ h => by cases h), ?_⟩
  intro _ _ h
  obtain ⟨⟩ := h
  refine ⟨trivial, ?_⟩
  intro _ _ h
  obtain ⟨⟩ := h
  refine ⟨keepsIds_of_not_bg (by decide) (fun _ h => by cases h), ?_⟩
  intro _ _ h
  obtain ⟨⟩ := h
  refine ⟨trivial, ?_⟩
  intro _ _ h
  obtain ⟨⟩ := h
  refine ⟨keepsIds_of_not_bg (by decide) (fun _ h => by cases h), ?_⟩
  intro _ _ h
  obtain ⟨⟩ := h
  refine ⟨fun _ => ?_, ?_⟩
  · -- Two other jobs are listed when the job comes back.
    rw [if_pos (by decide)]
    exact fun hshort => absurd hshort.1 (by decide)
  · intro _ _ h
    obtain ⟨⟩ := h
    exact ⟨trivial, trivial⟩

/-- The only job comes to the foreground and is stopped; the next job gets its id. -/
def returnToEmptyRun : List SmashAction :=
  [.removeFinishedJobs, .execute (text "sleep 9&") (forks 100), .removeFinishedJobs,
   .execute (text "fg") (forks 0), .ctrlZ true 0, .waitReturns, .removeFinishedJobs,
   .execute (text "sleep 9&") (forks 101)]

theorem returnToEmptyRun_ids :
    ∃ s out, machine.exec initial returnToEmptyRun = .ok (s, out) ∧
      s.shell.jobsList.jobs.map JobEntry.jobId = [1, 1] ∧ ¬ IdsSound s.shell.jobsList :=
  ⟨_, _, rfl, by decide, fun h => absurd h.distinct (by decide)⟩

end OsWet.Smash
