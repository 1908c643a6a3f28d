import OsWet.Native.Smash

/-!
# What a step of the shell can do

`Smash.Step` says once what each step of the shell does to its jobs list, its children
and the place where it is; `Smash.step_cases` reads it off the code. The invariants of the
shell are proved from it.
-/

namespace OsWet

open Text

namespace Children

/-- The same children are unreaped. -/
def Same (children children' : Children) : Prop :=
  ∀ pid, children'.Unreaped pid ↔ children.Unreaped pid

theorem Same.refl (children : Children) : children.Same children := fun _ => Iff.rfl

/-- Another state of a child that is not reaped changes nothing. -/
private theorem unreaped_update_some (children : Children) {pid : Int} (state : ChildState)
    (h : children.Unreaped pid) : children.Same (Function.update children pid (some state)) := by
  intro pid'
  unfold Unreaped at h ⊢
  by_cases hpid : pid' = pid
  · subst hpid
    simp [h]
  · rw [Function.update_of_ne hpid]

/-- A signal reaps nobody. -/
theorem kill_same (children : Children) (pid sig : Int) (permitted : Bool) :
    children.Same (children.kill pid sig permitted).2 := by
  unfold kill
  cases hstate : children pid with
  | none => exact .refl children
  | some state =>
    cases permitted with
    | false => exact .refl children
    | true => exact unreaped_update_some children _ (by simp [Unreaped, hstate])

/-- An event of a child reaps nobody. -/
theorem event_same {children children' : Children} {pid : Int} {e : ChildEvent}
    (h : children.event pid e = some children') : children.Same children' := by
  -- A child that stops, goes on or ends is still unreaped.
  unfold event at h
  split at h
  all_goals cases h
  all_goals
    rename_i hstate
    exact unreaped_update_some children _ (by simp [Unreaped, hstate])

end Children

namespace Smash

/-- The answers to a command that forks `pid`, with all signals permitted. -/
def forks (pid : Int) : Env := ⟨some pid, true, 0, 0⟩

/-- The line starts a child in the background. -/
def StartsInBackground (cmd_line : Text) : Prop :=
  ∃ args, CommandExecutor.lookup cmd_line = .external args ∧
    ExternalCommand.isBackGroundCommand args = true

/-- The job that `bg` moves to the background. -/
def Resumes (l : JobsList) (cmd_line : Text) (job : JobEntry) : Prop :=
  ∃ args, CommandExecutor.lookup cmd_line = .builtin (text "bg") args ∧
    ForegroundCommand.areParamsValid args = true ∧ BackgroundCommand.getJob l args = .ok job ∧
    job.isStopped = true

/-- The jobs list after `bg` has moved a job. -/
def resumed (l : JobsList) (job : JobEntry) (now : Int) : JobsList :=
  (l.removeJobByPid job.pid).addJobWithId now job.jobId job.pid job.command false

/-- The jobs list after `bg` has taken the move back. -/
def takenBack (l : JobsList) (job : JobEntry) (now now' : Int) : JobsList :=
  ((resumed l job now).removeJobByPid job.pid).addJobWithId now' job.jobId job.pid job.command true

/-- The steps of the shell. -/
inductive Step (s : Smash) : SmashAction → Smash → Prop
  | removeFinishedJobs {jobsList : JobsList} {children : Children} {out : List Output}
    (hpoint : s.point = .prompt)
    (hrun : s.shell.jobsList.removeFinishedJobs Children.waitNoHang s.children =
      (jobsList, children, out)) :
    Step s .removeFinishedJobs ⟨{ s.shell with jobsList := jobsList }, children, .ready⟩
  | nothing {cmd_line : Text} {env : Env} {children : Children} (hpoint : s.point = .ready)
    (hsame : s.children.Same children) :
    Step s (.execute cmd_line env)
      ⟨{ s.shell with currentCommand := cmd_line }, children, .prompt⟩
  | external {cmd_line : Text} {env : Env} {pid : Int} (hpoint : s.point = .ready)
    (hforked : env.forked = some pid) (hpid : 0 < pid) (hnew : ¬ s.children.Unreaped pid) :
    Step s (.execute cmd_line env)
      ⟨{ s.shell with currentCommand := cmd_line, currentPidForegroundProcess := pid },
        s.children.fork pid, .external pid⟩
  | background {cmd_line : Text} {env : Env} {pid : Int} (hpoint : s.point = .ready)
    (hstarts : StartsInBackground cmd_line) (hforked : env.forked = some pid) (hpid : 0 < pid)
    (hnew : ¬ s.children.Unreaped pid) :
    Step s (.execute cmd_line env)
      ⟨{ s.shell with
          currentCommand := cmd_line
          jobsList := s.shell.jobsList.addJob env.now pid cmd_line false },
        s.children.fork pid, .prompt⟩
  | foreground {cmd_line : Text} {env : Env} {job : JobEntry} {children : Children}
    (hpoint : s.point = .ready) (hjob : job ∈ s.shell.jobsList.jobs)
    (hsame : s.children.Same children) :
    Step s (.execute cmd_line env)
      ⟨⟨s.shell.jobsList.removeJobByPid job.pid, job.pid, job.jobId, job.command⟩, children,
        .foreground job s.shell.currentPidForegroundProcess
          s.shell.currentJobIdForegroundProcess⟩
  | resume {cmd_line : Text} {env : Env} {job : JobEntry} {children : Children}
    (hpoint : s.point = .ready) (hjob : job ∈ s.shell.jobsList.jobs)
    (hresumes : Resumes s.shell.jobsList cmd_line job) (hsame : s.children.Same children) :
    Step s (.execute cmd_line env)
      ⟨{ s.shell with
          currentCommand := cmd_line
          jobsList := resumed s.shell.jobsList job env.now }, children, .prompt⟩
  | takeBack {cmd_line : Text} {env : Env} {job : JobEntry} {children : Children}
    (hpoint : s.point = .ready) (hjob : job ∈ s.shell.jobsList.jobs)
    (hresumes : Resumes s.shell.jobsList cmd_line job)
    (hkill : (s.children.kill job.pid Children.SIGCONT env.permitted).1 = false)
    (hsame : s.children.Same children) :
    Step s (.execute cmd_line env)
      ⟨{ s.shell with
          currentCommand := cmd_line
          jobsList := takenBack s.shell.jobsList job env.now env.now' }, children, .prompt⟩
  | ctrlC {permitted : Bool} {children : Children} (hwait : Waiting s.point)
    (hsame : s.children.Same children) :
    Step s (.ctrlC permitted) { s with children := children }
  | ctrlZ {permitted : Bool} {now : Int} {children : Children} (hwait : Waiting s.point)
    (hpid : s.shell.currentPidForegroundProcess ≠ SmallShell.RESET_PID_VALUE)
    (hkill : s.children.kill s.shell.currentPidForegroundProcess Children.SIGSTOP permitted =
      (true, children)) :
    Step s (.ctrlZ permitted now)
      ⟨{ s.shell with
          jobsList :=
            if s.shell.currentJobIdForegroundProcess ≠ SmallShell.RESET_JOBID_VALUE then
              s.shell.jobsList.addJobWithId now s.shell.currentJobIdForegroundProcess
                s.shell.currentPidForegroundProcess s.shell.currentCommand true
            else s.shell.jobsList.addJob now s.shell.currentPidForegroundProcess
              s.shell.currentCommand true }, children, s.point⟩
  | ctrlZ_fails {permitted : Bool} {now : Int} (hwait : Waiting s.point) :
    Step s (.ctrlZ permitted now) s
  | externalReturns {pid status : Int} {children : Children} (hpoint : s.point = .external pid)
    (hwait : s.children.waitUntraced pid = some (status, children)) :
    Step s .waitReturns
      ⟨{ s.shell with currentPidForegroundProcess := SmallShell.RESET_PID_VALUE }, children,
        .prompt⟩
  | foregroundReturns {job : JobEntry} {prevPid prevJobId status : Int} {children : Children}
    (hpoint : s.point = .foreground job prevPid prevJobId)
    (hwait : s.children.waitUntraced job.pid = some (status, children)) :
    Step s .waitReturns
      ⟨{ s.shell with
          currentPidForegroundProcess := prevPid
          currentJobIdForegroundProcess := prevJobId }, children, .prompt⟩
  | child {pid : Int} {e : ChildEvent} {children : Children}
    (hevent : s.children.event pid e = some children) :
    Step s (.child pid e) { s with children := children }

/-- The job that `fg` finds is in the list. -/
theorem getJob_mem {l : JobsList} {args : List Text} {job : JobEntry}
    (h : ForegroundCommand.getJob l args = .ok job) : job ∈ l.jobs := by
  unfold ForegroundCommand.getJob at h
  -- Without a parameter `fg` takes the last job of the list.
  split at h
  · split at h
    · rename_i hlast
      cases h
      exact List.mem_of_getLast? hlast
    · cases h
  · -- With one it takes the job with that id.
    simp only at h
    split at h
    · rename_i hfind
      cases h
      exact List.mem_of_find?_eq_some hfind
    · cases h

/-- So is the one that `bg` finds. -/
theorem bg_getJob_mem {l : JobsList} {args : List Text} {job : JobEntry}
    (h : BackgroundCommand.getJob l args = .ok job) : job ∈ l.jobs := by
  -- The last stopped entry that the loop has seen is an entry of the list.
  have hfold : ∀ (jobs : List JobEntry) (last : Option JobEntry),
      jobs.foldl (fun last job => if job.isStopped then some job else last) last = some job →
        job ∈ jobs ∨ last = some job := by
    intro jobs
    induction jobs with
    | nil => exact fun _ h => .inr h
    | cons x jobs ih =>
      intro last hfold
      rcases ih _ hfold with hmem | hlast
      · exact .inl (List.mem_cons_of_mem _ hmem)
      · change (if x.isStopped = true then some x else last) = some job at hlast
        split at hlast
        · cases hlast
          exact .inl List.mem_cons_self
        · exact .inr hlast
  unfold BackgroundCommand.getJob at h
  split at h
  · -- Without an argument it is the last stopped job, with one the job of that id.
    split at h
    · rename_i hlast
      cases h
      rcases hfold _ _ hlast with hmem | hnone
      · exact hmem
      · cases hnone
    · cases h
  · simp only at h
    split at h
    · rename_i hfind
      cases h
      exact List.mem_of_find?_eq_some hfind
    · cases h

/-- `fork` gives a pid that no child has. -/
theorem fork_eq_ok {children children' : Children} {pid : Int}
    (h : fork children pid = .ok children') :
    0 < pid ∧ ¬ children.Unreaped pid ∧ children' = children.fork pid := by
  unfold fork at h
  split at h
  · rename_i hnew
    cases h
    exact ⟨hnew.1, hnew.2, rfl⟩
  · cases h

/-- `fg` goes back to the prompt, or takes a job off the list and waits for it. -/
theorem executeForeground_cases (s : Smash) (args : List Text) (permitted : Bool) :
    (∃ children, s.children.Same children ∧
      (s.executeForeground args permitted).1 = { s with children := children, point := .prompt }) ∨
    ∃ job children, job ∈ s.shell.jobsList.jobs ∧ s.children.Same children ∧
      (s.executeForeground args permitted).1 =
        ⟨⟨s.shell.jobsList.removeJobByPid job.pid, job.pid, job.jobId, job.command⟩, children,
          .foreground job s.shell.currentPidForegroundProcess
            s.shell.currentJobIdForegroundProcess⟩ := by
  -- Bad parameters and a missing job end in a message.
  unfold executeForeground
  split
  · exact .inl ⟨s.children, .refl _, rfl⟩
  · split
    · exact .inl ⟨s.children, .refl _, rfl⟩
    · rename_i job hjob
      have hsame : s.children.Same
          (ForegroundCommand.continueIfJobIsStopped s.children job permitted).2 := by
        unfold ForegroundCommand.continueIfJobIsStopped ForegroundCommand.continueIfJobIsStoppedWith
        split
        · exact s.children.kill_same _ _ _
        · exact .refl _
      rcases hcontinue : ForegroundCommand.continueIfJobIsStopped s.children job permitted with
        ⟨_ | _, children⟩
      · rw [hcontinue] at hsame
        simp only
        exact .inl ⟨children, hsame, rfl⟩
      · rw [hcontinue] at hsame
        simp only
        exact .inr ⟨job, children, getJob_mem hjob, hsame, rfl⟩

/-- `bg` leaves the list alone, moves a job to the background, or takes the move back. -/
theorem bg_execute_cases (l : JobsList) (children : Children) (args : List Text)
    (permitted : Bool) (now now' : Int) :
    children.Same (BackgroundCommand.execute l children args permitted now now').2.1 ∧
      ((BackgroundCommand.execute l children args permitted now now').1 = l ∨
        ∃ job, ForegroundCommand.areParamsValid args = true ∧
          BackgroundCommand.getJob l args = .ok job ∧ job.isStopped = true ∧
          ((BackgroundCommand.execute l children args permitted now now').1 = resumed l job now ∨
            (children.kill job.pid Children.SIGCONT permitted).1 = false ∧
              (BackgroundCommand.execute l children args permitted now now').1 =
                takenBack l job now now')) := by
  -- Bad parameters, a missing job and a running job end in a message.
  unfold BackgroundCommand.execute
  split
  · exact ⟨.refl _, .inl rfl⟩
  · rename_i hvalid
    split
    · exact ⟨.refl _, .inl rfl⟩
    · rename_i job hjob
      split
      · exact ⟨.refl _, .inl rfl⟩
      · rename_i hstopped
        have hsame := children.kill_same job.pid Children.SIGCONT permitted
        rcases hkill : children.kill job.pid Children.SIGCONT permitted with ⟨_ | _, children'⟩
        · -- `kill` failed, so the job goes back to the list as stopped.
          rw [hkill] at hsame
          exact ⟨hsame, .inr ⟨job, by simpa using hvalid, hjob, by simpa using hstopped,
            .inr ⟨by rw [hkill], rfl⟩⟩⟩
        · rw [hkill] at hsame
          exact ⟨hsame, .inr ⟨job, by simpa using hvalid, hjob, by simpa using hstopped,
            .inl rfl⟩⟩

/-- `kill` reaps nobody. -/
theorem kill_execute_same (l : JobsList) (children : Children) (args : List Text)
    (permitted : Bool) :
    children.Same (KillCommand.execute l children args permitted).1 := by
  unfold KillCommand.execute
  split
  · exact .refl _
  · simp only
    split
    · exact .refl _
    · exact children.kill_same _ _ _

/-- A line that is executed. -/
theorem execute_cases {s s' : Smash} {cmd_line : Text} {env : Env} {o : List Output}
    (hpoint : s.point = .ready) (h : s.execute cmd_line env = .ok (s', o)) :
    Step s (.execute cmd_line env) s' := by
  unfold execute at h
  split at h
  · rename_i line hpath
    obtain ⟨rfl, -⟩ := SmallShell.path_eq_executor hpath
    split at h
    · -- An external command.
      rename_i args hlookup
      unfold executeExternal at h
      -- The fork may fail; otherwise a `&` decides whether the shell waits.
      cases hforked : env.forked with
      | none =>
        rw [hforked] at h
        cases h
        exact .nothing hpoint (.refl _)
      | some pid =>
        rw [hforked] at h
        obtain ⟨children, hfork, h⟩ := Outcome.bind_eq_ok.mp h
        obtain ⟨hpid, hnew, rfl⟩ := fork_eq_ok hfork
        cases hbg : ExternalCommand.isBackGroundCommand args with
        | false =>
          simp only [hbg] at h
          cases h
          exact .external hpoint hforked hpid hnew
        | true =>
          simp only [hbg] at h
          cases h
          exact .background hpoint ⟨args, hlookup, hbg⟩ hforked hpid hnew
    · rename_i commandArg args hlookup
      split at h
      · -- `fg`
        have hs : _ = s' := congrArg Prod.fst (Outcome.ok.inj h)
        subst hs
        rcases executeForeground_cases { s with shell := { s.shell with currentCommand := line } }
          args env.permitted with ⟨children, hsame, heq⟩ | ⟨job, children, hmem, hsame, heq⟩
        · rw [heq]
          exact .nothing hpoint hsame
        · rw [heq]
          exact .foreground hpoint hmem hsame
      · split at h
        · -- `bg`
          rename_i hbg
          subst hbg
          obtain ⟨hsame, hcases⟩ := bg_execute_cases s.shell.jobsList s.children args
            env.permitted env.now env.now'
          simp only at h
          generalize BackgroundCommand.execute s.shell.jobsList s.children args env.permitted
            env.now env.now' = r at h hsame hcases
          obtain ⟨jobsList, children, out⟩ := r
          cases h
          -- `bg` leaves the list, resumes the job, or takes it back.
          rcases hcases with rfl | ⟨job, hvalid, hget, hstopped, rfl | ⟨hkill, rfl⟩⟩
          · exact .nothing hpoint hsame
          · exact .resume hpoint (bg_getJob_mem hget) ⟨args, hlookup, hvalid, hget, hstopped⟩ hsame
          · exact .takeBack hpoint (bg_getJob_mem hget) ⟨args, hlookup, hvalid, hget, hstopped⟩
              hkill hsame
        · split at h
          · -- `kill`
            have hs : _ = s' := congrArg Prod.fst (Outcome.ok.inj h)
            subst hs
            exact .nothing hpoint (kill_execute_same _ _ _ _)
          · cases h
    · cases h
  · -- A blank line only changes the current command.
    cases h
    exact .nothing hpoint (.refl _)
  · -- Pipes and redirections are not actions of this machine.
    cases h
  · cases h

/-- A signal that is not sent changes nothing. -/
theorem kill_false {children children' : Children} {pid sig : Int} {permitted : Bool}
    (h : children.kill pid sig permitted = (false, children')) : children' = children := by
  unfold Children.kill at h
  split at h
  · split at h
    · cases h
    · exact (congrArg Prod.snd h).symm
  · exact (congrArg Prod.snd h).symm

/-- Nor does the handler of Ctrl-C. -/
theorem handleIntSignal_same (shell : SmallShell) (children : Children) (permitted : Bool) :
    children.Same (shell.handleIntSignal children permitted).1 := by
  have hsame := children.kill_same shell.currentPidForegroundProcess Children.SIGKILL permitted
  -- With nothing in the foreground the handler only prints.
  by_cases hpid : shell.currentPidForegroundProcess = SmallShell.RESET_PID_VALUE
  · simp only [SmallShell.handleIntSignal, SmallShell.handleIntSignalWith, hpid, ne_eq,
      not_true_eq_false, if_false]
    exact .refl _
  · rcases hkill : children.kill shell.currentPidForegroundProcess Children.SIGKILL permitted with
      ⟨_ | _, children'⟩ <;> rw [hkill] at hsame <;>
      simpa [SmallShell.handleIntSignal, SmallShell.handleIntSignalWith, hpid, hkill] using hsame

/-- The handler of `SIGTSTP` puts the foreground job on the list when it could stop it. -/
theorem handleStpSignal_cases (shell : SmallShell) (children : Children) (permitted : Bool)
    (now : Int) :
    (shell.currentPidForegroundProcess ≠ SmallShell.RESET_PID_VALUE ∧
      ∃ children', children.kill shell.currentPidForegroundProcess Children.SIGSTOP permitted =
        (true, children') ∧
      (shell.handleStpSignal children permitted now).1 = { shell with
        jobsList :=
          if shell.currentJobIdForegroundProcess ≠ SmallShell.RESET_JOBID_VALUE then
            shell.jobsList.addJobWithId now shell.currentJobIdForegroundProcess
              shell.currentPidForegroundProcess shell.currentCommand true
          else shell.jobsList.addJob now shell.currentPidForegroundProcess
            shell.currentCommand true } ∧
      (shell.handleStpSignal children permitted now).2.1 = children') ∨
    (shell.handleStpSignal children permitted now).1 = shell ∧
      (shell.handleStpSignal children permitted now).2.1 = children := by
  -- Nothing is listed without a foreground process, or when `kill` fails.
  by_cases hpid : shell.currentPidForegroundProcess = SmallShell.RESET_PID_VALUE
  · refine .inr ?_
    simp only [SmallShell.handleStpSignal, SmallShell.handleStpSignalWith, hpid, ne_eq,
      not_true_eq_false, if_false, and_self]
  · rcases hkill : children.kill shell.currentPidForegroundProcess Children.SIGSTOP permitted with
      ⟨_ | _, children'⟩
    · refine .inr ?_
      simp [SmallShell.handleStpSignal, SmallShell.handleStpSignalWith, hpid, hkill,
        kill_false hkill]
    · refine .inl ⟨hpid, children', rfl, ?_⟩
      simp [SmallShell.handleStpSignal, SmallShell.handleStpSignalWith, hpid, hkill]

/-- Every step of the machine is one of the steps. -/
theorem step_cases {s s' : Smash} {a : SmashAction} {o : List Output}
    (h : machine.step s a = .ok (s', o)) : Step s a s' := by
  -- Each action of the machine checks the point first, so each case starts from it.
  cases a with
  | removeFinishedJobs =>
    simp only [machine] at h
    split at h
    · rename_i hpoint
      cases h
      exact .removeFinishedJobs hpoint rfl
    · cases h
  | execute cmd_line env =>
    simp only [machine] at h
    split at h
    · exact execute_cases ‹_› h
    · cases h
  | ctrlC permitted =>
    simp only [machine] at h
    split at h
    · rename_i hwait
      have hs : _ = s' := congrArg Prod.fst (Outcome.ok.inj h)
      subst hs
      exact .ctrlC hwait (handleIntSignal_same _ _ _)
    · cases h
  | ctrlZ permitted now =>
    simp only [machine] at h
    -- Ctrl-Z lists the foreground job only when the signal was sent.
    split at h
    · rename_i hwait
      have hs : _ = s' := congrArg Prod.fst (Outcome.ok.inj h)
      subst hs
      rcases handleStpSignal_cases s.shell s.children permitted now with
        ⟨hpid, children, hkill, hshell, hchildren⟩ | ⟨hshell, hchildren⟩
      · simp only [hshell, hchildren]
        exact .ctrlZ hwait hpid hkill
      · simp only [hshell, hchildren]
        exact .ctrlZ_fails hwait
    · cases h
  | waitReturns =>
    simp only [machine] at h
    unfold waitReturns at h
    -- Either of the two waits returns when the child has changed its state.
    split at h
    · rename_i hpoint
      split at h
      · rename_i hwait
        cases h
        exact .externalReturns hpoint hwait
      · cases h
    · rename_i hpoint
      split at h
      · rename_i hwait
        cases h
        exact .foregroundReturns hpoint hwait
      · cases h
    · cases h
    · cases h
  | child pid e =>
    simp only [machine] at h
    split at h
    · rename_i hevent
      cases h
      exact .child hevent
    · cases h

end Smash

end OsWet
