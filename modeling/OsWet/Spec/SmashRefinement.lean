import OsWet.Spec.SignalTargets

/-!
# The shell and its statements

The machine of the shell stops only where the shell blocks, and takes whole commands as its
steps. Every run of it is a run of the statements: what it says about commands holds of the
code that `SmashStatements` runs one statement after the other.

## Main result

- `exists_exec_statements`: for every run of the shell there is a run of the statements that
  ends with the same jobs list, pids and children, at the same place
-/

namespace OsWet.SmashStatements

open Text

/-- The statement where the shell blocks. -/
def statementOf : ShellPoint → StatementPoint
  | .prompt | .ready => .prompt
  | .external pid => .external pid .waitpid
  | .foreground job prevPid prevJobId => .foreground ⟨job, prevPid, prevJobId⟩ .waitForJobToFinish

/-- The statements are where the shell is. -/
structure Matches (s : Smash) (t : SmashStatements) : Prop where
  shell : t.shell = s.shell
  children : t.children = s.children
  point : t.point = statementOf s.point

variable {s s' : Smash} {t t' : SmashStatements}

/-- The two shells match at the start. -/
theorem matches_initial : Matches Smash.initial initial := ⟨rfl, rfl, rfl⟩

/-- A run keeps the invariant. -/
theorem Inv.exec (h : Inv t) {acts : List StatementAction} {out : List ShellEvent}
    (hrun : machine.exec t acts = .ok (t', out)) : Inv t' :=
  Machine.exec_invariant_state h (fun _ _ _ _ h hstep => h.step hstep) hrun

/-! ## Handlers -/

section Handlers

variable {κ κ' : Type} (f : κ' → κ) (kill : κ → Int → Int → Bool × κ)
  (kill' : κ' → Int → Int → Bool × κ') (shell : SmallShell) (processes : κ')

/-- A handler does not look at the processes, so it does the same on both sides of a map that
    `kill` respects. -/
theorem handleIntSignalWith_map
    (h : ∀ sig, kill (f processes) shell.currentPidForegroundProcess sig =
      ((kill' processes shell.currentPidForegroundProcess sig).1,
        f (kill' processes shell.currentPidForegroundProcess sig).2)) :
    shell.handleIntSignalWith (f processes) kill =
      (f (shell.handleIntSignalWith processes kill').1,
        (shell.handleIntSignalWith processes kill').2) := by
  unfold SmallShell.handleIntSignalWith
  by_cases hpid : shell.currentPidForegroundProcess = SmallShell.RESET_PID_VALUE
  · simp [hpid]
  · simp only [h]
    rcases hkill : kill' processes shell.currentPidForegroundProcess Children.SIGKILL with
      ⟨_ | _, processes'⟩
    · simp [hpid]
    · simp [hpid]

/-- The handler of Ctrl-Z does the same to both. -/
theorem handleStpSignalWith_map (now : Int)
    (h : ∀ sig, kill (f processes) shell.currentPidForegroundProcess sig =
      ((kill' processes shell.currentPidForegroundProcess sig).1,
        f (kill' processes shell.currentPidForegroundProcess sig).2)) :
    shell.handleStpSignalWith (f processes) kill now =
      ((shell.handleStpSignalWith processes kill' now).1,
        f (shell.handleStpSignalWith processes kill' now).2.1,
        (shell.handleStpSignalWith processes kill' now).2.2) := by
  unfold SmallShell.handleStpSignalWith
  by_cases hpid : shell.currentPidForegroundProcess = SmallShell.RESET_PID_VALUE
  · simp [hpid]
  · simp only [h]
    rcases hkill : kill' processes shell.currentPidForegroundProcess Children.SIGSTOP with
      ⟨_ | _, processes'⟩
    · simp [hpid]
    · simp [hpid]

end Handlers

/-- The `kill` of the statements does what that of the shell does, when a signal to a process of
    somebody else fails. -/
theorem kill_eq (children : Children) (pid sig : Int) (permitted : Bool) :
    kill (permitted && children.Unreaped pid) children pid sig =
      children.kill pid sig permitted := by
  unfold kill
  by_cases hun : children.Unreaped pid
  · simp [hun]
  · have hnone : children pid = none := by simpa [Children.Unreaped] using hun
    simp [hun, Children.kill, hnone]

/-- The answer to the `kill` of a handler. -/
def succeeds (s : Smash) (permitted : Bool) : Bool :=
  permitted && s.children.Unreaped s.shell.currentPidForegroundProcess

/-- Ctrl-C keeps the match. -/
theorem Matches.ctrlC (h : Matches s t) {permitted : Bool} {out : List Output}
    (hstep : Smash.machine.step s (.ctrlC permitted) = .ok (s', out)) :
    ∃ acts t' out', machine.exec t acts = .ok (t', out') ∧ Matches s' t' := by
  simp only [Smash.machine] at hstep
  split at hstep
  · cases hstep
    have hmap := handleIntSignalWith_map Prod.fst
      (fun children pid sig => Children.kill children pid sig permitted)
      (sendSignal (succeeds s permitted)) s.shell (s.children, [])
      fun sig => (kill_eq s.children _ sig permitted).symm
    refine ⟨[.ctrlC (succeeds s permitted)], ?_⟩
    simp only [Machine.exec, machine, h.shell, h.children]
    exact ⟨_, _, rfl, ⟨rfl, (congrArg Prod.fst hmap).symm, h.point⟩⟩
  · cases hstep

/-- Ctrl-Z keeps the match. -/
theorem Matches.ctrlZ (h : Matches s t) {permitted : Bool} {now : Int} {out : List Output}
    (hstep : Smash.machine.step s (.ctrlZ permitted now) = .ok (s', out)) :
    ∃ acts t' out', machine.exec t acts = .ok (t', out') ∧ Matches s' t' := by
  simp only [Smash.machine] at hstep
  split at hstep
  · cases hstep
    have hmap := handleStpSignalWith_map Prod.fst
      (fun children pid sig => Children.kill children pid sig permitted)
      (sendSignal (succeeds s permitted)) s.shell (s.children, []) now
      fun sig => (kill_eq s.children _ sig permitted).symm
    refine ⟨[.ctrlZ (succeeds s permitted) now], ?_⟩
    simp only [Machine.exec, machine, h.shell, h.children]
    refine ⟨_, _, rfl, ⟨?_, ?_, h.point⟩⟩
    · exact (congrArg Prod.fst hmap).symm
    · exact (congrArg (fun r => r.2.1) hmap).symm
  · cases hstep

/-! ## Statements -/

/-- What the shell does at the prompt: any positive pids can be listed. -/
theorem Matches.other (h : Matches s t) (hpoint : statementOf s.point = .prompt) {l : JobsList}
    (hpos : ∀ pid ∈ l.pids, 0 < pid) (cmd_line : Text) (children : Children) :
    ∃ acts t' out, machine.exec t acts = .ok (t', out) ∧ ∀ point, statementOf point = .prompt →
      Matches ⟨{ s.shell with jobsList := l, currentCommand := cmd_line }, children, point⟩ t' := by
  have hguard : t.point = .prompt ∧ ∀ job ∈ l.jobs, 0 < job.pid :=
    ⟨h.point.trans hpoint, fun job hjob => hpos _ (List.mem_map_of_mem hjob)⟩
  have hstep : machine.step t (.other l cmd_line children) = .ok ({ t with
      shell := { t.shell with jobsList := l, currentCommand := cmd_line }
      children := children }, []) := by
    simp only [machine, if_pos hguard]
  exact ⟨_, _, _, Machine.exec_singleton hstep, fun point hpoint' =>
    ⟨by rw [h.shell], rfl, (h.point.trans hpoint).trans hpoint'.symm⟩⟩

/-- A foreground child is forked, and its pid is set. -/
theorem Matches.external (h : Matches s t) (hpoint : statementOf s.point = .prompt)
    {pid : Int} (hpid : 0 < pid) (hnew : ¬ s.children.Unreaped pid) :
    ∃ t' out, machine.exec t [.external (some pid), .next true] = .ok (t', out) ∧
      Matches ⟨{ s.shell with currentPidForegroundProcess := pid }, s.children.fork pid,
        .external pid⟩ t' := by
  have hpoint := h.point.trans hpoint
  have hfork : Smash.fork t.children pid = .ok (s.children.fork pid) := by
    rw [h.children, Smash.fork, if_pos ⟨hpid, hnew⟩]
  simp only [Machine.exec, machine, hpoint, hfork, Outcome.ok_bind, Outcome.pure_eq_ok,
    nextExternal, h.shell]
  exact ⟨_, _, rfl, ⟨rfl, rfl, rfl⟩⟩

/-- `fg` of a job that goes on, up to the `waitpid`. -/
theorem Matches.foreground (h : Matches s t) (hpoint : statementOf s.point = .prompt)
    {args : List Text} {permitted : Bool} {job : JobEntry} {children : Children}
    (hvalid : ForegroundCommand.areParamsValid args = true)
    (hjob : ForegroundCommand.getJob s.shell.jobsList args = .ok job)
    (hcontinue : ForegroundCommand.continueIfJobIsStopped s.children job permitted =
      (true, children)) :
    ∃ acts t' out, machine.exec t acts = .ok (t', out) ∧
      Matches ⟨⟨s.shell.jobsList.removeJobByPid job.pid, job.pid, job.jobId, job.command⟩,
        children, .foreground job s.shell.currentPidForegroundProcess
          s.shell.currentJobIdForegroundProcess⟩ t' := by
  have hpoint := h.point.trans hpoint
  -- The signal has the same answer in both models.
  have hcontinue' : ForegroundCommand.continueIfJobIsStoppedWith s.children
      (kill (permitted && s.children.Unreaped job.pid)) job = (true, children) := by
    rw [← hcontinue]
    unfold ForegroundCommand.continueIfJobIsStopped ForegroundCommand.continueIfJobIsStoppedWith
    split
    · exact kill_eq _ _ _ _
    · rfl
  -- One action for the command, and eight for the statements of `fg` before its wait.
  refine ⟨.fg args :: List.replicate 8 (.next (permitted && s.children.Unreaped job.pid)), ?_⟩
  simp only [List.replicate, Machine.exec, machine, hpoint, startForeground, hvalid, h.shell, hjob,
    h.children, Bool.not_true, Bool.false_eq_true, if_false, nextForeground, hcontinue']
  exact ⟨_, _, rfl, ⟨rfl, rfl, rfl⟩⟩

/-- The `waitpid` of an external command, and what comes after it. -/
theorem Matches.externalReturns (h : Matches s t) {pid status : Int} {children : Children}
    (hpoint : s.point = .external pid)
    (hwait : s.children.waitUntraced pid = some (status, children)) :
    ∃ acts t' out, machine.exec t acts = .ok (t', out) ∧
      Matches ⟨{ s.shell with currentPidForegroundProcess := SmallShell.RESET_PID_VALUE },
        children, .prompt⟩ t' := by
  have hpoint : t.point = .external pid .waitpid := by rw [h.point, hpoint]; rfl
  by_cases hstatus : status = -1
  · -- There is a message before the pid is reset.
    refine ⟨List.replicate 3 (.next true), ?_⟩
    simp only [List.replicate, Machine.exec, machine, hpoint, nextExternal, h.children, hwait,
      if_pos hstatus, h.shell]
    exact ⟨_, _, rfl, ⟨rfl, rfl, rfl⟩⟩
  · refine ⟨List.replicate 2 (.next true), ?_⟩
    simp only [List.replicate, Machine.exec, machine, hpoint, nextExternal, h.children, hwait,
      if_neg hstatus, h.shell]
    exact ⟨_, _, rfl, ⟨rfl, rfl, rfl⟩⟩

/-- The `waitpid` of `fg`, and what comes after it. -/
theorem Matches.foregroundReturns (h : Matches s t) {job : JobEntry} {prevPid prevJobId : Int}
    {status : Int} {children : Children} (hpoint : s.point = .foreground job prevPid prevJobId)
    (hwait : s.children.waitUntraced job.pid = some (status, children)) :
    ∃ acts t' out, machine.exec t acts = .ok (t', out) ∧
      Matches ⟨{ s.shell with
          currentPidForegroundProcess := prevPid
          currentJobIdForegroundProcess := prevJobId }, children, .prompt⟩ t' := by
  have hpoint : t.point = .foreground ⟨job, prevPid, prevJobId⟩ .waitForJobToFinish := by
    rw [h.point, hpoint]
    rfl
  by_cases hstatus : status = -1
  · refine ⟨List.replicate 4 (.next true), ?_⟩
    simp only [List.replicate, Machine.exec, machine, hpoint, nextForeground, h.children, hwait,
      if_pos hstatus, h.shell]
    exact ⟨_, _, rfl, ⟨rfl, rfl, rfl⟩⟩
  · refine ⟨List.replicate 3 (.next true), ?_⟩
    simp only [List.replicate, Machine.exec, machine, hpoint, nextForeground, h.children, hwait,
      if_neg hstatus, h.shell]
    exact ⟨_, _, rfl, ⟨rfl, rfl, rfl⟩⟩

/-! ## Steps of the shell -/

/-- A job that `bg` moves was listed before. -/
theorem mem_pids_resumed {l : JobsList} {job : JobEntry} (hjob : job ∈ l.jobs) {now pid : Int}
    (h : pid ∈ (Smash.resumed l job now).pids) : pid ∈ l.pids := by
  rcases JobsList.mem_pids_addJobWithId h with rfl | hold
  · exact List.mem_map_of_mem hjob
  · exact JobsList.mem_pids_removeJobByPid hold

/-- A job that is taken back brings no pid. -/
theorem mem_pids_takenBack {l : JobsList} {job : JobEntry} (hjob : job ∈ l.jobs)
    {now now' pid : Int} (h : pid ∈ (Smash.takenBack l job now now').pids) : pid ∈ l.pids := by
  rcases JobsList.mem_pids_addJobWithId h with rfl | hold
  · exact List.mem_map_of_mem hjob
  · exact mem_pids_resumed hjob (JobsList.mem_pids_removeJobByPid hold)

/-- `fg` leaves the shell in a `waitpid` only for a job that goes on. -/
theorem executeForeground_foreground {args : List Text} {permitted : Bool} {job : JobEntry}
    {prevPid prevJobId : Int}
    (hpoint : (s.executeForeground args permitted).1.point = .foreground job prevPid prevJobId) :
    ForegroundCommand.areParamsValid args = true ∧
      ForegroundCommand.getJob s.shell.jobsList args = .ok job ∧
      ∃ children, ForegroundCommand.continueIfJobIsStopped s.children job permitted =
        (true, children) ∧
      (s.executeForeground args permitted).1 =
        ⟨⟨s.shell.jobsList.removeJobByPid job.pid, job.pid, job.jobId, job.command⟩, children,
          .foreground job s.shell.currentPidForegroundProcess
            s.shell.currentJobIdForegroundProcess⟩ := by
  unfold Smash.executeForeground at hpoint ⊢
  -- The arguments are valid and name a job, or the command prints an error.
  split at hpoint
  · cases hpoint
  · rename_i hvalid
    split at hpoint
    · cases hpoint
    · rename_i job' hjob
      -- Only a continued job leads to the wait.
      rcases hcontinue : ForegroundCommand.continueIfJobIsStopped s.children job' permitted with
        ⟨_ | _, children⟩
      · rw [hcontinue] at hpoint
        cases hpoint
      · rw [hcontinue] at hpoint
        cases hpoint
        refine ⟨by simpa using hvalid, hjob, children, hcontinue, ?_⟩
        rw [if_neg hvalid]

/-- A command that leaves the shell in a `waitpid` for a job is `fg`. -/
theorem execute_foreground {cmd_line : Text} {env : Env} {out : List Output} {job : JobEntry}
    {prevPid prevJobId : Int} (h : s.execute cmd_line env = .ok (s', out))
    (hpoint : s'.point = .foreground job prevPid prevJobId) : ∃ args,
      s' = (({ s with shell := { s.shell with currentCommand := cmd_line } } :
        Smash).executeForeground args env.permitted).1 := by
  -- Only `fg` leads to a foreground job; the other branches end at another point.
  unfold Smash.execute at h
  split at h
  · split at h
    · -- An external command.
      unfold Smash.executeExternal at h
      split at h
      · cases h
        cases hpoint
      · obtain ⟨children, -, h⟩ := Outcome.bind_eq_ok.mp h
        split at h
        · cases h
          cases hpoint
        · cases h
          cases hpoint
    · -- A builtin: only `fg` leaves the prompt, to wait for a job.
      split at h
      · exact ⟨_, (congrArg Prod.fst (Outcome.ok.inj h)).symm⟩
      · split at h
        · cases h
          cases hpoint
        · split at h
          · cases h
            cases hpoint
          · cases h
    · cases h
  · cases h
    cases hpoint
  · cases h
  · cases h

/-- Every step of the shell is some statements. -/
theorem simulatesByRuns : Machine.SimulatesByRuns Smash.machine machine
    fun s t => Matches s t ∧ Inv t := by
  intro s t a s' out h' hstep
  obtain ⟨h, hinv⟩ := h'
  -- The invariant of the fine model is kept by every run, so only the match is left.
  suffices hmatch : ∃ acts t' out', machine.exec t acts = .ok (t', out') ∧ Matches s' t' by
    obtain ⟨acts, t', out', hrun, h'⟩ := hmatch
    exact ⟨acts, t', out', hrun, h', hinv.exec hrun⟩
  have hlisted : ∀ pid ∈ s.shell.jobsList.pids, 0 < pid := h.shell ▸ hinv.listed
  have hprompt : s.point = .prompt ∨ s.point = .ready → statementOf s.point = .prompt := by
    rintro (hpoint | hpoint)
    · rw [hpoint]; rfl
    · rw [hpoint]; rfl
  -- One case for each step of the coarse model.
  cases Smash.step_cases hstep with
  -- The jobs are removed at the prompt.
  | @removeFinishedJobs jobsList children out hpoint hrun =>
    have hpos : ∀ pid ∈ jobsList.pids, 0 < pid := fun pid hmem =>
      hlisted pid (JobsList.mem_pids_removeFinishedJobs (by rw [hrun]; exact hmem))
    obtain ⟨acts, t', out', hrun', h'⟩ :=
      h.other (hprompt (.inl hpoint)) hpos s.shell.currentCommand children
    exact ⟨acts, t', out', hrun', h' _ rfl⟩
  | @nothing cmd_line env children hpoint hsame =>
    obtain ⟨acts, t', out', hrun, h'⟩ := h.other (hprompt (.inr hpoint)) hlisted cmd_line children
    exact ⟨acts, t', out', hrun, h' _ rfl⟩
  -- The fork and the assignments before the wait.
  | @external cmd_line env pid hpoint hforked hpid hnew =>
    obtain ⟨acts, t₁, out₁, hrun₁, h₁⟩ :=
      h.other (hprompt (.inr hpoint)) hlisted cmd_line s.children
    obtain ⟨t', out', hrun, h'⟩ := (h₁ .ready rfl).external rfl hpid hnew
    exact ⟨_, t', _, Machine.exec_append hrun₁ hrun, h'⟩
  -- The new job has a positive pid.
  | @background cmd_line env pid hpoint hstarts hforked hpid hnew =>
    have hpos : ∀ q ∈ (s.shell.jobsList.addJob env.now pid cmd_line false).pids, 0 < q := by
      intro q hmem
      rcases List.mem_cons.mp ((JobsList.pids_addJob _ _ _ _ _).mem_iff.mp hmem) with rfl | hold
      · exact hpid
      · exact hlisted q hold
    obtain ⟨acts, t', out', hrun, h'⟩ :=
      h.other (hprompt (.inr hpoint)) hpos cmd_line (s.children.fork pid)
    exact ⟨acts, t', out', hrun, h' _ rfl⟩
  | foreground hpoint hjob hsame =>
    -- The step does not say how `fg` found the job, so the code is looked at again.
    simp only [Smash.machine, hpoint] at hstep
    obtain ⟨args, hfg⟩ := execute_foreground hstep rfl
    obtain ⟨hvalid, hget, children, hcontinue, hs'⟩ :=
      executeForeground_foreground (by rw [← hfg])
    obtain ⟨acts, t₁, out₁, hrun₁, h₁⟩ :=
      h.other (hprompt (.inr hpoint)) hlisted _ s.children
    obtain ⟨acts', t', out', hrun, h'⟩ := (h₁ .ready rfl).foreground rfl hvalid hget hcontinue
    rw [hfg, hs']
    exact ⟨_, t', _, Machine.exec_append hrun₁ hrun, h'⟩
  | @resume cmd_line env job children hpoint hjob hresumes hsame =>
    have hpos : ∀ pid ∈ (Smash.resumed s.shell.jobsList job env.now).pids, 0 < pid :=
      fun pid hmem => hlisted pid (mem_pids_resumed hjob hmem)
    obtain ⟨acts, t', out', hrun, h'⟩ := h.other (hprompt (.inr hpoint)) hpos cmd_line children
    exact ⟨acts, t', out', hrun, h' _ rfl⟩
  | @takeBack cmd_line env job children hpoint hjob hresumes hkill hsame =>
    have hpos : ∀ pid ∈ (Smash.takenBack s.shell.jobsList job env.now env.now').pids, 0 < pid :=
      fun pid hmem => hlisted pid (mem_pids_takenBack hjob hmem)
    obtain ⟨acts, t', out', hrun, h'⟩ := h.other (hprompt (.inr hpoint)) hpos cmd_line children
    exact ⟨acts, t', out', hrun, h' _ rfl⟩
  -- The handlers are one step in both models.
  | ctrlC => exact h.ctrlC hstep
  | ctrlZ => exact h.ctrlZ hstep
  | ctrlZ_fails => exact h.ctrlZ hstep
  | externalReturns hpoint hwait => exact h.externalReturns hpoint hwait
  | foregroundReturns hpoint hwait => exact h.foregroundReturns hpoint hwait
  -- The child moves in both.
  | @child pid e children hevent =>
    refine ⟨[.child pid e], { t with children := children }, [], Machine.exec_singleton ?_,
      ⟨h.shell, rfl, h.point⟩⟩
    simp only [machine, h.children, hevent]

/-- Every run of the shell is a run of its statements. -/
theorem exists_exec_statements {actions : List SmashAction} {out : List Output}
    (h : Smash.machine.exec .initial actions = .ok (s, out)) : ∃ acts t out',
      machine.exec initial acts = .ok (t, out') ∧ Matches s t := by
  obtain ⟨acts, t, out', hrun, hmatch, -⟩ :=
    simulatesByRuns.exec ⟨matches_initial, inv_initial⟩ h
  exact ⟨acts, t, out', hrun, hmatch⟩

end OsWet.SmashStatements
