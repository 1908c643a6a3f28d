import OsWet.Native.SmashStatements
import OsWet.Spec.SmashJobs

/-!
# Whom the handlers send signals to

The handlers trust `currentPidForegroundProcess`. It names an unreaped child wherever it is
set, except between a `waitpid` that has reaped the process and the assignment that follows,
and in an `fg` of a job whose process is gone. A signal that is handled there goes to a
process that is not, or no longer, a child of the shell.

- `Inv`: the pid field and the process of the command, at every statement
- `signals_to_children_iff`: the runs whose signals all go to unreaped children
-/

namespace OsWet.SmashStatements

open Text

/-- The pid of the process that a command waits for, or is going to. -/
def commandPid : StatementPoint → Option Int
  | .prompt => none
  | .external pid _ => some pid
  | .foreground locals _ => some locals.job.pid

/-- The statements between the one that puts the pid of the command into
    `currentPidForegroundProcess` and the one that takes it out. -/
def pidIsSet : StatementPoint → Bool
  | .prompt => false
  | .external _ next => next ≠ .setPid
  | .foreground _ next =>
    next ∈ [.setCommand, .setJobId, .waitForJobToFinish, .perror, .restorePid]

/-- The pid of the command is set, but its process is not waited for any more: a `waitpid` has
    returned without reporting a stop, or `fg` was given a job that was not a child. -/
def InWindow (s : SmashStatements) : Prop := pidIsSet s.point = true ∧ s.awaited = false

/-- No handler runs in the window. -/
def OutsideWindow (s : SmashStatements) : StatementAction → Prop
  | .ctrlC _ | .ctrlZ _ _ => ¬ s.InWindow
  | _ => True

/-- Every signal that the step sends goes to an unreaped child. -/
def SendsToChildren (s : SmashStatements) (a : StatementAction) : Prop :=
  ∀ s' out, machine.step s a = .ok (s', out) →
    ∀ pid sig toChild, .signal pid sig toChild ∈ out → toChild = true

/-- What holds at every statement. -/
structure Inv (s : SmashStatements) : Prop where
  listed : ∀ pid ∈ s.shell.jobsList.pids, 0 < pid
  command : ∀ pid, commandPid s.point = some pid →
    0 < pid ∧ (s.awaited = true ↔ s.children.Unreaped pid)
  current : s.shell.currentPidForegroundProcess =
    if pidIsSet s.point then (commandPid s.point).getD SmallShell.RESET_PID_VALUE
    else SmallShell.RESET_PID_VALUE
  -- Commands do not nest, so `fg` restores what the prompt had.
  prevPid : ∀ locals next, s.point = .foreground locals next →
    locals.prevPid = SmallShell.RESET_PID_VALUE

variable {s s' : SmashStatements}

/-- The invariant holds in a new shell. -/
theorem inv_initial : Inv initial where
  listed _ h := absurd h List.not_mem_nil
  command _ h := nomatch h
  current := rfl
  prevPid _ _ h := nomatch h

/-! ## Handlers -/

/-- A signal leaves the children that are not reaped as they are. -/
theorem kill_same (succeeds : Bool) (children : Children) (pid sig : Int) :
    children.Same (kill succeeds children pid sig).2 := by
  unfold kill
  split
  · exact children.kill_same pid sig succeeds
  · exact .refl children

/-- So does a signal that is recorded. -/
theorem sendSignal_same (succeeds : Bool) (children : Children) (pid sig : Int) :
    children.Same (sendSignal succeeds (children, []) pid sig).2.1 ∧
      (sendSignal succeeds (children, []) pid sig).2.2 =
        [.signal pid sig (children.Unreaped pid)] :=
  ⟨kill_same succeeds children pid sig, rfl⟩

/-- The events of a handler that sends one signal to the current pid, if there is one. -/
def signals (shell : SmallShell) (children : Children) (sig : Int) : List ShellEvent :=
  let pid := shell.currentPidForegroundProcess
  if pid = SmallShell.RESET_PID_VALUE then [] else [.signal pid sig (children.Unreaped pid)]

/-- The handler of `SIGINT` sends at most one signal, and reaps nobody. -/
theorem handleIntSignalWith_spec (shell : SmallShell) (children : Children) (succeeds : Bool) :
    children.Same (shell.handleIntSignalWith (children, []) (sendSignal succeeds)).1.1 ∧
      (shell.handleIntSignalWith (children, []) (sendSignal succeeds)).1.2 =
        signals shell children Children.SIGKILL := by
  unfold SmallShell.handleIntSignalWith signals
  by_cases hpid : shell.currentPidForegroundProcess = SmallShell.RESET_PID_VALUE
  · simp only [hpid, ne_eq, not_true_eq_false, if_false, if_true, and_true]
    exact .refl children
  · have hspec := sendSignal_same succeeds children shell.currentPidForegroundProcess
      Children.SIGKILL
    simp only [hpid, ne_eq, not_false_eq_true, if_true, if_false]
    split
    · rename_i hsend
      rwa [hsend] at hspec
    · rename_i hsend
      rwa [hsend] at hspec

/-- The handler of `SIGTSTP` does so too, and lists no pid but the one it has sent a signal. -/
theorem handleStpSignalWith_spec (shell : SmallShell) (children : Children) (succeeds : Bool)
    (now : Int) {shell' : SmallShell} {processes : Children × List ShellEvent}
    {out : List Output}
    (h : shell.handleStpSignalWith (children, []) (sendSignal succeeds) now =
      (shell', processes, out)) :
    children.Same processes.1 ∧ processes.2 = signals shell children Children.SIGSTOP ∧
      shell'.currentPidForegroundProcess = shell.currentPidForegroundProcess ∧
      ∀ pid ∈ shell'.jobsList.pids, pid ∈ shell.jobsList.pids ∨
        pid = shell.currentPidForegroundProcess ∧ pid ≠ SmallShell.RESET_PID_VALUE := by
  unfold SmallShell.handleStpSignalWith at h
  unfold signals
  -- Without a foreground process the handler sends nothing.
  by_cases hpid : shell.currentPidForegroundProcess = SmallShell.RESET_PID_VALUE
  · simp only [hpid, ne_eq, not_true_eq_false, if_false] at h
    cases h
    exact ⟨.refl children, by rw [if_pos hpid], rfl, fun pid hmem => .inl hmem⟩
  · have hspec := sendSignal_same succeeds children shell.currentPidForegroundProcess
      Children.SIGSTOP
    simp only [hpid, ne_eq, not_false_eq_true, if_true] at h
    simp only [hpid, if_false]
    split at h
    · -- The stop was sent: the process joins the list, under its old id or a new one.
      rename_i hsend
      rw [hsend] at hspec
      cases h
      refine ⟨hspec.1, hspec.2, rfl, fun pid hmem => ?_⟩
      have hlisted : pid = shell.currentPidForegroundProcess ∨ pid ∈ shell.jobsList.pids := by
        dsimp only at hmem
        split at hmem
        · exact JobsList.mem_pids_addJobWithId hmem
        · exact List.mem_cons.mp ((JobsList.pids_addJob _ _ _ _ _).mem_iff.mp hmem)
      rcases hlisted with rfl | hold
      · exact .inr ⟨rfl, hpid⟩
      · exact .inl hold
    · -- The call failed: nothing joins the list.
      rename_i hsend
      rw [hsend] at hspec
      cases h
      exact ⟨hspec.1, hspec.2, rfl, fun pid hmem => .inl hmem⟩

/-! ## Steps -/

/-- A statement that does not touch the process of the command. -/
theorem Inv.moved (h : Inv s)
    (hlisted : ∀ pid ∈ s'.shell.jobsList.pids, pid ∈ s.shell.jobsList.pids)
    (hcommand : commandPid s'.point = commandPid s.point) (hawaited : s'.awaited = s.awaited)
    (hsame : s.children.Same s'.children)
    (hcurrent : s'.shell.currentPidForegroundProcess =
      if pidIsSet s'.point then (commandPid s'.point).getD SmallShell.RESET_PID_VALUE
      else SmallShell.RESET_PID_VALUE)
    (hprevPid : ∀ locals next, s'.point = .foreground locals next →
      locals.prevPid = SmallShell.RESET_PID_VALUE) : Inv s' where
  listed pid hmem := h.listed pid (hlisted pid hmem)
  command pid hpid := by
    obtain ⟨hpos, hiff⟩ := h.command pid (hcommand ▸ hpid)
    rw [hawaited, hsame pid]
    exact ⟨hpos, hiff⟩
  current := hcurrent
  prevPid := hprevPid

/-- A command that is over. -/
theorem Inv.ended (h : Inv s)
    (hlisted : ∀ pid ∈ s'.shell.jobsList.pids, pid ∈ s.shell.jobsList.pids)
    (hpoint : s'.point = .prompt)
    (hcurrent : s'.shell.currentPidForegroundProcess = SmallShell.RESET_PID_VALUE) : Inv s' where
  listed pid hmem := h.listed pid (hlisted pid hmem)
  command pid hpid := by
    rw [hpoint] at hpid
    cases hpid
  current := by
    rw [hpoint]
    exact hcurrent
  prevPid locals next heq := by
    rw [hpoint] at heq
    cases heq

/-- A `waitpid` that returns has reaped the process, unless it reports a stop. -/
theorem reportsStop_iff {children children' : Children} {pid status : Int}
    (h : children.waitUntraced pid = some (status, children')) :
    reportsStop children pid = true ↔ children'.Unreaped pid := by
  unfold Children.waitUntraced at h
  unfold reportsStop Children.Unreaped
  split at h
  · rename_i hzombie
    cases h
    simp [hzombie]
  · rename_i hstopped
    cases h
    simp [hstopped]
  · cases h
  · rename_i hnone
    cases h
    simp [hnone]

/-- The wait of a command. -/
theorem Inv.waited (h : Inv s) {pid status : Int} {children : Children} {point : StatementPoint}
    (hpid : commandPid s.point = some pid) (hset : pidIsSet s.point = true)
    (hwait : s.children.waitUntraced pid = some (status, children))
    (hpid' : commandPid point = some pid) (hset' : pidIsSet point = true)
    (hprevPid : ∀ locals next, point = .foreground locals next →
      locals.prevPid = SmallShell.RESET_PID_VALUE) :
    Inv { s with children := children, awaited := reportsStop s.children pid, point := point } where
  listed := h.listed
  command pid' heq := by
    obtain rfl : pid = pid' := Option.some.inj (hpid'.symm.trans heq)
    exact ⟨(h.command pid hpid).1, reportsStop_iff hwait⟩
  current := by
    have hcurrent := h.current
    rw [hset, hpid] at hcurrent
    simp only [hset', hpid', hcurrent]
  prevPid := hprevPid

/-- The statements of a foreground command keep the invariant. -/
theorem Inv.nextExternal (h : Inv s) {pid : Int} {next : ExternalStatement}
    {out : List ShellEvent} (hpoint : s.point = .external pid next)
    (hstep : s.nextExternal pid next = .ok (s', out)) : Inv s' := by
  have hcommand : commandPid s.point = some pid := by rw [hpoint]; rfl
  -- One case for each statement of an external command in the foreground.
  cases next with
  | setPid =>
    cases hstep
    exact h.moved (fun _ hmem => hmem) hcommand.symm rfl (.refl _) rfl
      fun _ _ heq => by cases heq
  -- `waitpid` waits for the process of the command, whose pid is set.
  | waitpid =>
    simp only [SmashStatements.nextExternal] at hstep
    split at hstep
    · rename_i hwait
      cases hstep
      have hset : pidIsSet s.point = true := by rw [hpoint]; rfl
      refine h.waited hcommand hset hwait rfl ?_ fun _ _ heq => by cases heq
      -- The statement after the wait is one of two, and the pid is set at both.
      split
      · rfl
      · rfl
    · cases hstep
  | perror =>
    cases hstep
    have hcurrent := h.current
    rw [hpoint] at hcurrent
    exact h.moved (fun _ hmem => hmem) hcommand.symm rfl (.refl _) hcurrent
      fun _ _ heq => by cases heq
  -- The pid is taken out and the command is over.
  | resetPid =>
    cases hstep
    exact h.ended (fun _ hmem => hmem) rfl rfl

/-- Continuing a job leaves the same children. -/
theorem continueIfJobIsStoppedWith_same {children children' : Children} {job : JobEntry}
    {succeeds continued : Bool}
    (h : ForegroundCommand.continueIfJobIsStoppedWith children (kill succeeds) job =
      (continued, children')) : children.Same children' := by
  unfold ForegroundCommand.continueIfJobIsStoppedWith at h
  split at h
  · have hsame := kill_same succeeds children job.pid Children.SIGCONT
    rwa [h] at hsame
  · cases h
    exact .refl children

/-- The statements of `fg` keep the invariant. -/
theorem Inv.nextForeground (h : Inv s) {locals : ForegroundLocals} {next : ForegroundStatement}
    {succeeds : Bool} {out : List ShellEvent} (hpoint : s.point = .foreground locals next)
    (hstep : s.nextForeground locals succeeds next = .ok (s', out)) : Inv s' := by
  have hcommand : commandPid s.point = some locals.job.pid := by rw [hpoint]; rfl
  have hprevPid := h.prevPid locals next hpoint
  have hcurrent := h.current
  rw [hpoint] at hcurrent
  -- At the other statements of the command the locals are the same.
  have hlocals : ∀ {next' : ForegroundStatement} (l : ForegroundLocals) (n : ForegroundStatement),
      StatementPoint.foreground locals next' = .foreground l n →
        l.prevPid = SmallShell.RESET_PID_VALUE := by
    intro next' l n heq
    cases heq
    exact hprevPid
  -- One case for each statement of `fg`; the pid changes at `setPid` and `restorePid`.
  cases next with
  | cout =>
    cases hstep
    exact h.moved (fun _ hmem => hmem) hcommand.symm rfl (.refl _) hcurrent hlocals
  | continueIfJobIsStopped =>
    simp only [SmashStatements.nextForeground] at hstep
    split at hstep
    · rename_i hcontinue
      cases hstep
      exact h.moved (fun _ hmem => hmem) hcommand.symm rfl
        (continueIfJobIsStoppedWith_same hcontinue) hcurrent hlocals
    · -- A `SIGCONT` that fails ends the command before the pid is set.
      cases hstep
      exact h.ended (fun _ hmem => hmem) rfl hcurrent
  -- The job leaves the list, so fewer processes are listed.
  | removeJobByPid =>
    cases hstep
    exact h.moved (fun pid hmem => JobsList.mem_pids_removeJobByPid hmem) hcommand.symm rfl
      (.refl _) hcurrent hlocals
  -- What the prompt had was the reset value.
  | prevPid =>
    cases hstep
    refine h.moved (fun _ hmem => hmem) hcommand.symm rfl (.refl _) hcurrent fun l n heq => ?_
    cases heq
    exact hcurrent
  | prevJobId =>
    cases hstep
    refine h.moved (fun _ hmem => hmem) hcommand.symm rfl (.refl _) hcurrent fun l n heq => ?_
    cases heq
    exact hprevPid
  | setPid =>
    cases hstep
    exact h.moved (fun _ hmem => hmem) hcommand.symm rfl (.refl _) rfl hlocals
  | setCommand =>
    cases hstep
    exact h.moved (fun _ hmem => hmem) hcommand.symm rfl (.refl _) hcurrent hlocals
  | setJobId =>
    cases hstep
    exact h.moved (fun _ hmem => hmem) hcommand.symm rfl (.refl _) hcurrent hlocals
  | waitForJobToFinish =>
    simp only [SmashStatements.nextForeground] at hstep
    split at hstep
    · -- Here the window opens, when the process has exited.
      rename_i hwait
      cases hstep
      have hset : pidIsSet s.point = true := by rw [hpoint]; rfl
      refine h.waited hcommand hset hwait rfl ?_ hlocals
      split
      · rfl
      · rfl
    · cases hstep
  | perror =>
    cases hstep
    exact h.moved (fun _ hmem => hmem) hcommand.symm rfl (.refl _) hcurrent hlocals
  -- What is restored was saved before, and it was the reset value.
  | restorePid =>
    cases hstep
    exact h.moved (fun _ hmem => hmem) hcommand.symm rfl (.refl _) hprevPid hlocals
  | restoreJobId =>
    cases hstep
    exact h.ended (fun _ hmem => hmem) rfl hcurrent

/-- The start of `fg` keeps the invariant. -/
theorem Inv.startForeground (h : Inv s) (hpoint : s.point = .prompt) (args : List Text) :
    Inv (s.startForeground args).1 := by
  unfold SmashStatements.startForeground
  split
  · exact h
  · split
    · exact h
    · rename_i job hjob
      have hmem : job.pid ∈ s.shell.jobsList.pids := List.mem_map_of_mem (Smash.getJob_mem hjob)
      have hcurrent := h.current
      rw [hpoint] at hcurrent
      refine ⟨h.listed, fun pid heq => ?_, hcurrent, fun l n heq => ?_⟩
      · cases heq
        exact ⟨h.listed _ hmem, by simp⟩
      · cases heq
        rfl

/-- A command that has set the pid has a child. -/
theorem exists_commandPid {point : StatementPoint} (h : pidIsSet point = true) :
    ∃ pid, commandPid point = some pid := by
  cases point with
  | prompt => cases h
  | external pid next => exact ⟨pid, rfl⟩
  | foreground locals next => exact ⟨locals.job.pid, rfl⟩

/-- Where the pid field is set, it is the pid of the command. -/
theorem Inv.current_pos (h : Inv s)
    (hset : s.shell.currentPidForegroundProcess ≠ SmallShell.RESET_PID_VALUE) :
    pidIsSet s.point = true ∧
      commandPid s.point = some s.shell.currentPidForegroundProcess := by
  have hcurrent := h.current
  cases hpid : pidIsSet s.point with
  | false =>
    rw [hpid] at hcurrent
    exact absurd hcurrent hset
  | true =>
    obtain ⟨pid, hcommand⟩ := exists_commandPid hpid
    rw [hpid, hcommand] at hcurrent
    exact ⟨rfl, by rw [hcommand, hcurrent]; rfl⟩

/-- A handler leaves the command where it is. -/
theorem Inv.handled (h : Inv s) {shell : SmallShell} {children : Children}
    (hsame : s.children.Same children)
    (hcurrent : shell.currentPidForegroundProcess = s.shell.currentPidForegroundProcess)
    (hlisted : ∀ pid ∈ shell.jobsList.pids, pid ∈ s.shell.jobsList.pids ∨
      pid = s.shell.currentPidForegroundProcess ∧ pid ≠ SmallShell.RESET_PID_VALUE) :
    Inv { s with shell := shell, children := children } where
  listed pid hmem := by
    rcases hlisted pid hmem with hold | ⟨rfl, hset⟩
    · exact h.listed pid hold
    · exact (h.command _ (h.current_pos hset).2).1
  command pid hpid := by
    rw [hsame pid]
    exact h.command pid hpid
  current := hcurrent.trans h.current
  prevPid := h.prevPid

/-- Every step keeps the invariant. -/
theorem Inv.step (h : Inv s) {a : StatementAction} {out : List ShellEvent}
    (hstep : machine.step s a = .ok (s', out)) : Inv s' := by
  -- One case for each action: statements, handlers, children, and other commands.
  cases a with
  | external forked =>
    simp only [machine] at hstep
    split at hstep
    · cases hstep
      -- The fork fails.
      exact h
    · -- The new child is unreaped.
      rename_i pid hpoint
      obtain ⟨children, hfork, heq⟩ := Outcome.bind_eq_ok.mp hstep
      cases heq
      obtain ⟨hpos, hnew, rfl⟩ := Smash.fork_eq_ok hfork
      have hcurrent := h.current
      rw [hpoint] at hcurrent
      refine ⟨h.listed, fun pid' heq => ?_, hcurrent, fun _ _ heq => by cases heq⟩
      cases heq
      refine ⟨hpos, iff_of_true rfl ?_⟩
      exact (Smash.unreaped_fork s.children pid pid).mpr (.inl rfl)
    · cases hstep
  | fg args =>
    simp only [machine] at hstep
    split at hstep
    · rename_i hpoint
      have hkeeps := h.startForeground hpoint args
      rw [Outcome.ok.inj hstep] at hkeeps
      exact hkeeps
    · cases hstep
  | next succeeds =>
    simp only [machine] at hstep
    split at hstep
    · cases hstep
    · rename_i hpoint
      exact h.nextExternal hpoint hstep
    · rename_i hpoint
      exact h.nextForeground hpoint hstep
  -- Ctrl-C changes neither the pid nor the list.
  | ctrlC succeeds =>
    have hspec := handleIntSignalWith_spec s.shell s.children succeeds
    cases hstep
    exact h.handled hspec.1 rfl fun _ hmem => .inl hmem
  -- Ctrl-Z may list the foreground process, which is unreaped.
  | ctrlZ succeeds now =>
    rcases hhandler : s.shell.handleStpSignalWith (s.children, []) (sendSignal succeeds) now with
      ⟨shell, processes, printed⟩
    obtain ⟨hsame, -, hcurrent, hlisted⟩ := handleStpSignalWith_spec _ _ _ _ hhandler
    simp only [machine, hhandler] at hstep
    cases hstep
    exact h.handled hsame hcurrent hlisted
  -- A child that stops or exits is unreaped as before.
  | child pid e =>
    simp only [machine] at hstep
    split at hstep
    · rename_i hevent
      cases hstep
      exact h.handled (Children.event_same hevent) rfl fun _ hmem => .inl hmem
    · cases hstep
  -- Another command runs at the prompt and lists only positive pids.
  | other jobsList currentCommand children =>
    simp only [machine] at hstep
    split at hstep
    · rename_i hguard
      cases hstep
      have hcurrent := h.current
      rw [hguard.1] at hcurrent
      refine ⟨fun pid hmem => ?_, fun pid hpid => ?_, ?_, h.prevPid⟩
      · obtain ⟨job, hjob, rfl⟩ := List.mem_map.mp hmem
        exact hguard.2 job hjob
      · rw [hguard.1] at hpid
        cases hpid
      · rw [hguard.1]
        exact hcurrent
    · cases hstep

/-- A handler sends its signal to an unreaped child exactly if it runs outside the window. -/
theorem Inv.target_iff (h : Inv s) :
    (s.shell.currentPidForegroundProcess ≠ SmallShell.RESET_PID_VALUE →
      s.children.Unreaped s.shell.currentPidForegroundProcess) ↔ ¬ s.InWindow := by
  constructor
  · -- Inside the window the pid is set, and its process has been reaped.
    intro htarget h
    obtain ⟨hset, hgone⟩ := h
    obtain ⟨pid, hcommand⟩ := exists_commandPid hset
    obtain ⟨hpos, hiff⟩ := h.command pid hcommand
    have hcurrent := h.current
    rw [hset, hcommand] at hcurrent
    have hpid : s.shell.currentPidForegroundProcess = pid := hcurrent
    rw [hpid] at htarget
    have hawaited := hiff.mpr (htarget (by simp only [SmallShell.RESET_PID_VALUE]; omega))
    rw [hgone] at hawaited
    cases hawaited
  · -- Outside it the process of the command has not been waited for.
    intro hout hset
    obtain ⟨hpid, hcommand⟩ := h.current_pos hset
    rw [← (h.command _ hcommand).2]
    by_contra hgone
    exact hout ⟨hpid, Bool.eq_false_iff.mpr hgone⟩

/-- What the handlers print is no signal. -/
theorem mem_signals_iff {shell : SmallShell} {children : Children} {sig : Int}
    {printed : List Output} :
    (∀ pid sig' toChild,
      .signal pid sig' toChild ∈ signals shell children sig ++ printed.map .print →
        toChild = true) ↔
      (shell.currentPidForegroundProcess ≠ SmallShell.RESET_PID_VALUE →
        children.Unreaped shell.currentPidForegroundProcess) := by
  unfold signals
  by_cases hpid : shell.currentPidForegroundProcess = SmallShell.RESET_PID_VALUE
  · simp [hpid]
  · simp [hpid]

/-- What Ctrl-C does at any statement. -/
theorem step_ctrlC (s : SmashStatements) (succeeds : Bool) :
    ∃ (s' : SmashStatements) (printed : List Output), machine.step s (.ctrlC succeeds) =
      .ok (s', signals s.shell s.children Children.SIGKILL ++ printed.map .print) := by
  have hspec := handleIntSignalWith_spec s.shell s.children succeeds
  rw [← hspec.2]
  exact ⟨_, _, rfl⟩

/-- What Ctrl-Z does at any statement. -/
theorem step_ctrlZ (s : SmashStatements) (succeeds : Bool) (now : Int) :
    ∃ (s' : SmashStatements) (printed : List Output), machine.step s (.ctrlZ succeeds now) =
      .ok (s', signals s.shell s.children Children.SIGSTOP ++ printed.map .print) := by
  obtain ⟨-, hsent, -⟩ := handleStpSignalWith_spec s.shell s.children succeeds now rfl
  rw [← hsent]
  exact ⟨_, _, rfl⟩

/-- Nothing but messages. -/
def OnlyPrints (out : List ShellEvent) : Prop := ∀ pid sig toChild, .signal pid sig toChild ∉ out

/-- The statements of a foreground command send no signal. -/
theorem nextExternal_onlyPrints {pid : Int} {next : ExternalStatement} {out : List ShellEvent}
    (h : s.nextExternal pid next = .ok (s', out)) : OnlyPrints out := by
  intro pid' sig toChild
  cases next
  case waitpid =>
    simp only [nextExternal] at h
    split at h
    · cases h
      exact List.not_mem_nil
    · cases h
  all_goals
    cases h
    simp

/-- Nor do the statements of `fg`, which only continue the job. -/
theorem nextForeground_onlyPrints {locals : ForegroundLocals} {succeeds : Bool}
    {next : ForegroundStatement} {out : List ShellEvent}
    (h : s.nextForeground locals succeeds next = .ok (s', out)) : OnlyPrints out := by
  intro pid sig toChild
  cases next
  -- `fg` prints an error if its `SIGCONT` fails, and nothing otherwise.
  case continueIfJobIsStopped =>
    simp only [nextForeground] at h
    split at h
    · cases h
      exact List.not_mem_nil
    · cases h
      simp
  case waitForJobToFinish =>
    simp only [nextForeground] at h
    split at h
    · cases h
      exact List.not_mem_nil
    · cases h
  all_goals
    cases h
    simp

/-- Nor does its start. -/
theorem startForeground_onlyPrints (s : SmashStatements) (args : List Text) :
    OnlyPrints (s.startForeground args).2 := by
  intro pid sig toChild
  unfold startForeground
  split
  · simp
  · split
    · simp
    · exact List.not_mem_nil

/-- The signals that are looked at here come from the handlers. -/
theorem step_onlyPrints {a : StatementAction} {out : List ShellEvent}
    (hstep : machine.step s a = .ok (s', out)) (hC : ∀ succeeds, a ≠ .ctrlC succeeds)
    (hZ : ∀ succeeds now, a ≠ .ctrlZ succeeds now) : OnlyPrints out := by
  -- Only the two handlers record signals.
  cases a with
  | external forked =>
    simp only [machine] at hstep
    split at hstep
    · cases hstep
      simp [OnlyPrints]
    · obtain ⟨children, -, heq⟩ := Outcome.bind_eq_ok.mp hstep
      cases heq
      simp [OnlyPrints]
    · cases hstep
  | fg args =>
    simp only [machine] at hstep
    split at hstep
    · have hprints := startForeground_onlyPrints s args
      rw [Outcome.ok.inj hstep] at hprints
      exact hprints
    · cases hstep
  | next succeeds =>
    simp only [machine] at hstep
    split at hstep
    · cases hstep
    · exact nextExternal_onlyPrints hstep
    · exact nextForeground_onlyPrints hstep
  | ctrlC succeeds => exact absurd rfl (hC succeeds)
  | ctrlZ succeeds now => exact absurd rfl (hZ succeeds now)
  | child pid e =>
    simp only [machine] at hstep
    split at hstep
    · cases hstep
      simp [OnlyPrints]
    · cases hstep
  | other jobsList currentCommand children =>
    simp only [machine] at hstep
    split at hstep
    · cases hstep
      simp [OnlyPrints]
    · cases hstep

/-- At a reachable state, a step sends signals to unreaped children only if it is outside the
    window, and the other way round. -/
theorem Inv.sendsToChildren_iff (h : Inv s) (a : StatementAction) :
    s.SendsToChildren a ↔ s.OutsideWindow a := by
  -- Both handlers go to the same target.
  have hhandler : ∀ {s' : SmashStatements} {sig : Int} {printed : List Output},
      machine.step s a = .ok (s', signals s.shell s.children sig ++ printed.map .print) →
        (s.SendsToChildren a ↔ ¬ s.InWindow) := by
    intro s' sig printed hstep
    rw [← h.target_iff, ← mem_signals_iff, SendsToChildren]
    constructor
    · exact fun hsends => hsends _ _ hstep
    · intro hsends s'' out hstep'
      cases hstep.symm.trans hstep'
      exact hsends
  -- Every other step sends nothing.
  have hprints : (∀ succeeds, a ≠ .ctrlC succeeds) → (∀ succeeds now, a ≠ .ctrlZ succeeds now) →
      s.SendsToChildren a := fun hC hZ s' out hstep pid sig toChild hmem =>
    absurd hmem (step_onlyPrints hstep hC hZ pid sig toChild)
  cases a with
  | ctrlC succeeds =>
    obtain ⟨s', printed, hstep⟩ := step_ctrlC s succeeds
    exact hhandler hstep
  | ctrlZ succeeds now =>
    obtain ⟨s', printed, hstep⟩ := step_ctrlZ s succeeds now
    exact hhandler hstep
  | external forked =>
    exact iff_of_true (hprints (fun _ heq => by cases heq) fun _ _ heq => by cases heq) trivial
  | fg args =>
    exact iff_of_true (hprints (fun _ heq => by cases heq) fun _ _ heq => by cases heq) trivial
  | next succeeds =>
    exact iff_of_true (hprints (fun _ heq => by cases heq) fun _ _ heq => by cases heq) trivial
  | child pid e =>
    exact iff_of_true (hprints (fun _ heq => by cases heq) fun _ _ heq => by cases heq) trivial
  | other jobsList currentCommand children =>
    exact iff_of_true (hprints (fun _ heq => by cases heq) fun _ _ heq => by cases heq) trivial

/-! ## Runs -/

/-- Along every run, the signals that the handlers send all go to unreaped children exactly if
    no handler runs in the window. -/
theorem signals_to_children_iff (acts : List StatementAction) :
    machine.EveryStep SendsToChildren initial acts ↔
      machine.EveryStep OutsideWindow initial acts := by
  refine machine.everyStep_iff (I := Inv) inv_initial (fun s a s' out h hC hstep => ?_)
    (fun s a s' out h hD hstep => ?_) acts
  · exact ⟨h.step hstep, (h.sendsToChildren_iff a).mpr hC⟩
  · exact (h.sendsToChildren_iff a).mp hD

/-- A foreground child exits and is reaped, and the Ctrl-C comes before the pid is reset. -/
def reapedRun : List StatementAction :=
  [.external (some 100), .next true, .child 100 .exits, .next true, .ctrlC true]

/-- Ctrl-C reaches a pid that is no child any more. -/
theorem reapedRun_signals_stranger : ∃ s out, machine.exec initial reapedRun = .ok (s, out) ∧
    .signal 100 Children.SIGKILL false ∈ out :=
  ⟨_, _, rfl, by decide⟩

end OsWet.SmashStatements
