import OsWet.Native.BackgroundProcesses

/-!
# The steps of the shell and its background commands

`step_cases` has one case for each kind of step. A child that exits or dies, and a shell that is
killed, are one case each, however it comes about.
-/

namespace OsWet

namespace ExternalCommand

variable {s s' : BackgroundShell} {a : BackgroundAction} {out : List BackgroundEvent}

/-- A child that is set is in its new state, and the others are as they were. -/
@[simp, grind =] theorem setChild_child (s : BackgroundShell) (i j : Nat)
    (p : PipeProcess BackgroundChildPoint) :
    (setChild s i p).child j = if j = i then p else s.child j :=
  Function.update_apply s.child i p j

/-- The other fields are as they were. -/
@[simp, grind =] theorem setChild_count (s : BackgroundShell) (i : Nat)
    (p : PipeProcess BackgroundChildPoint) : (setChild s i p).count = s.count := rfl

@[simp, grind =] theorem setChild_pipe (s : BackgroundShell) (i j : Nat)
    (p : PipeProcess BackgroundChildPoint) : (setChild s i p).pipe j = s.pipe j := rfl

@[simp, grind =] theorem setChild_jobs (s : BackgroundShell) (i : Nat)
    (p : PipeProcess BackgroundChildPoint) : (setChild s i p).jobs = s.jobs := rfl

@[simp, grind =] theorem setChild_shell (s : BackgroundShell) (i : Nat)
    (p : PipeProcess BackgroundChildPoint) : (setChild s i p).shell = s.shell := rfl

/-- A pipe that is set has its new content, and the others are as they were. -/
@[simp, grind =] theorem setPipe_pipe (s : BackgroundShell) (i j : Nat) (pipe : Pipe Char) :
    (setPipe s i pipe).pipe j = if j = i then pipe else s.pipe j :=
  Function.update_apply s.pipe i pipe j

@[simp, grind =] theorem setPipe_child (s : BackgroundShell) (i j : Nat) (pipe : Pipe Char) :
    (setPipe s i pipe).child j = s.child j := rfl

@[simp, grind =] theorem setPipe_shell (s : BackgroundShell) (i : Nat) (pipe : Pipe Char) :
    (setPipe s i pipe).shell = s.shell := rfl

@[simp, grind =] theorem setPipe_count (s : BackgroundShell) (i : Nat) (pipe : Pipe Char) :
    (setPipe s i pipe).count = s.count := rfl

@[simp, grind =] theorem setPipe_jobs (s : BackgroundShell) (i : Nat) (pipe : Pipe Char) :
    (setPipe s i pipe).jobs = s.jobs := rfl

/-- A child goes on without reading: where from and where to, and its table. -/
inductive BackgroundChildMove (s : BackgroundShell) (i : Nat) :
    BackgroundChildPoint → PipeProcess BackgroundChildPoint → List BackgroundEvent → Prop
  | setpgrp : BackgroundChildMove s i .setpgrp ⟨.closeWrite, (s.child i).table⟩ []
  | closeWrite : BackgroundChildMove s i .closeWrite
      ⟨.read, (s.child i).table.close (s.readWritePipes i).2⟩ []
  | execute : BackgroundChildMove s i .execute ⟨.running, (s.child i).table⟩ [.executed i]

/-- One step of the shell or of a child. -/
inductive Steps (s : BackgroundShell) :
    BackgroundAction → BackgroundShell → List BackgroundEvent → Prop
  | pipe {fds : Int × Int} {table : FileTable} (hpoint : s.shell.point = .ready)
      (hopen : (s.shell.table.openPipe s.count fds : Outcome Empty FileTable) = .ok table) :
      Steps s (.pipe fds) { s with
        shell := ⟨.fork, table⟩
        readWritePipes := Function.update s.readWritePipes s.count fds } []
  | fork (hpoint : s.shell.point = .fork) :
      Steps s (.fork true) { setChild s s.count ⟨.setpgrp, s.shell.table⟩ with
        shell := ⟨.closeRead, s.shell.table⟩ } []
  | forkFails (hpoint : s.shell.point = .fork) :
      Steps s (.fork false) { s with shell := ⟨.ready, s.shell.table⟩, count := s.count + 1 } []
  | closeRead (hpoint : s.shell.point = .closeRead) :
      Steps s .shell
        { s with shell := ⟨.addJob, s.shell.table.close (s.readWritePipes s.count).1⟩ } []
  | addJob (hpoint : s.shell.point = .addJob) :
      Steps s .shell { s with shell := ⟨.write, s.shell.table⟩, jobs := s.jobs ++ [s.count] }
        [.listed s.count]
  | write {i : Nat} (hpoint : s.shell.point = .write)
      (hlookup : s.shell.table.lookup (s.readWritePipes s.count).2 = some (.writeEnd i)) :
      Steps s .shell { setPipe s i { s.pipe i with
          content := (s.pipe i).content ++ FINISHED_ADDING_PID_TO_JOB_LIST_MSG } with
        shell := ⟨.ready, s.shell.table⟩, count := s.count + 1 } []
  | writeFails (hpoint : s.shell.point = .write)
      (hlookup : ∀ i, s.shell.table.lookup (s.readWritePipes s.count).2 ≠ some (.writeEnd i)) :
      Steps s .shell { s with shell := ⟨.ready, s.shell.table⟩, count := s.count + 1 } []
  | brokenPipe {i : Nat} (hpoint : s.shell.point = .write)
      (hlookup : s.shell.table.lookup (s.readWritePipes s.count).2 = some (.writeEnd i))
      (hreaders : ¬ Held s (.readEnd i)) : Steps s .shell (killShell s) [.brokenPipe i]
  | removeFinishedJobs (hpoint : s.shell.point = .ready) :
      Steps s .removeFinishedJobs
        { s with jobs := s.jobs.filter fun i => (s.child i).point ≠ .exited } []
  | kill (hpoint : s.shell.point ≠ .killed) : Steps s .kill (killShell s) []
  | move {i : Nat} {p : PipeProcess BackgroundChildPoint} {out : List BackgroundEvent}
      (h : BackgroundChildMove s i (s.child i).point p out) :
      Steps s (.child i true) (setChild s i p) out
  | read {i j : Nat} {bytes : List Char} {pipe : Pipe Char} (hpoint : (s.child i).point = .read)
      (hlookup : (s.child i).table.lookup (s.readWritePipes i).1 = some (.readEnd j))
      (hread : (bytes = [] ∧ (s.pipe j).content = [] ∧ ¬ Held s (.writeEnd j) ∧
          pipe = s.pipe j) ∨
        ((s.pipe j).content = bytes ++ pipe.content ∧ bytes ≠ [] ∧
          pipe.capacity = (s.pipe j).capacity)) :
      Steps s (.child i true)
        (setPipe (setChild s i ⟨.execute, (s.child i).table⟩) j pipe) []
  | exit {i : Nat} {a : BackgroundAction} (hpoint : (s.child i).point ≠ .unborn) :
      Steps s a (exitChild s i) []

/-- What `pipe` does where it is called. -/
theorem makePipe_cases {fds : Int × Int} (h : makePipe s fds = .ok s') :
    Steps s (.pipe fds) s' [] := by
  unfold makePipe at h
  split at h
  · rename_i hpoint
    obtain ⟨table, hopen, h⟩ := Outcome.bind_eq_ok.mp h
    cases h
    exact .pipe hpoint hopen
  · cases h

/-- What `fork` does, if it succeeds and if not. -/
theorem forkStep_cases {forked : Bool} (h : forkStep s forked = .ok s') :
    Steps s (.fork forked) s' [] := by
  unfold forkStep at h
  simp only at h
  split at h
  · rename_i hpoint
    cases forked with
    | true =>
      cases h
      exact .fork hpoint
    | false =>
      cases h
      exact .forkFails hpoint
  · cases h

/-- What the shell does after `fork`, one statement at a time. -/
theorem shellStep_cases (h : shellStep s = .ok (s', out)) : Steps s .shell s' out := by
  unfold shellStep at h
  simp only at h
  -- One case for each statement of the shell, in the order of the source.
  split at h
  · rename_i hpoint
    cases h
    exact .closeRead hpoint
  · rename_i hpoint
    cases h
    exact .addJob hpoint
  · rename_i hpoint
    split at h
    · rename_i i hlookup
      -- What `write` does to the pipe was said once, with the pipe: nobody to read kills the shell.
      obtain ⟨r, hwrite, h⟩ := Outcome.bind_eq_ok.mp h
      obtain ⟨hreaders, rfl⟩ | ⟨-, -, -, rfl⟩ := Pipe.write_eq_ok hwrite
      · cases h
        exact .brokenPipe hpoint hlookup hreaders
      · cases h
        exact .write hpoint hlookup
    · -- A number that names no write end: the call fails and the shell goes on.
      rename_i hlookup
      cases h
      exact .writeFails hpoint hlookup
  -- At `pipe`, at `fork` and after the kill the shell does not move by this step.
  all_goals cases h

/-- What the main loop does between two commands. -/
theorem removeFinishedJobs_cases (h : removeFinishedJobs s = .ok s') :
    Steps s .removeFinishedJobs s' [] := by
  unfold removeFinishedJobs at h
  split at h
  · rename_i hpoint
    cases h
    exact .removeFinishedJobs hpoint
  · cases h

/-- What the statements of a child do, and that it exits after one that fails. -/
theorem childStep_cases {i : Nat} {succeeds : Bool}
    (h : childStep s i succeeds = .ok (s', out)) : Steps s (.child i succeeds) s' out := by
  unfold childStep at h
  simp only at h
  -- One case for each statement of the child; a call that fails ends it with `exit`.
  split at h
  · rename_i hpoint
    cases succeeds with
    | true =>
      cases h
      exact .move (hpoint ▸ .setpgrp)
    | false =>
      cases h
      exact .exit (by simp [hpoint])
  · rename_i hpoint
    cases succeeds with
    | true =>
      cases h
      exact .move (hpoint ▸ .closeWrite)
    | false =>
      cases h
      exact .exit (by simp [hpoint])
  · rename_i hpoint
    cases succeeds with
    | true =>
      simp only [if_true] at h
      split at h
      · rename_i j hlookup
        -- The read returns what is there, or nothing once no process can write any more.
        obtain ⟨⟨bytes, pipe⟩, hread, h⟩ := Outcome.bind_eq_ok.mp h
        cases h
        obtain hend | ⟨hbytes, -, hcontent, hcapacity⟩ := Pipe.read_eq_ok hread
        · exact .read hpoint hlookup (.inl hend)
        · exact .read hpoint hlookup (.inr ⟨hcontent, hbytes, hcapacity⟩)
      · -- Without a read end under the number the child gives up.
        cases h
        exact .exit (by simp [hpoint])
    | false =>
      cases h
      exact .exit (by simp [hpoint])
  · rename_i hpoint
    cases succeeds with
    | true =>
      cases h
      exact .move (hpoint ▸ .execute)
    | false =>
      cases h
      exact .exit (by simp [hpoint])
  -- A child that is not born, executes or has exited makes no step here.
  all_goals cases h

/-- A child that is killed closes what it has open. -/
theorem killChild_cases {i : Nat} (h : killChild s i = .ok s') :
    Steps s (.killChild i) s' [] := by
  unfold killChild at h
  split at h
  · cases h
  · cases h
  · rename_i hunborn hexited
    cases h
    exact .exit hunborn

/-- A step of the machine is one of the listed ones. -/
theorem step_cases (h : machine.step s a = .ok (s', out)) : Steps s a s' out := by
  cases a with
  | pipe fds =>
    -- The steps that print nothing carry an empty list of events next to the state.
    obtain ⟨hstep, rfl⟩ := Outcome.pair_eq_ok h
    exact makePipe_cases hstep
  | fork forked =>
    obtain ⟨hstep, rfl⟩ := Outcome.pair_eq_ok h
    exact forkStep_cases hstep
  | shell => exact shellStep_cases h
  | removeFinishedJobs =>
    obtain ⟨hstep, rfl⟩ := Outcome.pair_eq_ok h
    exact removeFinishedJobs_cases hstep
  | kill =>
    simp only [machine] at h
    -- Only a shell that has not been killed can be killed.
    split at h
    · cases h
    · rename_i hpoint
      cases h
      exact .kill hpoint
  | child i succeeds => exact childStep_cases h
  | killChild i =>
    obtain ⟨hstep, rfl⟩ := Outcome.pair_eq_ok h
    exact killChild_cases hstep

end ExternalCommand

end OsWet
