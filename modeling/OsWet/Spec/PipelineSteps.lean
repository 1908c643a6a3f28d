import OsWet.Native.PipeProcesses

/-!
# The steps of a pipeline

What one system call of one process of a pipeline does: `step_cases` has one case for each kind
of step, and `ChildMove` lists how a child goes on by itself.
-/

namespace OsWet

namespace PipeCommand

variable {β : Type} {line : PipeLine} {s s' : Pipeline β}

/-- A child that is set is in its new state, and the other one is as it was. -/
@[simp, grind =] theorem setChild_child (s : Pipeline β) (c c' : PipeChild)
    (p : PipeProcess PipeChildPoint) :
    (setChild s c p).child c' = if c' = c then p else s.child c' :=
  Function.update_apply s.child c p c'

@[simp, grind =] theorem setChild_program (s : Pipeline β) (c c' : PipeChild)
    (p : PipeProcess PipeChildPoint) : (setChild s c p).program c' = s.program c' := rfl

@[simp, grind =] theorem setChild_shell (s : Pipeline β) (c : PipeChild)
    (p : PipeProcess PipeChildPoint) : (setChild s c p).shell = s.shell := rfl

/-- A program that is set is in its new state, and the other one is as it was. -/
@[simp, grind =] theorem setProgram_program (s : Pipeline β) (c c' : PipeChild)
    (p : PipeProcess ProgramPoint) :
    (setProgram s c p).program c' = if c' = c then p else s.program c' :=
  Function.update_apply s.program c p c'

@[simp, grind =] theorem setProgram_child (s : Pipeline β) (c c' : PipeChild)
    (p : PipeProcess ProgramPoint) : (setProgram s c p).child c' = s.child c' := rfl

@[simp, grind =] theorem setProgram_shell (s : Pipeline β) (c : PipeChild)
    (p : PipeProcess ProgramPoint) : (setProgram s c p).shell = s.shell := rfl

/-- A child goes on without starting its program: where from and where to, and its table. -/
inductive ChildMove (line : PipeLine) (s : Pipeline β) :
    PipeChild → PipeChildPoint → PipeProcess PipeChildPoint → Prop
  | redirectFirst : ChildMove line s .first .redirect
      ⟨.closeRead, (s.child .first).table.dup2 s.readWritePipes.2 1⟩
  | redirectSecond : ChildMove line s .second .redirect
      ⟨.closeRead, (s.child .second).table.dup2 s.readWritePipes.1 0⟩
  | closeRead (c : PipeChild) : ChildMove line s c .closeRead
      ⟨.closeWrite, (s.child c).table.close s.readWritePipes.1⟩
  | closeWrite (c : PipeChild) : ChildMove line s c .closeWrite
      ⟨.execute, (s.child c).table.close s.readWritePipes.2⟩
  | builtin {c : PipeChild} (hline : line.execution c = .builtin) :
      ChildMove line s c .execute ⟨.executing, (s.child c).table⟩
  | notStarted {c : PipeChild} (hline : line.execution c ≠ .builtin) :
      ChildMove line s c .execute ⟨afterCommand c, (s.child c).table⟩
  | builtinDone {c : PipeChild} (hline : line.execution c = .builtin)
      (hdone : c = .first → s.toWrite = []) :
      ChildMove line s c .executing ⟨afterCommand c, (s.child c).table⟩
  | programDone {c : PipeChild} (hline : line.execution c ≠ .builtin)
      (hdone : (s.program c).point = .exited) :
      ChildMove line s c .executing ⟨afterCommand c, (s.child c).table⟩
  | closeOutput (c : PipeChild) : ChildMove line s c .closeOutput
      ⟨.exit, (s.child c).table.close 1⟩
  | exit (c : PipeChild) : ChildMove line s c .exit ⟨.zombie, ∅⟩

/-- One step of a pipeline. -/
inductive Steps (line : PipeLine) (s : Pipeline β) :
    PipelineAction → Pipeline β → List (PipelineEvent β) → Prop
  | pipe {fds : Int × Int} {table : FileTable} (hpoint : s.shell.point = .pipe)
      (hopen : (s.shell.table.openPipe 0 fds : Outcome Empty FileTable) = .ok table) :
      Steps line s (.pipe fds) { s with shell := ⟨.forkFirst, table⟩, readWritePipes := fds } []
  | forkFirst (hpoint : s.shell.point = .forkFirst) :
      Steps line s (.shell true) { setChild s .first ⟨.redirect, s.shell.table⟩ with
        shell := ⟨.forkSecond, s.shell.table⟩ } []
  | forkSecond (hpoint : s.shell.point = .forkSecond) :
      Steps line s (.shell true) { setChild s .second ⟨.redirect, s.shell.table⟩ with
        shell := ⟨.closeRead, s.shell.table⟩ } []
  | forkFails (hpoint : s.shell.point = .forkFirst ∨ s.shell.point = .forkSecond) :
      Steps line s (.shell false) { s with shell := ⟨.forkFailed, s.shell.table⟩ } []
  | closeRead {forked : Bool} (hpoint : s.shell.point = .closeRead) :
      Steps line s (.shell forked)
        { s with shell := ⟨.closeWrite, s.shell.table.close s.readWritePipes.1⟩ } []
  | closeWrite {forked : Bool} (hpoint : s.shell.point = .closeWrite) :
      Steps line s (.shell forked)
        { s with shell := ⟨if line.isBackGroundCommand then .returned else .waitFirst,
          s.shell.table.close s.readWritePipes.2⟩ } []
  | waitFirst {forked : Bool} (hpoint : s.shell.point = .waitFirst)
      (hchild : (s.child .first).point = .zombie) :
      Steps line s (.shell forked) { setChild s .first { s.child .first with point := .reaped } with
        shell := { s.shell with point := .waitSecond } } []
  | waitSecond {forked : Bool} (hpoint : s.shell.point = .waitSecond)
      (hchild : (s.child .second).point = .zombie) :
      Steps line s (.shell forked)
        { setChild s .second { s.child .second with point := .reaped } with
          shell := { s.shell with point := .returned } } []
  | move {c : PipeChild} {forked : Bool} {p : PipeProcess PipeChildPoint}
      (h : ChildMove line s c (s.child c).point p) :
      Steps line s (.child c forked) (setChild s c p) []
  | start {c : PipeChild} {p : PipeChildPoint} (hpoint : (s.child c).point = .execute)
      (h : line.execution c = .foreground ∧ p = .executing ∨
        line.execution c = .background ∧ p = afterCommand c) :
      Steps line s (.child c true)
        (setProgram (setChild s c ⟨p, (s.child c).table⟩) c ⟨.running, (s.child c).table⟩) []
  | wrote {n : Nat} {table : FileTable} {pipe : Nat} (hwriter : writerTable line s = some table)
      (hlookup : table.lookup 1 = some (.writeEnd pipe)) (hreaders : Held s (.readEnd 0))
      (hbytes : s.toWrite.take n ≠ []) :
      Steps line s (.write n) { s with
        pipe := { s.pipe with content := s.pipe.content ++ s.toWrite.take n }
        toWrite := s.toWrite.drop n } [.wrote (s.toWrite.take n)]
  | brokenPipe {n : Nat} {table : FileTable} (hwriter : writerTable line s = some table)
      (hreaders : ¬ Held s (.readEnd 0)) (hbytes : s.toWrite.take n ≠ []) :
      Steps line s (.write n) (killWriter line s) [.brokenPipe]
  | elsewhere {n : Nat} {table : FileTable} (hwriter : writerTable line s = some table)
      (hlookup : ∀ pipe, table.lookup 1 ≠ some (.writeEnd pipe))
      (hbytes : s.toWrite.take n ≠ []) :
      Steps line s (.write n) { s with toWrite := s.toWrite.drop n }
        [.elsewhere (s.toWrite.take n)]
  | ended {n : Nat} (hpoint : (s.program .second).point = .running) (hdone : ¬ readerDone s)
      (hcontent : s.pipe.content = []) (hwriters : ¬ Held s (.writeEnd 0)) :
      Steps line s (.read n) { s with sawEnd := true } [.ended]
  | read {n : Nat} {bytes : List β} {pipe : Pipe β} (hpoint : (s.program .second).point = .running)
      (hdone : ¬ readerDone s) (hbytes : bytes ≠ [])
      (hcontent : s.pipe.content = bytes ++ pipe.content)
      (hcapacity : pipe.capacity = s.pipe.capacity)
      (hwants : ∀ wants, s.wants = some wants → bytes.length ≤ wants) :
      Steps line s (.read n)
        { s with pipe := pipe, wants := s.wants.map (· - bytes.length) } [.read bytes]
  | programExit {c : PipeChild} (hpoint : (s.program c).point = .running)
      (hdone : programDone s c) : Steps line s (.programExit c) (setProgram s c ⟨.exited, ∅⟩) []

/-- What `pipe` does where it is called. -/
theorem makePipe_cases {fds : Int × Int} (h : makePipe s fds = .ok s') :
    Steps line s (.pipe fds) s' [] := by
  unfold makePipe at h
  split at h
  · rename_i hpoint
    obtain ⟨table, hopen, h⟩ := Outcome.bind_eq_ok.mp h
    cases h
    exact .pipe hpoint hopen
  · cases h

/-- The shell waits for a child that has ended. -/
theorem waitChild_cases {c : PipeChild} {next : PipeShellPoint} (h : waitChild s c next = .ok s') :
    (s.child c).point = .zombie ∧ s' = { setChild s c { s.child c with point := .reaped } with
      shell := { s.shell with point := next } } := by
  unfold waitChild at h
  split at h
  · rename_i hchild
    cases h
    exact ⟨hchild, rfl⟩
  · cases h

/-- What the statements of the shell do, for a `fork` that succeeds and one that fails. -/
theorem shellStep_cases {forked : Bool} (h : shellStep line s forked = .ok s') :
    Steps line s (.shell forked) s' [] := by
  unfold shellStep at h
  simp only at h
  split at h
  · -- Before the pipe the shell does not move by this step.
    cases h
  · rename_i hpoint
    -- Only the two forks depend on the answer of the kernel.
    cases forked with
    | true =>
      cases h
      exact .forkFirst hpoint
    | false =>
      cases h
      exact .forkFails (.inl hpoint)
  · rename_i hpoint
    cases forked with
    | true =>
      cases h
      exact .forkSecond hpoint
    | false =>
      cases h
      exact .forkFails (.inr hpoint)
  · rename_i hpoint
    cases h
    exact .closeRead hpoint
  · rename_i hpoint
    cases h
    exact .closeWrite hpoint
  · rename_i hpoint
    -- A `waitpid` returns when its child is a zombie and not before.
    obtain ⟨hchild, rfl⟩ := waitChild_cases h
    exact .waitFirst hpoint hchild
  · rename_i hpoint
    obtain ⟨hchild, rfl⟩ := waitChild_cases h
    exact .waitSecond hpoint hchild
  · -- After the second `waitpid` the shell is done.
    cases h
  · cases h

/-- What the statements of a child do. -/
theorem childStep_cases {c : PipeChild} {forked : Bool} (h : childStep line s c forked = .ok s') :
    Steps line s (.child c forked) s' [] := by
  unfold childStep at h
  simp only at h
  split at h
  · rename_i hpoint
    cases h
    -- The two children differ in the descriptor that the pipe replaces.
    cases c with
    | first => exact .move (hpoint ▸ .redirectFirst)
    | second => exact .move (hpoint ▸ .redirectSecond)
  · rename_i hpoint
    cases h
    exact .move (hpoint ▸ .closeRead c)
  · rename_i hpoint
    cases h
    exact .move (hpoint ▸ .closeWrite c)
  · rename_i hpoint
    -- The command starts, or the `fork` for its program fails.
    cases hline : line.execution c with
    | builtin =>
      rw [hline] at h
      cases h
      exact .move (hpoint ▸ .builtin hline)
    | foreground =>
      rw [hline] at h
      cases forked with
      | true =>
        cases h
        exact .start hpoint (.inl ⟨hline, rfl⟩)
      | false =>
        cases h
        exact .move (hpoint ▸ .notStarted (by simp [hline]))
    | background =>
      rw [hline] at h
      cases forked with
      | true =>
        cases h
        exact .start hpoint (.inr ⟨hline, rfl⟩)
      | false =>
        cases h
        exact .move (hpoint ▸ .notStarted (by simp [hline]))
  · rename_i hpoint
    -- Executing: a builtin is done when it has written its text, a program when it has exited.
    split at h
    · rename_i hline
      split at h
      · cases h
      · rename_i hdone
        cases h
        -- The shell's own child waits for nothing else; only the first part has text to write.
        refine .move (hpoint ▸ .builtinDone hline fun hc => ?_)
        by_contra hne
        exact hdone ⟨hc, hne⟩
    · rename_i hline
      split at h
      · rename_i hdone
        cases h
        exact .move (hpoint ▸ .programDone hline hdone)
      · cases h
  · rename_i hpoint
    cases h
    exact .move (hpoint ▸ .closeOutput c)
  · rename_i hpoint
    cases h
    exact .move (hpoint ▸ .exit c)
  -- Unborn and exited children make no step.
  all_goals cases h

/-- The first command writes to the pipe, or breaks it, or its output goes elsewhere. -/
theorem writeStep_cases {n : Nat} {out : List (PipelineEvent β)}
    (h : writeStep line s n = .ok (s', out)) : Steps line s (.write n) s' out := by
  unfold writeStep at h
  simp only at h
  -- The writer has nothing left.
  split at h
  · cases h
  rename_i hbytes
  -- Nobody has a table to write with.
  split at h
  · cases h
  rename_i table hwriter
  split at h
  · rename_i pipe hlookup
    -- Descriptor 1 is the pipe: the write goes in, or breaks it when no reader is left.
    obtain ⟨r, hwrite, h⟩ := Outcome.bind_eq_ok.mp h
    obtain ⟨hreaders, rfl⟩ | ⟨hreaders, -, -, rfl⟩ := Pipe.write_eq_ok hwrite
    · cases h
      exact .brokenPipe hwriter hreaders hbytes
    · cases h
      exact .wrote hwriter hlookup hreaders hbytes
  · -- Descriptor 1 is another file.
    rename_i hlookup
    cases h
    exact .elsewhere hwriter hlookup hbytes

/-- The second command reads from the pipe, or finds its end. -/
theorem readStep_cases {n : Nat} {out : List (PipelineEvent β)}
    (h : readStep s n = .ok (s', out)) : Steps line s (.read n) s' out := by
  unfold readStep at h
  split at h
  · rename_i hrunning
    obtain ⟨hpoint, hdone⟩ := hrunning
    split at h
    · obtain ⟨⟨bytes, pipe⟩, hread, h⟩ := Outcome.bind_eq_ok.mp h
      obtain ⟨rfl, hcontent, hwriters, rfl⟩ | ⟨hbytes, hlen, hcontent, hcapacity⟩ :=
        Pipe.read_eq_ok hread
      · cases h
        exact .ended hpoint hdone hcontent hwriters
      · simp only [if_neg hbytes] at h
        cases h
        refine .read hpoint hdone hbytes hcontent hcapacity fun wants hwants => ?_
        rw [hwants] at hlen
        exact hlen.trans (Nat.min_le_right _ _)
    · cases h
  · cases h

/-- A program that is done ends. -/
theorem programExit_cases {c : PipeChild} (h : programExit s c = .ok s') :
    Steps line s (.programExit c) s' [] := by
  unfold programExit at h
  split at h
  · rename_i hrunning
    cases h
    exact .programExit hrunning.1 hrunning.2
  · cases h

/-- A step of the machine is one of the listed ones. -/
theorem step_cases {a : PipelineAction} {out : List (PipelineEvent β)}
    (h : (machine line β).step s a = .ok (s', out)) : Steps line s a s' out := by
  cases a with
  | pipe fds =>
    obtain ⟨hstep, rfl⟩ := Outcome.pair_eq_ok h
    exact makePipe_cases hstep
  | shell forked =>
    obtain ⟨hstep, rfl⟩ := Outcome.pair_eq_ok h
    exact shellStep_cases hstep
  | child c forked =>
    obtain ⟨hstep, rfl⟩ := Outcome.pair_eq_ok h
    exact childStep_cases hstep
  | write n => exact writeStep_cases h
  | read n => exact readStep_cases h
  | programExit c =>
    obtain ⟨hstep, rfl⟩ := Outcome.pair_eq_ok h
    exact programExit_cases hstep

end PipeCommand

end OsWet
