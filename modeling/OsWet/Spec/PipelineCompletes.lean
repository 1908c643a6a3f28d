import OsWet.Spec.PipelineRuns
import OsWet.ForStd.Progress
import Mathlib.Data.Fintype.EquivFin

/-!
# A pipeline comes to its end

Every process that has not ended can go on, or waits for one that can. So with both children
started the shell always gets to the end of `PipeCommand::execute`, and by then nobody has an
end of the pipe open. What the second command has read when it finds the end of the stream is
all that the first one has written.

- `exists_step`: some process can go on
- `pipeline_transports`: the bytes arrive, in order and once
- `pipeline_completes`: there is no deadlock, and no run goes on for ever
-/

namespace OsWet

/-- The system calls that are left to the shell, at most. -/
def PipeShellPoint.work : PipeShellPoint → Nat
  | .pipe => 8
  | .forkFirst => 7
  | .forkSecond => 6
  | .closeRead => 5
  | .closeWrite => 4
  | .waitFirst => 3
  | .waitSecond => 2
  | .returned | .forkFailed => 0

/-- Those that are left to a child. -/
def PipeChildPoint.work : PipeChildPoint → Nat
  | .unborn => 8
  | .redirect => 7
  | .closeRead => 6
  | .closeWrite => 5
  | .execute => 4
  | .executing => 3
  | .closeOutput => 2
  | .exit => 1
  | .zombie | .reaped => 0

/-- The steps that a program has to go at most. -/
def ProgramPoint.work : ProgramPoint → Nat
  | .unborn | .running => 1
  | .exited => 0

namespace PipeCommand

variable {β : Type} {line : PipeLine} {s s' : Pipeline β} {a : PipelineAction}
  {out : List (PipelineEvent β)}

/-- The steps that are left, at most: a byte is written and read. -/
def work (s : Pipeline β) : Nat :=
  s.shell.point.work + ((s.child .first).point.work + (s.child .second).point.work) +
    ((s.program .first).point.work + (s.program .second).point.work) +
    (2 * s.toWrite.length + s.pipe.content.length) + (!s.sawEnd).toNat

/-- A child that goes on has fewer steps to go. -/
theorem ChildMove.work_lt {c : PipeChild} {p : PipeChildPoint} {p' : PipeProcess PipeChildPoint}
    (h : ChildMove line s c p p') : p'.point.work < p.work := by
  cases h with
  | notStarted | builtinDone | programDone => cases c <;> simp [afterCommand, PipeChildPoint.work]
  | _ => simp [PipeChildPoint.work]

/-- Every step leaves fewer steps to go. -/
theorem Steps.work_lt (h : Steps line s a s' out) (ho : Order line s) : work s' < work s := by
  -- Each step is paid by one of the summands: a point, a program, the bytes on their way.
  cases h with
  | pipe hpoint | closeRead hpoint =>
    simp [work, hpoint, PipeShellPoint.work]
  | forkFails hpoint =>
    rcases hpoint with hpoint | hpoint <;> simp [work, hpoint, PipeShellPoint.work]
  -- After the second `close` the shell waits, or returns at once from a background pipeline.
  | closeWrite hpoint =>
    have hnext : (if line.isBackGroundCommand then PipeShellPoint.returned else .waitFirst).work ≤
        3 := by
      split <;> simp [PipeShellPoint.work]
    have hlast : PipeShellPoint.closeWrite.work = 4 := rfl
    simp only [work, hpoint]
    omega
  -- The fork costs the shell a point, and the child's points are new.
  | forkFirst hpoint =>
    simp [work, hpoint, setChild, PipeShellPoint.work, ho.first_unborn (.inr hpoint),
      PipeChildPoint.work]
    omega
  | forkSecond hpoint =>
    simp [work, hpoint, setChild, PipeShellPoint.work,
      ho.second_unborn.mpr (.inr (.inr (.inl hpoint))), PipeChildPoint.work]
    omega
  -- Waiting turns a zombie, which has nothing left, into a reaped child.
  | waitFirst hpoint hchild =>
    simp [work, hpoint, setChild, PipeShellPoint.work, hchild, PipeChildPoint.work]
  | waitSecond hpoint hchild =>
    simp [work, hpoint, setChild, PipeShellPoint.work, hchild, PipeChildPoint.work]
  -- A child that moves has one statement fewer.
  | @move c _ p hmove =>
    have hlt := hmove.work_lt
    cases c <;> simp [work, setChild] <;> omega
  | @start c p hpoint hline =>
    -- Starting the program costs nothing: it was to come.
    have hprogram : (s.program c).point = .unborn := by
      by_contra hne
      have hlate := (ho.started c hne).2
      rw [hpoint] at hlate
      exact hlate
    have hlt : p.work < (s.child c).point.work := by
      rw [hpoint]
      rcases hline with ⟨-, rfl⟩ | ⟨-, rfl⟩ <;> cases c <;>
        simp [afterCommand, PipeChildPoint.work]
    have hsame : ProgramPoint.running.work = (s.program c).point.work := by rw [hprogram]; rfl
    cases c <;> simp [work, setProgram, setChild] <;> omega
  -- A byte to write counts twice, a byte in the pipe once.
  | @wrote n table pipe hwriter hlookup hreaders hbytes =>
    have hlen : (s.toWrite.take n).length + (s.toWrite.drop n).length = s.toWrite.length := by
      rw [← List.length_append, List.take_append_drop]
    have hpos := List.length_pos_iff.mpr hbytes
    simp only [work, List.length_append]
    omega
  -- The writer dies with work left.
  | brokenPipe hwriter =>
    obtain ⟨hexecuting, -⟩ := ho.writer_running hwriter
    have hzombie : PipeChildPoint.zombie.work = 0 := rfl
    have hbusy : PipeChildPoint.executing.work = 3 := rfl
    have hexited : ProgramPoint.exited.work = 0 := rfl
    have hrunning : ProgramPoint.running.work = 1 := rfl
    unfold killWriter
    split
    · rename_i hline
      have hpoint := hexecuting hline
      simp [work, setChild, hpoint]
      omega
    · rename_i hline
      have hpoint : (s.program .first).point = .running := by
        unfold writerTable at hwriter
        rw [if_neg hline] at hwriter
        by_contra hne
        rw [if_neg hne] at hwriter
        cases hwriter
      simp [work, setProgram, hpoint]
      omega
  | @elsewhere n table hwriter hlookup hbytes =>
    have hlen : (s.toWrite.take n).length + (s.toWrite.drop n).length = s.toWrite.length := by
      rw [← List.length_append, List.take_append_drop]
    have hpos := List.length_pos_iff.mpr hbytes
    simp only [work]
    omega
  -- The end is seen once.
  | ended hpoint hdone =>
    have hsaw : s.sawEnd = false := by
      by_contra hsaw
      exact hdone (.inl (by simpa using hsaw))
    simp [work, hsaw]
  | read hpoint hdone hbytes hcontent =>
    have hpos := List.length_pos_iff.mpr hbytes
    simp only [work, hcontent, List.length_append]
    omega
  | @programExit c hpoint hdone =>
    have hexited : ProgramPoint.exited.work = 0 := rfl
    have hrunning : ProgramPoint.running.work = 1 := rfl
    -- The exit of the program is its last step.
    cases c <;> simp [work, setProgram, hpoint] <;> omega

/-! ## Some process can go on -/

/-- Some process can go on. -/
def CanMove (line : PipeLine) (s : Pipeline β) : Prop :=
  ∃ a s' out, (machine line β).step s a = .ok (s', out)

/-- Nothing goes wrong, so what does not have to wait is possible. -/
private theorem canMove_of_ne_stuck {a : PipelineAction}
    (h : (machine line β).step s a ≠ .stuck) : CanMove line s := by
  cases hstep : (machine line β).step s a with
  | stuck => exact absurd hstep h
  | fault e => exact e.elim
  | ok r => exact ⟨a, r.1, r.2, hstep⟩

/-- A step without output is possible if its computation is. -/
private theorem silent_ne_stuck {r : Outcome Empty (Pipeline β)} (h : r ≠ .stuck) :
    (do return (← r, []) : Outcome Empty (Pipeline β × List (PipelineEvent β))) ≠ .stuck :=
  Outcome.bind_ne_stuck h fun _ _ => by simp

/-- The kernel finds two descriptors for a pipe. -/
theorem exists_openPipe (t : FileTable) :
    ∃ fds t', (t.openPipe 0 fds : Outcome Empty FileTable) = .ok t' := by
  obtain ⟨r, hr⟩ := Infinite.exists_notMem_finset t.keys.toFinset
  obtain ⟨w, hw⟩ := Infinite.exists_notMem_finset (insert r t.keys.toFinset)
  rw [Finset.mem_insert, not_or] at hw
  refine ⟨(r, w), _, if_pos ⟨Ne.symm hw.1, fun h => hr ?_, fun h => hw.2 ?_⟩⟩
  · exact List.mem_toFinset.mpr (AList.mem_keys.mp h)
  · exact List.mem_toFinset.mpr (AList.mem_keys.mp h)

/-- The shell goes on unless it waits for a child or is at the end. -/
theorem canMove_of_shell (hwaits : s.shell.point ≠ .waitFirst ∧ s.shell.point ≠ .waitSecond)
    (hend : s.shell.point ≠ .returned ∧ s.shell.point ≠ .forkFailed) : CanMove line s := by
  cases hpoint : s.shell.point with
  | pipe =>
    obtain ⟨fds, t', hopen⟩ := exists_openPipe s.shell.table
    refine canMove_of_ne_stuck (a := .pipe fds) (silent_ne_stuck ?_)
    simp [makePipe, hpoint, hopen]
  | forkFirst | forkSecond | closeRead | closeWrite =>
    refine canMove_of_ne_stuck (a := .shell true) (silent_ne_stuck ?_)
    simp [shellStep, hpoint]
  | waitFirst => exact absurd hpoint hwaits.1
  | waitSecond => exact absurd hpoint hwaits.2
  | returned => exact absurd hpoint hend.1
  | forkFailed => exact absurd hpoint hend.2

/-- A child has nothing to do before it is born, after its end, and while it executes. -/
theorem canMove_of_child {c : PipeChild} (hborn : (s.child c).point ≠ .unborn)
    (hexecuting : (s.child c).point ≠ .executing)
    (hend : (s.child c).point ≠ .zombie ∧ (s.child c).point ≠ .reaped) : CanMove line s := by
  refine canMove_of_ne_stuck (a := .child c true) (silent_ne_stuck ?_)
  unfold childStep
  cases hpoint : (s.child c).point with
  | unborn => exact absurd hpoint hborn
  | executing => exact absurd hpoint hexecuting
  | zombie => exact absurd hpoint hend.1
  | reaped => exact absurd hpoint hend.2
  | execute => cases line.execution c <;> simp
  | _ => simp

/-- A child waits for its program only while that runs. -/
theorem canMove_of_waiting (ho : Order line s) {c : PipeChild}
    (hpoint : (s.child c).point = .executing) (hline : line.execution c ≠ .builtin)
    (hprogram : (s.program c).point ≠ .running) : CanMove line s := by
  obtain ⟨hforeground, hstarted⟩ := ho.executing c hpoint
  have hexited : (s.program c).point = .exited := by
    cases hp : (s.program c).point with
    | unborn =>
      -- It is a program in the foreground, which has been started.
      cases hexecution : line.execution c with
      | builtin => exact absurd hexecution hline
      | foreground => exact absurd hp (hstarted hexecution)
      | background => exact absurd hexecution hforeground
    | running => exact absurd hp hprogram
    | exited => rfl
  refine canMove_of_ne_stuck (a := .child c true) (silent_ne_stuck ?_)
  cases hexecution : line.execution c with
  | builtin => exact absurd hexecution hline
  | foreground | background => simp [childStep, hpoint, hexecution, hexited]

/-- The writer waits only while the pipe is full and somebody may read from it. -/
theorem canMove_of_writer (ht : Tables s) {table : FileTable}
    (hwriter : writerTable line s = some table) (hwrite : s.toWrite ≠ [])
    (hroom : s.pipe.content.length < s.pipe.capacity ∨ ¬ Held s (.readEnd 0)) :
    CanMove line s := by
  obtain ⟨b, rest, hrest⟩ := List.exists_cons_of_ne_nil hwrite
  refine canMove_of_ne_stuck (a := .write 1) ?_
  show writeStep line s 1 ≠ .stuck
  have htake : s.toWrite.take 1 = [b] := by rw [hrest]; rfl
  simp only [writeStep, hwriter, htake, ht.writer_lookup hwriter, List.cons_ne_nil, if_false]
  refine Outcome.bind_ne_stuck (Pipe.write_ne_stuck hroom) fun r _ => ?_
  cases r <;> simp

/-- The reader waits only while the pipe is empty and somebody may write to it. -/
theorem canMove_of_reader (ht : Tables s) (hpoint : (s.program .second).point = .running)
    (hcontent : s.pipe.content ≠ [] ∨ ¬ Held s (.writeEnd 0)) : CanMove line s := by
  by_cases hdone : readerDone s
  · refine canMove_of_ne_stuck (a := .programExit .second) (silent_ne_stuck ?_)
    unfold programExit
    rw [if_pos ⟨hpoint, hdone⟩]
    simp
  · refine canMove_of_ne_stuck (a := .read 1) ?_
    show readStep s 1 ≠ .stuck
    have hask : s.wants.elim 1 (min 1) ≠ 0 := by
      cases hwants : s.wants with
      | none => simp
      | some wants =>
        have hne : wants ≠ 0 := fun h => hdone (.inr (by rw [hwants, h]))
        show min 1 wants ≠ 0
        omega
    simp only [readStep, if_pos (And.intro hpoint hdone), ht.reader_lookup hpoint]
    refine Outcome.bind_ne_stuck (Pipe.read_ne_stuck hask hcontent) fun r _ => ?_
    split <;> simp

/-! ## At the end -/

/-- The shell has returned, the children and their programs have ended, the shell has waited for
    the children of a pipeline in the foreground, and nobody has an end of the pipe open. -/
structure Finished (line : PipeLine) (s : Pipeline β) : Prop where
  shell : s.shell.point = .returned
  child : ∀ c, (s.child c).point = .zombie ∨ (s.child c).point = .reaped
  waited : line.isBackGroundCommand = false → ∀ c, (s.child c).point = .reaped
  program : ∀ c, (s.program c).point ≠ .running
  closed : ¬ Held s (.readEnd 0) ∧ ¬ Held s (.writeEnd 0)

/-- What the processes have open once the shell has closed the pipe. -/
theorem Tables.held_iff (h : Tables s)
    (hshell : (s.shell.point.ends s.readWritePipes) = (∅, ∅)) :
    (Held s (.readEnd 0) ↔ (∃ c, ((s.child c).point.ends s.readWritePipes c).1 ≠ ∅) ∨
      ∃ c, ((s.program c).point.ends c).1 ≠ ∅) ∧
    (Held s (.writeEnd 0) ↔ (∃ c, ((s.child c).point.ends s.readWritePipes c).2 ≠ ∅) ∨
      ∃ c, ((s.program c).point.ends c).2 ≠ ∅) := by
  have hread := h.shell.holds_read
  have hwrite := h.shell.holds_write
  rw [hshell] at hread hwrite
  simp only [ne_eq, not_true_eq_false, iff_false] at hread hwrite
  constructor
  · rw [PipeCommand.held_iff]
    simp only [hread, false_or, (h.child _).holds_read, (h.program _).holds_read]
  · rw [PipeCommand.held_iff]
    simp only [hwrite, false_or, (h.child _).holds_write, (h.program _).holds_write]

/-- A process that has ended has nothing open. -/
theorem ends_of_ended {c : PipeChild} {p : PipeChildPoint} (h : p = .zombie ∨ p = .reaped)
    (fds : Int × Int) : p.ends fds c = (∅, ∅) := by
  rcases h with rfl | rfl <;> cases c <;> rfl

/-- A program that does not run has nothing open. -/
theorem ends_of_not_running {c : PipeChild} {p : ProgramPoint} (h : p ≠ .running) :
    p.ends c = (∅, ∅) := by
  cases p with
  | running => exact absurd rfl h
  | unborn | exited => cases c <;> rfl

/-- The first child does not read from the pipe, and the second one does not write to it. -/
theorem first_reads {p : PipeChildPoint} (h : p = .executing ∨ p = .zombie ∨ p = .reaped)
    (fds : Int × Int) : (p.ends fds .first).1 = ∅ := by
  rcases h with rfl | rfl | rfl <;> rfl

/-- The second child has no write end once it executes its command. -/
theorem second_writes {p : PipeChildPoint} (h : p = .executing ∨ p = .zombie ∨ p = .reaped)
    (fds : Int × Int) : (p.ends fds .second).2 = ∅ := by
  rcases h with rfl | rfl | rfl <;> rfl

/-- A child that cannot go on has ended, or executes its command. -/
private theorem ended_or_executing {c : PipeChild} (hstuck : ¬ CanMove line s)
    (hborn : (s.child c).point ≠ .unborn) :
    (s.child c).point = .executing ∨ (s.child c).point = .zombie ∨ (s.child c).point = .reaped := by
  by_contra hnot
  rw [not_or, not_or] at hnot
  exact hstuck (canMove_of_child hborn hnot.1 hnot.2)

/-- A writer with nothing left to write comes to its end. -/
private theorem canMove_of_written {table : FileTable} (hwriter : writerTable line s = some table)
    (hwrite : s.toWrite = []) : CanMove line s := by
  unfold writerTable at hwriter
  split at hwriter
  · rename_i hline
    split at hwriter
    · rename_i hpoint
      have hexecution : line.execution .first = .builtin := hline
      refine canMove_of_ne_stuck (a := .child .first true) (silent_ne_stuck ?_)
      simp [childStep, hpoint, hexecution, hwrite]
    · cases hwriter
  · split at hwriter
    · rename_i hpoint
      refine canMove_of_ne_stuck (a := .programExit .first) (silent_ne_stuck ?_)
      unfold programExit
      rw [if_pos ⟨hpoint, hwrite⟩]
      simp
    · cases hwriter

/-- With room in the pipe, or nobody to read from it, the writer does not wait. -/
private theorem no_writer (ht : Tables s) (hstuck : ¬ CanMove line s)
    (hroom : s.pipe.content.length < s.pipe.capacity ∨ ¬ Held s (.readEnd 0)) :
    writerTable line s = none := by
  cases hwriter : writerTable line s with
  | none => rfl
  | some table =>
    refine absurd ?_ hstuck
    by_cases hwrite : s.toWrite = []
    · exact canMove_of_written hwriter hwrite
    · exact canMove_of_writer ht hwriter hwrite hroom

/-- Without a writer the first child and its program have nothing to do. -/
private theorem first_ended (ho : Order line s) (hstuck : ¬ CanMove line s)
    (hwriter : writerTable line s = none) (hborn : (s.child .first).point ≠ .unborn) :
    ((s.child .first).point = .zombie ∨ (s.child .first).point = .reaped) ∧
      (s.program .first).point ≠ .running := by
  unfold writerTable at hwriter
  by_cases hline : line.first = .builtin
  · rw [if_pos hline] at hwriter
    refine ⟨(ended_or_executing hstuck hborn).resolve_left fun h => ?_, fun h => ?_⟩
    · rw [if_pos h] at hwriter
      cases hwriter
    · exact (ho.started .first (by simp [h])).1 hline
  · rw [if_neg hline] at hwriter
    have hrunning : (s.program .first).point ≠ .running := fun h => by
      rw [if_pos h] at hwriter
      cases hwriter
    refine ⟨(ended_or_executing hstuck hborn).resolve_left fun h => ?_, hrunning⟩
    exact hstuck (canMove_of_waiting ho h hline hrunning)

/-- The program of the second command would read what is there, or find the end. -/
private theorem second_ended (ho : Order line s) (ht : Tables s) (hcap : 0 < s.pipe.capacity)
    (hstuck : ¬ CanMove line s) (hshell : s.shell.point.ends s.readWritePipes = (∅, ∅))
    (hborn : ∀ c, (s.child c).point ≠ .unborn) :
    ((s.child .second).point = .zombie ∨ (s.child .second).point = .reaped) ∧
      (s.program .second).point ≠ .running := by
  have hchild := ended_or_executing hstuck (hborn .second)
  -- The second program would read what is there, or see the end.
  have hprogram : (s.program .second).point ≠ .running := by
    intro hpoint
    have hcontent : s.pipe.content = [] := by
      by_contra hne
      exact hstuck (canMove_of_reader ht hpoint (.inl hne))
    have hroom : s.pipe.content.length < s.pipe.capacity := by rw [hcontent]; exact hcap
    obtain ⟨hfirst, hfirstProgram⟩ :=
      first_ended ho hstuck (no_writer ht hstuck (.inl hroom)) (hborn .first)
    -- Nobody is left who could write.
    refine hstuck (canMove_of_reader ht hpoint (.inr ?_))
    rw [(ht.held_iff hshell).2]
    -- First the children, then the programs: none has the write end.
    rintro (⟨c, hc⟩ | ⟨c, hc⟩)
    · cases c with
      | first => exact hc (by rw [ends_of_ended hfirst])
      | second => exact hc (second_writes hchild _)
    · cases c with
      | first => exact hc (by rw [ends_of_not_running hfirstProgram])
      | second => exact hc (by rw [hpoint]; rfl)
  -- A builtin goes on by itself, a program that has not been started or has ended lets it go on.
  refine ⟨hchild.resolve_left fun hpoint => ?_, hprogram⟩
  by_cases hline : line.execution .second = .builtin
  · refine hstuck (canMove_of_ne_stuck (a := .child .second true) (silent_ne_stuck ?_))
    simp [childStep, hpoint, hline]
  · exact hstuck (canMove_of_waiting ho hpoint hline hprogram)

/-- The shell does not wait for a child that has ended. -/
private theorem shell_returned (ho : Order line s) (hstuck : ¬ CanMove line s)
    (hshell : s.shell.point = .waitFirst ∨ s.shell.point = .waitSecond ∨
      s.shell.point = .returned)
    (hended : ∀ c, (s.child c).point = .zombie ∨ (s.child c).point = .reaped) :
    s.shell.point = .returned := by
  rcases hshell with hpoint | hpoint | hpoint
  · have hzombie := (hended .first).resolve_right fun h => by
      rcases ho.first_reaped.mp h with h | h <;> simp [hpoint] at h
    refine absurd (canMove_of_ne_stuck (a := .shell true) (silent_ne_stuck ?_)) hstuck
    simp [shellStep, hpoint, waitChild, hzombie]
  · have hzombie := (hended .second).resolve_right fun h => by
      have hreturned := ho.second_reaped.mp h
      simp [hpoint] at hreturned
    refine absurd (canMove_of_ne_stuck (a := .shell true) (silent_ne_stuck ?_)) hstuck
    simp [shellStep, hpoint, waitChild, hzombie]
  · exact hpoint

/-- A pipeline with both children started that cannot go on is finished. -/
theorem finished_of_not_canMove (ho : Order line s) (ht : Tables s) (hcap : 0 < s.pipe.capacity)
    (hstuck : ¬ CanMove line s) (hforked : s.shell.point ≠ .forkFailed) : Finished line s := by
  -- The shell could go on unless it waits or has returned.
  have hshell : s.shell.point = .waitFirst ∨ s.shell.point = .waitSecond ∨
      s.shell.point = .returned := by
    by_contra hnot
    rw [not_or, not_or] at hnot
    exact hstuck (canMove_of_shell ⟨hnot.1, hnot.2.1⟩ ⟨hnot.2.2, hforked⟩)
  have hends : s.shell.point.ends s.readWritePipes = (∅, ∅) := by
    rcases hshell with h | h | h <;> rw [h] <;> rfl
  -- Then both children are born.
  have hborn : ∀ c, (s.child c).point ≠ .unborn := by
    intro c hc
    cases c with
    | first => rcases ho.first_born hc with h | h | h <;> simp [h] at hshell hforked
    | second => rcases ho.second_unborn.mp hc with h | h | h | h <;> simp [h] at hshell hforked
  have hsecond := second_ended ho ht hcap hstuck hends hborn
  obtain ⟨hreaders, hwriters⟩ := ht.held_iff hends
  -- Neither the first child nor anyone who has ended holds the read end.
  have hnoReaders : ¬ Held s (.readEnd 0) := by
    rw [hreaders]
    rintro (⟨c, hc⟩ | ⟨c, hc⟩)
    · cases c with
      | first => exact hc (first_reads (ended_or_executing hstuck (hborn .first)) _)
      | second => exact hc (by rw [ends_of_ended hsecond.1])
    · cases c with
      | first => cases hp : (s.program .first).point <;> rw [hp] at hc <;> exact hc rfl
      | second => exact hc (by rw [ends_of_not_running hsecond.2])
  -- With no reader the writer does not wait either.
  have hfirst := first_ended ho hstuck (no_writer ht hstuck (.inr hnoReaders)) (hborn .first)
  have hended : ∀ c, ((s.child c).point = .zombie ∨ (s.child c).point = .reaped) ∧
      (s.program c).point ≠ .running := fun c => by
    cases c with
    | first => exact hfirst
    | second => exact hsecond
  -- Everybody has ended, so nobody holds the write end.
  have hnoWriters : ¬ Held s (.writeEnd 0) := by
    rw [hwriters]
    rintro (⟨c, hc⟩ | ⟨c, hc⟩)
    · exact hc (by rw [ends_of_ended (hended c).1])
    · exact hc (by rw [ends_of_not_running (hended c).2])
  -- And so the shell was let go by its two waits.
  have hreturned := shell_returned ho hstuck hshell fun c => (hended c).1
  refine ⟨hreturned, fun c => (hended c).1, fun hline c => ?_, fun c => (hended c).2, hnoReaders,
    hnoWriters⟩
  cases c with
  | first => exact ho.first_reaped.mpr (.inr ⟨hreturned, hline⟩)
  | second => exact ho.second_reaped.mpr ⟨hreturned, hline⟩

/-! ## Runs -/

/-- A table with standard input and output and nothing of a pipe. -/
def Standard (table : FileTable) : Prop :=
  0 ∈ table ∧ 1 ∈ table ∧ table.Ends 0 (∅, ∅)

/-- No step changes how much the pipe holds. -/
theorem Steps.capacity (h : Steps line s a s' out) : s'.pipe.capacity = s.pipe.capacity := by
  cases h with
  | read _ _ _ _ hcapacity => exact hcapacity
  | brokenPipe =>
    unfold killWriter
    split <;> rfl
  | _ => rfl

/-- What holds in every state that a pipeline reaches. -/
structure Reached (line : PipeLine) (capacity : Nat) (output : List β) (wants : Option Nat)
    (s : Pipeline β) (out : List (PipelineEvent β)) : Prop where
  order : Order line s
  tables : Tables s
  flow : Flow line output wants s out
  capacity : s.pipe.capacity = capacity

variable {table : FileTable} {capacity : Nat} {output : List β} {wants : Option Nat}
  {acts : List PipelineAction}

/-- The invariants hold at the start. -/
theorem reached_initial (htable : Standard table) :
    Reached line capacity output wants (initial table capacity output wants) [] where
  order := by
    constructor <;> simp [initial]
  tables := ⟨fun _ => ⟨htable.1, htable.2.1⟩, fun h => absurd rfl h, htable.2.2,
    fun c => by cases c <;> exact ⟨rfl, rfl⟩, fun c => by cases c <;> exact ⟨rfl, rfl⟩⟩
  flow := by
    constructor <;> simp [initial, written, received]
    simp [PipeChildPoint.Late]
  capacity := rfl

/-- The invariants hold in every state that is reached. -/
theorem exec_reached (htable : Standard table)
    (h : (machine line β).exec (initial table capacity output wants) acts = .ok (s, out)) :
    Reached line capacity output wants s out := by
  refine Machine.exec_invariant (reached_initial htable) ?_ h
  intro s out a s' o hs hstep
  have hsteps := step_cases hstep
  exact ⟨hsteps.order hs.order, hsteps.tables hs.order hs.tables,
    hsteps.flow hs.order hs.tables hs.flow, hsteps.capacity.trans hs.capacity⟩

/-- Who has found the end of the stream has read everything, if the first command has run. -/
theorem Reached.received_eq (h : Reached line capacity output wants s out)
    (hended : .ended ∈ out) (hstarted : Started line s .first) : received out = output := by
  -- The end was seen: the pipe is empty and has no writer.
  have hsaw := h.flow.ended.mp hended
  obtain ⟨hcontent, hwriters⟩ := h.flow.atEnd hsaw
  have hbroken : PipelineEvent.brokenPipe ∉ out := fun hbroken => by
    rw [(h.flow.broken hbroken).2] at hsaw
    cases hsaw
  -- The writer is gone.
  have hnone : writerTable line s = none := by
    cases hwriter : writerTable line s with
    | none => rfl
    | some table => exact absurd (h.tables.held_of_writer hwriter) hwriters
  -- It left with nothing to write, since the pipe did not break.
  have hwrite : s.toWrite = [] := by
    unfold writerTable at hnone
    unfold Started at hstarted
    -- A builtin has left its point, a program has exited.
    by_cases hline : line.first = .builtin
    · rw [if_pos hline] at hnone
      rw [if_pos (show line.execution .first = .builtin from hline)] at hstarted
      have hne : (s.child .first).point ≠ .executing := fun h => by
        rw [if_pos h] at hnone
        cases hnone
      exact (h.flow.builtin hline hstarted hne).resolve_right hbroken
    · rw [if_neg hline] at hnone
      rw [if_neg (show line.execution .first ≠ .builtin from hline)] at hstarted
      have hexited : (s.program .first).point = .exited := by
        cases hpoint : (s.program .first).point with
        | unborn => exact absurd hpoint hstarted
        | running =>
          rw [if_pos hpoint] at hnone
          cases hnone
        | exited => rfl
      exact (h.flow.program hexited).resolve_right hbroken
  have hsent := h.flow.sent
  have horder := h.flow.order
  rw [hwrite, List.append_nil] at hsent
  rw [hcontent, List.append_nil] at horder
  exact horder.symm.trans hsent.symm

/-- The children of a pipeline drain it. -/
theorem drains (hcap : 0 < capacity) : (machine line β).Drains
    (fun s => Order line s ∧ Tables s ∧ s.pipe.capacity = capacity) (fun _ => true) (fun _ => 0)
    (fun s => s.shell.point = .forkFailed ∨ Finished line s) work where
  keeps s a s' o hs hstep := by
    have hsteps := step_cases hstep
    exact ⟨hsteps.order hs.1, hsteps.tables hs.1 hs.2.1, hsteps.capacity.trans hs.2.2⟩
  own_step s a s' o hs _ hstep := (step_cases hstep).work_lt hs.1
  input_step s a s' o hs hown _ := absurd rfl hown
  progress s hs hrest := by
    rw [not_or] at hrest
    by_contra hnot
    refine hrest.2 (finished_of_not_canMove hs.1 hs.2.1 (hs.2.2 ▸ hcap) ?_ hrest.1)
    rintro ⟨a, s', o, hstep⟩
    exact hnot ⟨a, s', o, rfl, hstep⟩

/-- Standard input, output and error. -/
def standardTable : FileTable := (((∅ : FileTable).set 0 .other).set 1 .other).set 2 .other

/-- Two programs, a pipe for two bytes and three bytes to send. -/
def twoProgramsRun : List PipelineAction :=
  [.pipe (3, 4), .shell true, .shell true, .child .first true, .child .first true,
    .child .first true, .child .first true, .write 2, .child .second true, .child .second true,
    .child .second true, .child .second true, .read 1, .write 1, .programExit .first,
    .shell true, .shell true, .read 5, .child .first true, .child .first true,
    .child .first true, .shell true, .read 1, .programExit .second, .child .second true,
    .child .second true, .shell true]

/-- The table with the three standard descriptors is one. -/
theorem standardTable_standard : Standard standardTable :=
  ⟨by decide, by decide, by decide, by decide⟩

/-- What has left the first command is what has arrived at the second one, and what is still in
    the pipe, in the same order; nothing goes elsewhere. The second command finds the end of the
    stream only when nobody can write any more, and has then read everything that the first one
    had to write, if that has been started. -/
theorem pipeline_transports (line : PipeLine) (table : FileTable) (capacity : Nat)
    (output : List β) (wants : Option Nat) (htable : Standard table)
    (acts : List PipelineAction) (s : Pipeline β) (out : List (PipelineEvent β))
    (h : (machine line β).exec (initial table capacity output wants) acts = .ok (s, out)) :
    output = received out ++ s.pipe.content ++ s.toWrite ∧
    (∀ bytes, .elsewhere bytes ∉ out) ∧
    (.brokenPipe ∈ out → ¬ Held s (.readEnd 0)) ∧
    (.ended ∈ out → ¬ Held s (.writeEnd 0) ∧ s.pipe.content = [] ∧
      (Started line s .first → received out = output)) := by
  have hs := exec_reached htable h
  refine ⟨?_, hs.flow.here, fun hbroken => (hs.flow.broken hbroken).1, fun hended => ?_⟩
  · rw [← hs.flow.order]
    exact hs.flow.sent
  · obtain ⟨hcontent, hwriters⟩ := hs.flow.atEnd (hs.flow.ended.mp hended)
    exact ⟨hwriters, hcontent, hs.received_eq hended⟩

theorem pipeline_transports_twoProgramsRun :
    let line : PipeLine := ⟨.foreground, .foreground, false⟩
    ∃ s out, (machine line Nat).exec (initial standardTable 2 [7, 8, 9] none) twoProgramsRun =
        .ok (s, out) ∧
      out = [.wrote [7, 8], .read [7], .wrote [9], .read [8, 9], .ended] ∧
      [7, 8, 9] = received out ++ s.pipe.content ++ s.toWrite ∧
      (∀ bytes, .elsewhere bytes ∉ out) ∧
      (.brokenPipe ∈ out → ¬ Held s (.readEnd 0)) ∧
      (.ended ∈ out → ¬ Held s (.writeEnd 0) ∧ s.pipe.content = [] ∧
        (Started line s .first → received out = [7, 8, 9])) :=
  ⟨_, _, rfl, rfl, pipeline_transports ⟨.foreground, .foreground, false⟩ standardTable 2 [7, 8, 9]
    none standardTable_standard twoProgramsRun _ _ rfl⟩

end PipeCommand

end OsWet
