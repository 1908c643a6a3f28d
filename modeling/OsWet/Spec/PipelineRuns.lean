import OsWet.Spec.PipelineSteps

/-!
# What holds along the runs of a pipeline

Three invariants, each with its step lemma. `Order` says who has started, who has ended and who
waits for whom; `Tables` says which ends of the pipe each process has open at each point of its
code; `Flow` is the account of the bytes, which needs the other two: the end of the stream, and
a broken pipe, are about what nobody has open.

- `Steps.order`, `Steps.tables`, `Steps.flow`: every step keeps them
- `Steps.held`: an end that nobody has open stays so
-/

namespace OsWet

/-- The child has got to its command. -/
def PipeChildPoint.Late : PipeChildPoint → Prop
  | .unborn | .redirect | .closeRead | .closeWrite | .execute => False
  | .executing | .closeOutput | .exit | .zombie | .reaped => True

/-- The descriptors of the shell for the two ends of the pipe, at each point. -/
def PipeShellPoint.ends (fds : Int × Int) : PipeShellPoint → Finset Int × Finset Int
  | .forkFirst | .forkSecond | .closeRead | .forkFailed => ({fds.1}, {fds.2})
  | .closeWrite => (∅, {fds.2})
  | .pipe | .waitFirst | .waitSecond | .returned => (∅, ∅)

/-- Those of a child. -/
def PipeChildPoint.ends (fds : Int × Int) : PipeChild → PipeChildPoint → Finset Int × Finset Int
  | _, .redirect => ({fds.1}, {fds.2})
  | .first, .closeRead => ({fds.1}, {1, fds.2})
  | .first, .closeWrite => (∅, {1, fds.2})
  | .first, .execute | .first, .executing | .first, .closeOutput => (∅, {1})
  | .second, .closeRead => ({0, fds.1}, {fds.2})
  | .second, .closeWrite => ({0}, {fds.2})
  | .second, .execute | .second, .executing | .second, .closeOutput | .second, .exit => ({0}, ∅)
  | .first, .exit | _, .unborn | _, .zombie | _, .reaped => (∅, ∅)

/-- Those of the program of a child. -/
def ProgramPoint.ends : PipeChild → ProgramPoint → Finset Int × Finset Int
  | .first, .running => (∅, {1})
  | .second, .running => ({0}, ∅)
  | _, .unborn | _, .exited => (∅, ∅)

namespace PipeCommand

variable {β : Type} {line : PipeLine} {s s' : Pipeline β} {a : PipelineAction}
  {out : List (PipelineEvent β)}

/-! ## The order of the steps -/

/-- Who has started, who has ended, and who waits for whom. -/
structure Order (line : PipeLine) (s : Pipeline β) : Prop where
  first_unborn : s.shell.point = .pipe ∨ s.shell.point = .forkFirst →
    (s.child .first).point = .unborn
  first_born : (s.child .first).point = .unborn →
    s.shell.point = .pipe ∨ s.shell.point = .forkFirst ∨ s.shell.point = .forkFailed
  second_unborn : (s.child .second).point = .unborn ↔ s.shell.point = .pipe ∨
    s.shell.point = .forkFirst ∨ s.shell.point = .forkSecond ∨ s.shell.point = .forkFailed
  second_output : (s.child .second).point ≠ .closeOutput
  started : ∀ c, (s.program c).point ≠ .unborn → line.execution c ≠ .builtin ∧
    PipeChildPoint.Late (s.child c).point
  executing : ∀ c, (s.child c).point = .executing → line.execution c ≠ .background ∧
    (line.execution c = .foreground → (s.program c).point ≠ .unborn)
  waited : ∀ c, line.execution c = .foreground → (s.child c).point ≠ .executing →
    (s.program c).point ≠ .running
  waits : s.shell.point = .waitFirst ∨ s.shell.point = .waitSecond →
    line.isBackGroundCommand = false
  first_reaped : (s.child .first).point = .reaped ↔ s.shell.point = .waitSecond ∨
    s.shell.point = .returned ∧ line.isBackGroundCommand = false
  second_reaped : (s.child .second).point = .reaped ↔
    s.shell.point = .returned ∧ line.isBackGroundCommand = false

/-- How a child that goes on by itself gets on. -/
structure Advances (line : PipeLine) (s : Pipeline β) (c : PipeChild) (p p' : PipeChildPoint) :
    Prop where
  born : p ≠ .unborn ∧ p' ≠ .unborn
  not_reaped : p ≠ .reaped ∧ p' ≠ .reaped
  late : p.Late → p'.Late
  output : c = .second → p' ≠ .closeOutput
  executing : p' = .executing → line.execution c = .builtin
  executed : p = .executing → line.execution c = .builtin ∨ (s.program c).point = .exited

/-- How a child gets on from one statement to the next. -/
theorem ChildMove.advances {c : PipeChild} {p : PipeChildPoint} {p' : PipeProcess PipeChildPoint}
    (h : ChildMove line s c p p') : Advances line s c p p'.point := by
  cases c <;> cases h <;> constructor <;> simp_all [PipeChildPoint.Late, afterCommand]

/-- Every step keeps the order. -/
theorem Steps.order (h : Steps line s a s' out) (hs : Order line s) : Order line s' := by
  obtain ⟨h1, h2, h3, h4, h5, h6, h7, h8, h9, h10⟩ := hs
  cases h with
  | pipe | forkFails | closeRead | closeWrite => constructor <;> grind
  | wrote | elsewhere | ended | read => constructor <;> assumption
  | forkFirst | forkSecond | waitFirst | waitSecond =>
    constructor <;> grind [PipeChildPoint.Late]
  | @move c _ _ hmove =>
    obtain ⟨hborn, hreaped, hlate, houtput, hexecuting, hexecuted⟩ := hmove.advances
    constructor <;> grind
  | @start c _ hpoint hline =>
    cases c <;> constructor <;> grind [PipeChildPoint.Late, afterCommand]
  | brokenPipe hwriter =>
    constructor <;> grind [PipeChildPoint.Late, killWriter, writerTable, PipeLine.execution]
  | programExit hpoint => constructor <;> grind [PipeChildPoint.Late]

/-! ## Who has which end open -/

/-- Every process has the descriptors that its point says. -/
structure Tables (s : Pipeline β) : Prop where
  std : s.shell.point = .pipe → 0 ∈ s.shell.table ∧ 1 ∈ s.shell.table
  fresh : s.shell.point ≠ .pipe → s.readWritePipes.1 ≠ s.readWritePipes.2 ∧
    s.readWritePipes.1 ≠ 0 ∧ s.readWritePipes.1 ≠ 1 ∧ s.readWritePipes.2 ≠ 0 ∧
    s.readWritePipes.2 ≠ 1
  shell : s.shell.table.Ends 0 (s.shell.point.ends s.readWritePipes)
  child : ∀ c, (s.child c).table.Ends 0 ((s.child c).point.ends s.readWritePipes c)
  program : ∀ c, (s.program c).table.Ends 0 ((s.program c).point.ends c)

/-- Closing another descriptor leaves the one that is open. -/
private theorem erase_of_ne {a b : Int} (h : a ≠ b) : ({a} : Finset Int).erase b = {a} :=
  Finset.erase_eq_of_notMem (by simpa using h.symm)

/-- Closing the second of two descriptors leaves the first. -/
private theorem erase_second {a b : Int} (h : a ≠ b) : ({a, b} : Finset Int).erase b = {a} := by
  rw [Finset.pair_comm, Finset.erase_insert (by simpa using h.symm)]

/-- A child that goes on keeps the descriptors that it should have. -/
theorem ChildMove.ends {c : PipeChild} {p : PipeChildPoint} {p' : PipeProcess PipeChildPoint}
    (h : ChildMove line s c p p') (hp : (s.child c).table.Ends 0 (p.ends s.readWritePipes c))
    (hfresh : s.readWritePipes.1 ≠ s.readWritePipes.2 ∧ s.readWritePipes.1 ≠ 0 ∧
      s.readWritePipes.1 ≠ 1 ∧ s.readWritePipes.2 ≠ 0 ∧ s.readWritePipes.2 ≠ 1) :
    p'.table.Ends 0 (p'.point.ends s.readWritePipes c) := by
  obtain ⟨hne, hr0, hr1, hw0, hw1⟩ := hfresh
  generalize hfds : s.readWritePipes = fds at *
  obtain ⟨r, w⟩ := fds
  -- Only three statements change a table: `dup2`, which adds one number, and the two `close`.
  cases h with
  | redirectFirst =>
    have hends := hp.dup2_write (Finset.mem_singleton_self w) 1
    simp only [PipeChildPoint.ends, erase_of_ne hr1] at hends ⊢
    rwa [hfds]
  | redirectSecond =>
    have hends := hp.dup2_read (Finset.mem_singleton_self r) 0
    simp only [PipeChildPoint.ends, erase_of_ne hw0] at hends ⊢
    rwa [hfds]
  -- The first child closes an end it does not use, the second the one it has just copied.
  | closeRead =>
    have hends := hp.close r
    rw [hfds]
    cases c with
    | first =>
      rw [PipeChildPoint.ends, Finset.erase_singleton,
        Finset.erase_eq_of_notMem (by simp [hr1, hne])] at hends
      exact hends
    | second =>
      rw [PipeChildPoint.ends, erase_second hr0.symm, erase_of_ne hne.symm] at hends
      exact hends
  | closeWrite =>
    have hends := hp.close w
    rw [hfds]
    cases c with
    | first =>
      rw [PipeChildPoint.ends, Finset.erase_empty, erase_second hw1.symm] at hends
      exact hends
    | second =>
      rw [PipeChildPoint.ends, Finset.erase_singleton, erase_of_ne hw0.symm] at hends
      exact hends
  -- These statements do not touch the table.
  | builtin | notStarted | builtinDone | programDone => cases c <;> exact hp
  -- The first child closes its output after its command; the second has none in the pipe.
  | closeOutput =>
    have hends := hp.close 1
    cases c with
    | first =>
      rw [PipeChildPoint.ends, Finset.erase_empty, Finset.erase_singleton] at hends
      exact hends
    | second =>
      rw [PipeChildPoint.ends, Finset.erase_empty, erase_of_ne (by decide)] at hends
      exact hends
  | exit => cases c <;> exact ⟨rfl, rfl⟩

/-- Every step keeps the tables. -/
theorem Steps.tables (h : Steps line s a s' out) (ho : Order line s) (hs : Tables s) :
    Tables s' := by
  -- What a process that does not move has open is the same as before.
  obtain ⟨hstd, hfresh, hshell, hchild, hprogram⟩ := hs
  cases h with
  | @pipe fds table hpoint hopen =>
    obtain ⟨h0, h1⟩ := hstd hpoint
    rw [hpoint] at hshell
    obtain ⟨hne, hr, hw, hreads, hwrites⟩ := FileTable.openPipe_eq_ok hopen hshell.1 hshell.2
    -- The kernel chooses neither standard input nor standard output, which are open.
    have hnot : ∀ {fd : Int}, fd ∉ s.shell.table → fd ≠ 0 ∧ fd ≠ 1 := fun hfd =>
      ⟨fun h => hfd (h ▸ h0), fun h => hfd (h ▸ h1)⟩
    have hfirst := ho.first_unborn (.inl hpoint)
    have hsecond := ho.second_unborn.mpr (.inl hpoint)
    refine ⟨(fun h => by cases h),
      fun _ => ⟨hne, (hnot hr).1, (hnot hr).2, (hnot hw).1, (hnot hw).2⟩,
      ⟨hreads, hwrites⟩, fun c => ?_, hprogram⟩
    -- No child is born, so the new descriptors do not matter to them.
    have hc := hchild c
    cases c with
    | first =>
      rw [hfirst] at hc
      show FileTable.Ends _ 0 ((s.child .first).point.ends fds .first)
      rw [hfirst]
      exact hc
    | second =>
      rw [hsecond] at hc
      show FileTable.Ends _ 0 ((s.child .second).point.ends fds .second)
      rw [hsecond]
      exact hc
  -- A fork gives the child a copy of the shell's table and changes no other.
  | forkFirst hpoint =>
    rw [hpoint] at hshell
    refine ⟨(fun h => by cases h), fun _ => hfresh (by simp [hpoint]), hshell, fun c => ?_,
      hprogram⟩
    cases c with
    | first => exact hshell
    | second => exact hchild .second
  | forkSecond hpoint =>
    rw [hpoint] at hshell
    refine ⟨(fun h => by cases h), fun _ => hfresh (by simp [hpoint]), hshell, fun c => ?_,
      hprogram⟩
    cases c with
    | first => exact hchild .first
    | second => exact hshell
  -- A failed `fork` gives up the command: the shell keeps both ends.
  | forkFails hpoint =>
    have hnot : s.shell.point ≠ .pipe := by
      rintro h
      simp [h] at hpoint
    refine ⟨(fun h => by cases h), fun _ => hfresh hnot, ?_, hchild, hprogram⟩
    rcases hpoint with hpoint | hpoint <;> rw [hpoint] at hshell <;> exact hshell
  -- The shell closes one end, then the other, which is another number.
  | closeRead hpoint =>
    have hfresh := hfresh (by simp [hpoint])
    rw [hpoint] at hshell
    have hends := hshell.close s.readWritePipes.1
    rw [PipeShellPoint.ends, Finset.erase_singleton, erase_of_ne hfresh.1.symm] at hends
    exact ⟨(fun h => by cases h), fun _ => hfresh, hends, hchild, hprogram⟩
  | closeWrite hpoint =>
    have hfresh := hfresh (by simp [hpoint])
    rw [hpoint] at hshell
    have hends := hshell.close s.readWritePipes.2
    rw [PipeShellPoint.ends, Finset.erase_singleton, Finset.erase_empty] at hends
    refine ⟨fun h => ?_, fun _ => hfresh, ?_, hchild, hprogram⟩
    · -- After the second `close` the shell waits for a child or is done; the table is the same.
      simp only at h
      split at h <;> cases h
    · show FileTable.Ends _ 0 (PipeShellPoint.ends _ (if _ then _ else _))
      split <;> exact hends
  -- A child that is waited for has exited, and its table is empty before and after.
  | waitFirst hpoint hzombie =>
    rw [hpoint] at hshell
    refine ⟨(fun h => by cases h), fun _ => hfresh (by simp [hpoint]), hshell, fun c => ?_,
      hprogram⟩
    have hc := hchild c
    cases c with
    | first =>
      rw [hzombie] at hc
      exact hc
    | second => exact hc
  | waitSecond hpoint hzombie =>
    rw [hpoint] at hshell
    refine ⟨(fun h => by cases h), fun _ => hfresh (by simp [hpoint]), hshell, fun c => ?_,
      hprogram⟩
    have hc := hchild c
    cases c with
    | first => exact hc
    | second =>
      rw [hzombie] at hc
      exact hc
  -- The child that moves exists, so the pipe does.
  | @move c _ p hmove =>
    obtain hborn := hmove.advances.born.1
    have hstarted : s.shell.point ≠ .pipe := by
      intro h
      cases c with
      | first => exact hborn (ho.first_unborn (.inl h))
      | second => exact hborn (ho.second_unborn.mpr (.inl h))
    have hends := hmove.ends (hchild c) (hfresh hstarted)
    refine ⟨hstd, hfresh, hshell, fun c' => ?_, hprogram⟩
    rw [setChild_child]
    split
    · rename_i hc
      rw [hc]
      exact hends
    · exact hchild c'
  -- The program starts with the table of the child that forked it.
  | @start c p hpoint hline =>
    have hc := hchild c
    rw [hpoint] at hc
    refine ⟨hstd, hfresh, hshell, fun c' => ?_, fun c' => ?_⟩
    · rw [setProgram_child, setChild_child]
      split
      · rename_i hc'
        rw [hc']
        -- A foreground child waits with the same table, a background one goes on with it.
        obtain ⟨-, rfl⟩ | ⟨-, rfl⟩ := hline <;> cases c <;> exact hc
      · exact hchild c'
    · rw [setProgram_program]
      split
      · rename_i hc'
        rw [hc']
        cases c <;> exact hc
      · exact hprogram c'
  -- Bytes move; no table changes.
  | wrote | elsewhere | ended | read => exact ⟨hstd, hfresh, hshell, hchild, hprogram⟩
  -- The writer dies: what it had open is closed.
  | brokenPipe =>
    unfold killWriter
    split
    · refine ⟨hstd, hfresh, hshell, fun c' => ?_, hprogram⟩
      rw [setChild_child]
      split
      · rename_i hc'
        rw [hc']
        exact ⟨rfl, rfl⟩
      · exact hchild c'
    · refine ⟨hstd, hfresh, hshell, hchild, fun c' => ?_⟩
      rw [setProgram_program]
      split
      · rename_i hc'
        rw [hc']
        exact ⟨rfl, rfl⟩
      · exact hprogram c'
  -- So does a program that exits.
  | @programExit c =>
    refine ⟨hstd, hfresh, hshell, hchild, fun c' => ?_⟩
    rw [setProgram_program]
    split
    · cases c' <;> exact ⟨rfl, rfl⟩
    · exact hprogram c'

/-! ## What becomes of the output -/

/-- What the first command has written to the pipe, and what the second one has read. -/
def written (out : List (PipelineEvent β)) : List β :=
  out.flatMap fun | .wrote bytes => bytes | _ => []

/-- What the second command has read. -/
def received (out : List (PipelineEvent β)) : List β :=
  out.flatMap fun | .read bytes => bytes | _ => []

@[simp] theorem written_append (out out' : List (PipelineEvent β)) :
    written (out ++ out') = written out ++ written out' := List.flatMap_append

@[simp] theorem received_append (out out' : List (PipelineEvent β)) :
    received (out ++ out') = received out ++ received out' := List.flatMap_append

/-- The command of a child runs, or has run. -/
def Started (line : PipeLine) (s : Pipeline β) (c : PipeChild) : Prop :=
  if line.execution c = .builtin then (s.child c).point.Late else (s.program c).point ≠ .unborn

/-- The account of the bytes. -/
structure Flow (line : PipeLine) (output : List β) (wants : Option Nat) (s : Pipeline β)
    (out : List (PipelineEvent β)) : Prop where
  start : s.shell.point = .pipe → s.sawEnd = false ∧ .brokenPipe ∉ out
  sent : output = written out ++ s.toWrite
  order : written out = received out ++ s.pipe.content
  here : ∀ bytes, .elsewhere bytes ∉ out
  ended : .ended ∈ out ↔ s.sawEnd = true
  atEnd : s.sawEnd = true → s.pipe.content = [] ∧ ¬ Held s (.writeEnd 0)
  /-- The pipe only breaks when nobody has the read end open, and stays broken. -/
  broken : .brokenPipe ∈ out → ¬ Held s (.readEnd 0) ∧ s.sawEnd = false
  /-- A command that has run to its end has written everything. -/
  builtin : line.first = .builtin → (s.child .first).point.Late →
    (s.child .first).point ≠ .executing → s.toWrite = [] ∨ .brokenPipe ∈ out
  program : (s.program .first).point = .exited → s.toWrite = [] ∨ .brokenPipe ∈ out
  reader : (s.program .second).point = .exited → readerDone s
  wants : wants = none → s.wants = none

/-- Somebody has a file open: the shell, a child or a program. -/
theorem held_iff {file : OpenFile} : Held s file ↔ s.shell.table.Holds file ∨
    (∃ c, (s.child c).table.Holds file) ∨ ∃ c, (s.program c).table.Holds file := by
  constructor
  · rintro (h | h | h | h | h)
    · exact .inl h
    · exact .inr (.inl ⟨_, h⟩)
    · exact .inr (.inl ⟨_, h⟩)
    · exact .inr (.inr ⟨_, h⟩)
    · exact .inr (.inr ⟨_, h⟩)
  · rintro (h | ⟨c, h⟩ | ⟨c, h⟩)
    · exact .inl h
    · cases c with
      | first => exact .inr (.inl h)
      | second => exact .inr (.inr (.inl h))
    · cases c with
      | first => exact .inr (.inr (.inr (.inl h)))
      | second => exact .inr (.inr (.inr (.inr h)))

/-- A child that goes on opens nothing. -/
theorem ChildMove.holds {c : PipeChild} {p : PipeChildPoint} {p' : PipeProcess PipeChildPoint}
    (h : ChildMove line s c p p') {file : OpenFile} (hfile : p'.table.Holds file) :
    (s.child c).table.Holds file := by
  cases h with
  | redirectFirst | redirectSecond => exact FileTable.holds_of_dup2 hfile
  | closeRead | closeWrite | closeOutput => exact FileTable.holds_of_close hfile
  | builtin | notStarted | builtinDone | programDone => exact hfile
  | exit => exact absurd rfl hfile

/-- Once nobody has an end of the pipe open, nobody ever has. -/
theorem Steps.held (h : Steps line s a s' out) (hpipe : s.shell.point ≠ .pipe) {file : OpenFile}
    (hfile : Held s' file) : Held s file := by
  -- Who holds the file after the step is the shell, a child or a program, each in its turn.
  rw [held_iff] at hfile ⊢
  cases h with
  | pipe hpoint => exact absurd hpoint hpipe
  -- The new child holds what the shell holds.
  | forkFirst | forkSecond =>
    obtain hfile | ⟨c, hfile⟩ | hfile := hfile
    · exact .inl hfile
    · rw [setChild_child] at hfile
      split at hfile
      · exact .inl hfile
      · exact .inr (.inl ⟨c, hfile⟩)
    · exact .inr (.inr hfile)
  | forkFails => exact hfile
  -- Closing only lets go.
  | closeRead | closeWrite => exact hfile.imp_left FileTable.holds_of_close
  -- The child that is waited for holds nothing.
  | waitFirst | waitSecond =>
    obtain hfile | ⟨c, hfile⟩ | hfile := hfile
    · exact .inl hfile
    · rw [setChild_child] at hfile
      refine .inr (.inl ?_)
      split at hfile
      · exact ⟨_, hfile⟩
      · exact ⟨c, hfile⟩
    · exact .inr (.inr hfile)
  | @move c _ p hmove =>
    obtain hfile | ⟨c', hfile⟩ | hfile := hfile
    · exact .inl hfile
    · rw [setChild_child] at hfile
      refine .inr (.inl ?_)
      split at hfile
      · exact ⟨c, hmove.holds hfile⟩
      · exact ⟨c', hfile⟩
    · exact .inr (.inr hfile)
  -- The new program holds what its child holds.
  | @start c p =>
    obtain hfile | ⟨c', hfile⟩ | ⟨c', hfile⟩ := hfile
    · exact .inl hfile
    · rw [setProgram_child, setChild_child] at hfile
      refine .inr (.inl ?_)
      split at hfile
      · exact ⟨c, hfile⟩
      · exact ⟨c', hfile⟩
    · rw [setProgram_program] at hfile
      split at hfile
      · exact .inr (.inl ⟨c, hfile⟩)
      · exact .inr (.inr ⟨c', hfile⟩)
  | wrote | elsewhere | ended | read => exact hfile
  -- The dead writer holds nothing; it is the first child itself or its program.
  | brokenPipe =>
    unfold killWriter at hfile
    split at hfile
    · obtain hfile | ⟨c, hfile⟩ | hfile := hfile
      · exact .inl hfile
      · rw [setChild_child] at hfile
        split at hfile
        · exact absurd rfl hfile
        · exact .inr (.inl ⟨c, hfile⟩)
      · exact .inr (.inr hfile)
    · obtain hfile | hfile | ⟨c, hfile⟩ := hfile
      · exact .inl hfile
      · exact .inr (.inl hfile)
      · rw [setProgram_program] at hfile
        split at hfile
        · exact absurd rfl hfile
        · exact .inr (.inr ⟨c, hfile⟩)
  -- Nor does a program that has exited.
  | programExit =>
    obtain hfile | hfile | ⟨c, hfile⟩ := hfile
    · exact .inl hfile
    · exact .inr (.inl hfile)
    · rw [setProgram_program] at hfile
      split at hfile
      · exact absurd rfl hfile
      · exact .inr (.inr ⟨c, hfile⟩)

/-- The first command writes to the pipe. -/
theorem Tables.writer_lookup (h : Tables s) {table : FileTable}
    (hwriter : writerTable line s = some table) : table.lookup 1 = some (.writeEnd 0) := by
  have hmem : ∀ {t : FileTable}, t.Ends 0 (∅, {1}) → t.lookup 1 = some (.writeEnd 0) := by
    intro t ht
    rw [← FileTable.mem_descriptors, ht.2]
    exact Finset.mem_singleton_self 1
  -- The writer is the first child where it executes a builtin, and else the program.
  unfold writerTable at hwriter
  split at hwriter
  · split at hwriter
    · rename_i hpoint
      cases hwriter
      have hends := h.child .first
      rw [hpoint] at hends
      exact hmem hends
    · cases hwriter
  · split at hwriter
    · rename_i hpoint
      cases hwriter
      have hends := h.program .first
      rw [hpoint] at hends
      exact hmem hends
    · cases hwriter

/-- Whoever writes has the write end open. -/
theorem Tables.held_of_writer (h : Tables s) {table : FileTable}
    (hwriter : writerTable line s = some table) : Held s (.writeEnd 0) := by
  have hlookup := h.writer_lookup hwriter
  unfold writerTable at hwriter
  rw [held_iff]
  split at hwriter
  · split at hwriter
    · cases hwriter
      exact .inr (.inl ⟨_, FileTable.holds_of_lookup hlookup⟩)
    · cases hwriter
  · split at hwriter
    · cases hwriter
      exact .inr (.inr ⟨_, FileTable.holds_of_lookup hlookup⟩)
    · cases hwriter

/-- Whoever reads has the read end open. -/
theorem Tables.reader_lookup (h : Tables s) (hpoint : (s.program .second).point = .running) :
    (s.program .second).table.lookup 0 = some (.readEnd 0) := by
  have hends := h.program .second
  rw [hpoint] at hends
  rw [← FileTable.mem_descriptors, hends.1]
  exact Finset.mem_singleton_self 0

variable {output : List β} {wants : Option Nat} {out' : List (PipelineEvent β)}

/-- Before there is a pipe nobody writes to it or reads from it. -/
theorem Order.quiet_at_pipe (h : Order line s) (hpoint : s.shell.point = .pipe) :
    writerTable line s = none ∧ (s.program .second).point ≠ .running := by
  have hfirst := h.first_unborn (.inl hpoint)
  have hsecond := h.second_unborn.mpr (.inl hpoint)
  have hprogram : ∀ c, (s.child c).point = .unborn → (s.program c).point = .unborn := by
    intro c hc
    by_contra hne
    have hlate := (h.started c hne).2
    rw [hc] at hlate
    exact hlate
  refine ⟨?_, by simp [hprogram .second hsecond]⟩
  simp [writerTable, hfirst, hprogram .first hfirst]

/-- A step that moves no bytes. -/
private theorem Flow.quiet (h : Flow line output wants s out) (hpipe : s'.pipe = s.pipe)
    (hwrite : s'.toWrite = s.toWrite) (hwants : s'.wants = s.wants) (hend : s'.sawEnd = s.sawEnd)
    (hshell : s'.shell.point = .pipe → s.shell.point = .pipe)
    (hheld : s.sawEnd = true ∨ .brokenPipe ∈ out → ∀ file, Held s' file → Held s file)
    (hbuiltin : line.first = .builtin → (s'.child .first).point.Late →
      (s'.child .first).point ≠ .executing → s.toWrite = [] ∨
        (s.child .first).point.Late ∧ (s.child .first).point ≠ .executing)
    (hprogram : (s'.program .first).point = .exited →
      s.toWrite = [] ∨ (s.program .first).point = .exited)
    (hreader : (s'.program .second).point = .exited →
      readerDone s ∨ (s.program .second).point = .exited) :
    Flow line output wants s' out where
  start hpoint := hend ▸ h.start (hshell hpoint)
  sent := hwrite ▸ h.sent
  order := hpipe ▸ h.order
  here := h.here
  ended := hend ▸ h.ended
  atEnd hsaw := by
    rw [hend] at hsaw
    obtain ⟨hcontent, hnot⟩ := h.atEnd hsaw
    exact ⟨hpipe ▸ hcontent, fun hheld' => hnot (hheld (.inl hsaw) _ hheld')⟩
  broken hbroken := by
    obtain ⟨hnot, hsaw⟩ := h.broken hbroken
    exact ⟨fun hheld' => hnot (hheld (.inr hbroken) _ hheld'), hend ▸ hsaw⟩
  builtin hline hlate hne := by
    rw [hwrite]
    rcases hbuiltin hline hlate hne with hnil | ⟨hlate', hne'⟩
    · exact .inl hnil
    · exact h.builtin hline hlate' hne'
  program hexited := by
    rw [hwrite]
    exact (hprogram hexited).elim .inl h.program
  reader hexited := by
    rw [readerDone, hend, hwants]
    exact (hreader hexited).elim id h.reader
  wants hnone := hwants ▸ h.wants hnone

/-- The writer has not come to its end. -/
theorem Order.writer_running (h : Order line s) {table : FileTable}
    (hwriter : writerTable line s = some table) :
    (line.first = .builtin → (s.child .first).point = .executing) ∧
      (s.program .first).point ≠ .exited := by
  unfold writerTable at hwriter
  split at hwriter
  · rename_i hline
    split at hwriter
    · rename_i hpoint
      refine ⟨fun _ => hpoint, fun hexited => ?_⟩
      exact (h.started .first (by simp [hexited])).1 hline
    · cases hwriter
  · rename_i hline
    split at hwriter
    · rename_i hpoint
      exact ⟨fun h => absurd h hline, by simp [hpoint]⟩
    · cases hwriter

/-- Every step keeps the account of the bytes. -/
theorem Steps.flow (h : Steps line s a s' out') (ho : Order line s) (ht : Tables s)
    (hs : Flow line output wants s out) : Flow line output wants s' (out ++ out') := by
  have hheld : s.sawEnd = true ∨ .brokenPipe ∈ out → ∀ file, Held s' file → Held s file := by
    intro hsome file
    refine h.held fun hpoint => ?_
    obtain ⟨hsaw, hbroken⟩ := hs.start hpoint
    rcases hsome with h | h
    · simp [hsaw] at h
    · exact hbroken h
  -- Most steps move no byte and are `Flow.quiet`; the others write, read, or see the end.
  cases h with
  | pipe hpoint | forkFails hpoint | closeRead hpoint | closeWrite hpoint =>
    rw [List.append_nil]
    refine hs.quiet rfl rfl rfl rfl ?_ hheld (fun _ hl hn => .inr ⟨hl, hn⟩) .inr .inr
    grind
  | forkFirst hpoint | forkSecond hpoint =>
    rw [List.append_nil]
    refine hs.quiet rfl rfl rfl rfl (by simp) hheld ?_ .inr .inr
    grind [PipeChildPoint.Late]
  | waitFirst hpoint hchild | waitSecond hpoint hchild =>
    rw [List.append_nil]
    refine hs.quiet rfl rfl rfl rfl (by simp) hheld ?_ .inr .inr
    grind [PipeChildPoint.Late]
  -- A child moves: a builtin of the first child leaves its point only when all is written.
  | @move c _ p hmove =>
    rw [List.append_nil]
    refine hs.quiet rfl rfl rfl rfl id hheld (fun hline hlate hne => ?_) .inr .inr
    -- Only the first child writes to the pipe.
    cases c with
    | second => exact .inr ⟨hlate, hne⟩
    | first =>
      generalize hpoint : (s.child .first).point = p₀ at hmove ⊢
      cases hmove with
      | builtinDone hline' hdone => exact .inl (hdone rfl)
      | notStarted hline' | programDone hline' => exact absurd hline hline'
      | closeOutput | exit => exact .inr ⟨trivial, by simp⟩
      | builtin => exact absurd rfl hne
      | redirectFirst | closeRead | closeWrite => exact absurd hlate id
  -- A program starts: its child has no builtin, and no program has exited.
  | @start c p hpoint hline =>
    rw [List.append_nil]
    refine hs.quiet rfl rfl rfl rfl id hheld (fun hbuiltin hlate hne => ?_) (fun hexited => ?_)
      fun hexited => ?_
    · cases c with
      | first =>
        have hexecution : line.execution .first = .builtin := hbuiltin
        rcases hline with ⟨hline, -⟩ | ⟨hline, -⟩ <;> cases hexecution.symm.trans hline
      | second => exact .inr ⟨hlate, hne⟩
    · cases c with
      | first => cases hexited
      | second => exact .inr hexited
    · cases c with
      | first => exact .inr hexited
      | second => cases hexited
  -- Bytes go into the pipe: the reader has not seen the end, since the writer holds it.
  | @wrote n table pipe hwriter hlookup hreaders hbytes =>
    obtain ⟨hexecuting, hexited⟩ := ho.writer_running hwriter
    have hsaw : s.sawEnd = false := by
      by_contra hsaw
      exact (hs.atEnd (by simpa using hsaw)).2 (ht.held_of_writer hwriter)
    refine ⟨fun hpoint => ?_, ?_, ?_, ?_, ?_, fun h => ?_, fun h => ?_, fun hline hlate hne => ?_,
      fun h => absurd h hexited, hs.reader, hs.wants⟩
    · -- One goal for each clause of `Flow`, in the order of the structure.
      rw [(ho.quiet_at_pipe hpoint).1] at hwriter
      cases hwriter
    · rw [written_append, List.append_assoc, hs.sent]
      simp [written]
    · rw [written_append, received_append, hs.order]
      simp [written, received]
    · intro bytes hmem
      simp [hs.here] at hmem
    · rw [List.mem_append, hs.ended]
      simp
    · exact absurd h (by simp [hsaw])
    · have hbroken := hs.broken (by simpa using h)
      exact absurd hreaders hbroken.1
    · exact absurd (hexecuting hline) hne
  -- The pipe breaks: the event is in the output, which is what the last clauses ask for.
  | @brokenPipe n table hwriter hreaders hbytes =>
    have hsaw : s.sawEnd = false := by
      by_contra hsaw
      exact (hs.atEnd (by simpa using hsaw)).2 (ht.held_of_writer hwriter)
    have hsame : (killWriter line s).pipe = s.pipe ∧ (killWriter line s).toWrite = s.toWrite ∧
        (killWriter line s).wants = s.wants ∧ (killWriter line s).sawEnd = s.sawEnd ∧
        (killWriter line s).shell = s.shell ∧
        (killWriter line s).program .second = s.program .second := by
      unfold killWriter
      split <;> exact ⟨rfl, rfl, rfl, rfl, rfl, rfl⟩
    obtain ⟨hpipe, hwrite, hwants, hend, hshell, hsecond⟩ := hsame
    have hpoint : s.shell.point ≠ .pipe := fun hpoint => by
      rw [(ho.quiet_at_pipe hpoint).1] at hwriter
      cases hwriter
    have hmem : PipelineEvent.brokenPipe ∈ out ++ [PipelineEvent.brokenPipe (β := β)] := by simp
    refine ⟨fun h => absurd (hshell ▸ h) hpoint, ?_, ?_, ?_, ?_, fun h => ?_, fun _ => ⟨?_, ?_⟩,
      fun _ _ _ => .inr hmem, fun _ => .inr hmem, fun h => ?_, hwants ▸ hs.wants⟩
    · rw [written_append, hwrite, hs.sent]
      simp [written]
    · rw [written_append, received_append, hpipe, hs.order]
      simp [written, received]
    · intro bytes hmem
      simp [hs.here] at hmem
    · rw [List.mem_append, hs.ended, hend]
      simp
    · exact absurd h (by simp [hend, hsaw])
    · exact fun hheld' => hreaders (Steps.held (.brokenPipe hwriter hreaders hbytes) hpoint hheld')
    · rw [hend, hsaw]
    · rw [readerDone, hend, hwants]
      exact hs.reader (hsecond ▸ h)
  -- The writer's descriptor 1 is the pipe as long as it writes.
  | elsewhere hwriter hlookup => exact absurd (ht.writer_lookup hwriter) (hlookup 0)
  -- The reader sees the end: the pipe is empty and nobody can write.
  | @ended n hpoint hdone hcontent hwriters =>
    have hlookup := ht.reader_lookup hpoint
    have hread : Held s (.readEnd 0) :=
      -- The reader itself holds the read end, so the pipe has not broken.
      held_iff.mpr (.inr (.inr ⟨_, FileTable.holds_of_lookup hlookup⟩))
    have hbroken : PipelineEvent.brokenPipe ∉ out := fun h => (hs.broken h).1 hread
    refine ⟨fun h => absurd hpoint (ho.quiet_at_pipe h).2, ?_, ?_, ?_, by simp,
      fun _ => ⟨hcontent, hwriters⟩, fun h => ?_, fun hline hlate hne => ?_, fun hexited => ?_,
      fun _ => .inl rfl, hs.wants⟩
    · rw [written_append, hs.sent]
      simp [written]
    · rw [written_append, received_append, hs.order]
      simp [written, received]
    · intro bytes hmem
      simp [hs.here] at hmem
    · exact absurd (by simpa using h) hbroken
    · exact (hs.builtin hline hlate hne).imp_right fun h => List.mem_append_left _ h
    · exact (hs.program hexited).imp_right fun h => List.mem_append_left _ h
  -- Bytes leave the pipe: what is received and what is still there is what was written.
  | @read n bytes pipe hpoint hdone hbytes hcontent hcapacity hwants =>
    have hsaw : s.sawEnd = false := by
      by_contra hsaw
      exact hdone (.inl (by simpa using hsaw))
    refine ⟨fun h => absurd hpoint (ho.quiet_at_pipe h).2, ?_, ?_, ?_, ?_, fun h => ?_, fun h => ?_,
      fun hline hlate hne => ?_, fun hexited => ?_,
      (fun hexited => by cases hpoint.symm.trans hexited), fun hnone => ?_⟩
    · rw [written_append, hs.sent]
      simp [written]
    · rw [written_append, received_append, hs.order, hcontent]
      simp [written, received]
    · intro bytes' hmem
      simp [hs.here] at hmem
    · rw [List.mem_append, hs.ended]
      simp
    · exact absurd h (by simp [hsaw])
    · exact hs.broken (by simpa using h)
    · exact (hs.builtin hline hlate hne).imp_right fun h => List.mem_append_left _ h
    · exact (hs.program hexited).imp_right fun h => List.mem_append_left _ h
    · show s.wants.map _ = none
      rw [hs.wants hnone]
      rfl
  -- A program exits: the first has written all, the second has read what it wants.
  | @programExit c hpoint hdone =>
    rw [List.append_nil]
    refine hs.quiet rfl rfl rfl rfl id hheld (fun _ hl hn => .inr ⟨hl, hn⟩) (fun hexited => ?_)
      fun hexited => ?_
    · cases c with
      | first => exact .inl hdone
      | second => exact .inr hexited
    · cases c with
      | first => exact .inr hexited
      | second => exact .inl hdone

end PipeCommand

end OsWet
