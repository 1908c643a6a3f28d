import OsWet.Native.ShellDescriptors

/-!
# Which lines leave the descriptors of the shell as they were

Redirection in the foreground never does once the file is open: it closes the descriptor
of the file twice and the saved standard output not at all. A background command leaves
the write end of its pipe open. The other paths lose descriptors only when a system call
fails.

## Main result

- `descriptors_conserved_iff`: along a run the descriptors are conserved exactly when
  every line meets `LeavesNothing`
-/

namespace OsWet

open Text

/-! ## Reading a file with `cat` -/

namespace CatCommand

/-- A `read` fails before the end of the file. -/
def readFails : List (Option Text) → Bool
  | [] => false
  | none :: _ => true
  | some buffer :: reads => 0 < buffer.length && readFails reads

/-- The file is opened and a `read` of it fails. -/
def leavesOpen : FileAnswer → Bool
  | .openFails => false
  | .opened _ reads => readFails reads

/-- The loop closes the descriptor when it gets to the end of the file, and only then. -/
theorem readLoop_eq {t t' : Descriptors} {fd : Int} {reads : List (Option Text)}
    {out : List Output} (h : readLoop t fd reads = .ok (t', out)) :
    t' = if readFails reads then t else t.close fd := by
  -- The loop ends at a failed `read`, which skips the `close`, or at an empty one.
  induction reads generalizing out with
  | nil => cases h
  | cons answer reads ih =>
    cases answer with
    | none =>
      obtain ⟨rfl, -⟩ := Prod.mk.inj (Outcome.ok.inj h)
      rfl
    | some buffer =>
      unfold readLoop at h
      split at h
      · cases h
      split at h
      case isTrue hpos =>
        obtain ⟨⟨t₁, out₁⟩, h₁, h⟩ := Outcome.bind_eq_ok.mp h
        obtain ⟨rfl, -⟩ := Prod.mk.inj (Outcome.ok.inj h)
        simpa [readFails, hpos] using ih h₁
      case isFalse hpos =>
        obtain ⟨rfl, -⟩ := Prod.mk.inj (Outcome.ok.inj h)
        simp [readFails, hpos]

/-- `cat` of one file takes nothing away, and leaves its descriptor open if a call fails. -/
theorem printFile_spec {t t' : Descriptors} {answer : FileAnswer} {out : List Output}
    (h : printFile t answer = .ok (t', out)) :
    t.Keeps t' ∧ (t.Conserved t' ↔ ¬ leavesOpen answer) := by
  cases answer with
  | openFails =>
    obtain ⟨rfl, -⟩ := Prod.mk.inj (Outcome.ok.inj h)
    exact ⟨.refl _, by simp [leavesOpen, Descriptors.Conserved.refl]⟩
  | opened fd reads =>
    obtain ⟨t₁, h₁, h₂⟩ := Outcome.bind_eq_ok.mp h
    obtain ⟨hfree, rfl⟩ := Descriptors.openAt_eq_ok.mp h₁
    -- What was opened is closed again, unless a `read` failed.
    rw [readLoop_eq h₂]
    have hkeeps := Descriptors.keeps_create hfree
    by_cases hfails : readFails reads
    · have hopen : (t.create fd hfree.1).Open fd := by
        simp [Descriptors.Open, Descriptors.create_file_self]
      simp only [leavesOpen, hfails, if_true, not_true_eq_false, iff_false]
      exact ⟨hkeeps, Descriptors.not_conserved_of_open hfree.2 hopen⟩
    · simp only [leavesOpen, hfails, if_false, not_false_eq_true, iff_true, Bool.false_eq_true]
      exact ⟨hkeeps.close hfree.2,
        Descriptors.conserved_of_file_eq (Descriptors.close_create_file hfree)⟩

/-- No file among those that are read is left open. -/
theorem printFiles_spec {t t' : Descriptors} {filenames : List Text}
    {answers : List FileAnswer} {out : List Output}
    (h : printFiles t filenames answers = .ok (t', out)) :
    t.Keeps t' ∧
      (t.Conserved t' ↔ ∀ answer ∈ answers.take filenames.length, ¬ leavesOpen answer) := by
  induction filenames generalizing t answers out with
  | nil =>
    obtain ⟨rfl, -⟩ := Prod.mk.inj (Outcome.ok.inj h)
    exact ⟨.refl _, by simp [Descriptors.Conserved.refl]⟩
  | cons filename filenames ih =>
    cases answers with
    | nil => cases h
    | cons answer answers =>
      obtain ⟨⟨t₁, out₁⟩, h₁, h⟩ := Outcome.bind_eq_ok.mp h
      obtain ⟨⟨t₂, out₂⟩, h₂, h⟩ := Outcome.bind_eq_ok.mp h
      obtain ⟨rfl, -⟩ := Prod.mk.inj (Outcome.ok.inj h)
      obtain ⟨hkeeps₁, hiff₁⟩ := printFile_spec h₁
      obtain ⟨hkeeps₂, hiff₂⟩ := ih h₂
      refine ⟨hkeeps₁.trans hkeeps₂, ?_⟩
      -- A file left open stays open while the others are read.
      rw [hkeeps₁.conserved_trans_iff hkeeps₂, hiff₁, hiff₂]
      simp

/-- What `cat` needs to leave no file open. -/
def LeavesNothing (args : List Text) (answers : Answers) : Prop :=
  ∀ answer ∈ answers.files.take args.length, ¬ leavesOpen answer

instance (args : List Text) (answers : Answers) : Decidable (LeavesNothing args answers) :=
  inferInstanceAs (Decidable (∀ _ ∈ _, _))

/-- `cat` takes nothing away, and conserves the descriptors if no file is left open. -/
theorem execute_spec {t t' : Descriptors} {args : List Text} {answers : Answers}
    {out : List Output} (h : execute t args answers = .ok (t', out)) :
    t.Keeps t' ∧ (t.Conserved t' ↔ LeavesNothing args answers) := by
  unfold execute at h
  split at h
  case isTrue hargs =>
    obtain ⟨rfl, -⟩ := Prod.mk.inj (Outcome.ok.inj h)
    exact ⟨.refl _, by simp [LeavesNothing, hargs, Descriptors.Conserved.refl]⟩
  case isFalse => exact printFiles_spec h

end CatCommand

/-! ## Pipes -/

/-- Either `pipe` opened both ends, or it failed and nothing changed. -/
theorem makeReadWritePipes_cases {t t₁ : Descriptors} {answers : Answers} {fds : Int × Int}
    {out : List Output} (h : makeReadWritePipes t answers = .ok (t₁, fds, out)) :
    (∃ (hr : t.Free fds.1) (hw : (t.create fds.1 hr.1).Free fds.2), answers.pipe = some fds ∧
        t₁ = (t.create fds.1 hr.1).create fds.2 hw.1) ∨
      answers.pipe = none ∧ fds = answers.readWritePipes ∧ t₁ = t := by
  unfold makeReadWritePipes at h
  -- When `pipe` fails the array keeps what it held, and the code goes on with that.
  cases hpipe : answers.pipe with
  | none =>
    rw [hpipe] at h
    cases h
    exact .inr ⟨rfl, rfl, rfl⟩
  | some fds' =>
    rw [hpipe] at h
    obtain ⟨t₂, h₂, h⟩ := Outcome.bind_eq_ok.mp h
    cases h
    obtain ⟨hr, hw, rfl⟩ := Descriptors.openPipe_eq_ok.mp h₂
    exact .inl ⟨hr, hw, rfl, rfl⟩

namespace ExternalCommand

/-- What an external command needs to leave no descriptor: a background command has to go
    without its pipe, and then must not close anything in its place. -/
def LeavesNothing (t : Descriptors) (args : List Text) (answers : Answers) : Prop :=
  isBackGroundCommand args →
    answers.pipe = none ∧ (answers.firstForked → ¬ t.Open answers.readWritePipes.1)

instance (t : Descriptors) (args : List Text) (answers : Answers) :
    Decidable (LeavesNothing t args answers) := inferInstanceAs (Decidable (_ → _ ∧ (_ → _)))

/-- Only the first number in the array is closed, and only when the shell has forked. -/
theorem runBackgroundExternalCommand_eq {t t' : Descriptors} {answers : Answers}
    {out : List Output} (h : runBackgroundExternalCommand t answers = .ok (t', out)) :
    ∃ t₁ fds out₁, makeReadWritePipes t answers = .ok (t₁, fds, out₁) ∧
      t' = if answers.firstForked then t₁.close fds.1 else t₁ := by
  obtain ⟨⟨t₁, fds, out₁⟩, h₁, h⟩ := Outcome.bind_eq_ok.mp h
  refine ⟨t₁, fds, out₁, h₁, ?_⟩
  -- A failing fork returns before anything is closed.
  cases hforked : answers.firstForked with
  | false =>
    simp only [hforked, Bool.not_false, if_true] at h
    exact (Prod.mk.inj (Outcome.ok.inj h)).1.symm
  | true =>
    simp only [hforked, Bool.not_true] at h
    exact (Prod.mk.inj (Outcome.ok.inj h)).1.symm

/-- Something is left, or something is closed that the pipe is not. -/
theorem runBackgroundExternalCommand_spec {t t' : Descriptors} {answers : Answers}
    {out : List Output} (h : runBackgroundExternalCommand t answers = .ok (t', out)) :
    (t.Keeps t' ∨ ∃ fd, t' = t.close fd) ∧
      (t.Conserved t' ↔
        answers.pipe = none ∧ (answers.firstForked → ¬ t.Open answers.readWritePipes.1)) := by
  obtain ⟨t₁, fds, out₁, h₁, rfl⟩ := runBackgroundExternalCommand_eq h
  obtain ⟨hr, hw, hpipe, rfl⟩ | ⟨hpipe, rfl, rfl⟩ := makeReadWritePipes_cases h₁
  · -- The write end is open after all, whether or not the read end is closed.
    have hkeeps := (Descriptors.keeps_create hr).trans (Descriptors.keeps_create hw)
    have hw₀ : ¬ t.Open fds.2 := fun h => hw.2 ((Descriptors.keeps_create hr).open_of h)
    have hne : fds.2 ≠ fds.1 := by
      intro heq
      apply hw.2
      simp [heq, Descriptors.Open, Descriptors.create_file_self]
    have hleft : ((t.create fds.1 hr.1).create fds.2 hw.1).Open fds.2 := by
      simp [Descriptors.Open, Descriptors.create_file_self]
    simp only [hpipe, reduceCtorEq, false_and, iff_false]
    split
    · refine ⟨.inl (hkeeps.close hr.2), Descriptors.not_conserved_of_open hw₀ ?_⟩
      rw [Descriptors.Open, Descriptors.close_file_of_ne hne]
      exact hleft
    · exact ⟨.inl hkeeps, Descriptors.not_conserved_of_open hw₀ hleft⟩
  · -- There is no pipe, so the close hits whatever has that number.
    by_cases hforked : answers.firstForked
    · simp only [hforked, if_true, hpipe, true_and, forall_const]
      exact ⟨.inr ⟨_, rfl⟩, Descriptors.conserved_close_iff⟩
    · simp [hforked, hpipe, Descriptors.Conserved.refl, Descriptors.Keeps.refl]

/-- A command that the executor runs closes one descriptor at most, and that is where it conserves
    the table. -/
theorem executeFds_spec {t t' : Descriptors} {args : List Text} {answers : Answers}
    {out : List Output} (h : executeFds t args answers = .ok (t', out)) :
    (t.Keeps t' ∨ ∃ fd, t' = t.close fd) ∧ (t.Conserved t' ↔ LeavesNothing t args answers) := by
  unfold executeFds at h
  unfold LeavesNothing
  split at h
  case isTrue hbackground =>
    simpa only [hbackground, forall_const] using runBackgroundExternalCommand_spec h
  case isFalse hforeground =>
    obtain ⟨rfl, -⟩ := Prod.mk.inj (Outcome.ok.inj h)
    exact ⟨.inl (.refl _), by simp [hforeground, Descriptors.Conserved.refl]⟩

end ExternalCommand

namespace PipeCommand

/-- What a pipeline needs to leave no descriptor: with a pipe, that both forks succeed;
    without one, that what the array holds by chance is not open. -/
def LeavesNothing (t : Descriptors) (answers : Answers) : Prop :=
  match answers.pipe with
  | some _ => answers.firstForked ∧ answers.secondForked
  | none => answers.firstForked ∧ answers.secondForked →
      ¬ t.Open answers.readWritePipes.1 ∧ ¬ t.Open answers.readWritePipes.2

instance (t : Descriptors) (answers : Answers) : Decidable (LeavesNothing t answers) :=
  match h : answers.pipe with
  | some _ => decidable_of_iff (answers.firstForked ∧ answers.secondForked) (by
      simp only [LeavesNothing, h])
  | none => decidable_of_iff (answers.firstForked ∧ answers.secondForked →
      ¬ t.Open answers.readWritePipes.1 ∧ ¬ t.Open answers.readWritePipes.2) (by
        simp only [LeavesNothing, h])

/-- Both numbers in the array are closed when both forks succeed. -/
theorem execute_eq {t t' : Descriptors} {answers : Answers} {out : List Output}
    (h : execute t answers = .ok (t', out)) :
    ∃ t₁ fds out₁, makeReadWritePipes t answers = .ok (t₁, fds, out₁) ∧
      t' = if answers.firstForked ∧ answers.secondForked then (t₁.close fds.1).close fds.2
        else t₁ := by
  obtain ⟨⟨t₁, fds, out₁⟩, h₁, h⟩ := Outcome.bind_eq_ok.mp h
  refine ⟨t₁, fds, out₁, h₁, ?_⟩
  -- Either failing fork returns before the two ends are closed.
  by_cases hforked : answers.firstForked ∧ answers.secondForked
  · simp only [hforked, Bool.not_true, Bool.or_self] at h
    rw [if_pos hforked]
    exact (Prod.mk.inj (Outcome.ok.inj h)).1.symm
  · have hfails : (!answers.firstForked || !answers.secondForked) = true := by grind
    simp only [hfails, if_true] at h
    rw [if_neg hforked]
    exact (Prod.mk.inj (Outcome.ok.inj h)).1.symm

/-- A pipeline conserves the descriptors if both forks succeed. -/
theorem execute_spec {t t' : Descriptors} {answers : Answers} {out : List Output}
    (h : execute t answers = .ok (t', out)) : t.Conserved t' ↔ LeavesNothing t answers := by
  obtain ⟨t₁, fds, out₁, h₁, rfl⟩ := execute_eq h
  obtain ⟨hr, hw, hpipe, rfl⟩ | ⟨hpipe, rfl, rfl⟩ := makeReadWritePipes_cases h₁
  · simp only [LeavesNothing, hpipe]
    split
    case isTrue hforked =>
      refine iff_of_true (Descriptors.conserved_of_file_eq ?_) hforked
      exact Descriptors.close_close_create_create_file hr hw
    case isFalse hforked =>
      -- A failing fork leaves both ends.
      refine iff_of_false (Descriptors.not_conserved_of_open hr.2 ?_) hforked
      apply (Descriptors.keeps_create hw).open_of
      simp [Descriptors.Open, Descriptors.create_file_self]
  · simp only [LeavesNothing, hpipe]
    split
    case isTrue hforked =>
      simp only [hforked, and_self, forall_const]
      exact Descriptors.conserved_close_close_iff
    case isFalse hforked =>
      exact iff_of_true (.refl _) fun h => absurd h hforked

end PipeCommand

/-! ## The executor -/

namespace CommandExecutor

/-- What a single command needs to leave no descriptor. -/
def LeavesNothing (t : Descriptors) (commandLine : Text) (answers : Answers) : Prop :=
  match lookup commandLine with
  | .nothing => True
  | .builtin commandArg args =>
    commandArg = text "cat" → CatCommand.LeavesNothing args answers
  | .external args => ExternalCommand.LeavesNothing t args answers

/-- A command keeps what was open, or does nothing else than close one descriptor. -/
theorem executeFds_spec {t t' : Descriptors} {commandLine : Text} {answers : Answers}
    {out : List Output} (h : executeFds t commandLine answers = .ok (t', out)) :
    (t.Keeps t' ∨ ∃ fd, t' = t.close fd) ∧
      (t.Conserved t' ↔ LeavesNothing t commandLine answers) := by
  unfold executeFds at h
  cases hlookup : lookup commandLine with
  | nothing =>
    simp only [hlookup] at h
    obtain ⟨rfl, -⟩ := Prod.mk.inj (Outcome.ok.inj h)
    exact ⟨.inl (.refl _), by simp [LeavesNothing, hlookup, Descriptors.Conserved.refl]⟩
  | builtin commandArg args =>
    -- `cat` is the only builtin command here that opens descriptors.
    simp only [hlookup] at h
    simp only [LeavesNothing, hlookup]
    split at h
    case isTrue hcat =>
      obtain ⟨hkeeps, hiff⟩ := CatCommand.execute_spec h
      exact ⟨.inl hkeeps, by simpa [hcat] using hiff⟩
    case isFalse hcat =>
      obtain ⟨rfl, -⟩ := Prod.mk.inj (Outcome.ok.inj h)
      exact ⟨.inl (.refl _), by simp [hcat, Descriptors.Conserved.refl]⟩
  | external args =>
    simp only [hlookup] at h
    simp only [LeavesNothing, hlookup]
    exact ExternalCommand.executeFds_spec h

end CommandExecutor

/-! ## Redirection -/

namespace RedirectionCommand

/-- In the foreground a redirection leaves nothing only when `open` fails. -/
def LeavesNothing (isBackground : Bool) (answers : Answers) : Prop :=
  isBackground ∨ answers.opened = none

/-- Standard output is given back from `saveStdOutFd`. Unless the command closed that
    descriptor it is left open, and if it did, standard output still refers to the file. -/
theorem not_conserved_restored {t₀ t : Descriptors} {saveStdOutFd fd : Int}
    (hout : t.file STDOUT_FILENO ≠ t₀.file STDOUT_FILENO) (hfd : fd ≠ STDOUT_FILENO)
    (hsave : t.Open saveStdOutFd →
      ¬ t₀.Open saveStdOutFd ∧ saveStdOutFd ≠ fd ∧ saveStdOutFd ≠ STDOUT_FILENO) :
    ¬ t₀.Conserved (((t.dup2 saveStdOutFd STDOUT_FILENO).close fd).close fd) := by
  unfold Descriptors.dup2
  split
  case isTrue h =>
    -- The saved descriptor is open, and no code closes it.
    obtain ⟨hnew, hne, hne_out⟩ := hsave h.1
    apply Descriptors.not_conserved_of_open hnew
    rw [Descriptors.Open, Descriptors.close_file_of_ne hne, Descriptors.close_file_of_ne hne,
      Descriptors.copy_file_of_ne hne_out]
    exact h.1
  case isFalse h =>
    -- `dup2` failed, so standard output is still the new file.
    intro hc
    apply hout
    have hstd := hc.std STDOUT_FILENO (by decide) (by decide)
    rwa [Descriptors.close_file_of_ne hfd.symm, Descriptors.close_file_of_ne hfd.symm] at hstd

/-- While the command runs, standard output refers to the new file. -/
theorem file_stdout_of_command {t₀ t t' : Descriptors} {f : Nat}
    (hout : t₀.Open STDOUT_FILENO) (hne : t₀.file STDOUT_FILENO ≠ some f)
    (hfile : t.file STDOUT_FILENO = some f) (h : t.Keeps t' ∨ ∃ fd, t' = t.close fd) :
    t'.file STDOUT_FILENO ≠ t₀.file STDOUT_FILENO := by
  -- The command can at most close standard output, which changes it as well.
  obtain hkeeps | ⟨fd, rfl⟩ := h
  · have hopen : t.Open STDOUT_FILENO := by simp [Descriptors.Open, hfile]
    rw [hkeeps _ hopen, hfile]
    exact hne.symm
  · by_cases heq : STDOUT_FILENO = fd
    · rw [← heq, Descriptors.close_file_self]
      exact fun hnone => absurd hout (by simp [Descriptors.Open, ← hnone])
    · rw [Descriptors.close_file_of_ne heq, hfile]
      exact hne.symm

/-- The redirected command never leaves the descriptors as they were. -/
theorem runRedirectedCommand_spec {t t' : Descriptors} {command : Text} {answers : Answers}
    {out : List Output} (hout : t.Open STDOUT_FILENO)
    (h : runRedirectedCommand t command answers = .ok (t', out)) :
    t.Conserved t' ↔ answers.opened = none := by
  unfold runRedirectedCommand at h
  cases hopened : answers.opened with
  | none =>
    simp only [hopened] at h
    obtain ⟨rfl, -⟩ := Prod.mk.inj (Outcome.ok.inj h)
    exact iff_of_true (.refl _) rfl
  | some fd =>
    simp only [hopened] at h
    obtain ⟨t₁, h₁, h⟩ := Outcome.bind_eq_ok.mp h
    obtain ⟨⟨saveStdOutFd, t₂⟩, h₂, h⟩ := Outcome.bind_eq_ok.mp h
    obtain ⟨⟨t₃, out₃⟩, h₃, h⟩ := Outcome.bind_eq_ok.mp h
    obtain ⟨rfl, -⟩ := Prod.mk.inj (Outcome.ok.inj h)
    obtain ⟨hfree, rfl⟩ := Descriptors.openAt_eq_ok.mp h₁
    obtain ⟨hrun, -⟩ := CommandExecutor.executeFds_spec h₃
    -- `open` hands out a free number, and standard output is not free.
    have hfd : fd ≠ STDOUT_FILENO := by
      rintro rfl
      exact hfree.2 hout
    have hfile : (t.create fd hfree.1).file fd = some t.next :=
      Descriptors.create_file_self _ _ _
    simp only [reduceCtorEq, iff_false]
    -- The table in which the command starts.
    have hstart : ∀ u : Descriptors, u.file fd = some t.next →
        (u.dup2 fd STDOUT_FILENO).file STDOUT_FILENO = some t.next := by
      intro u hu
      have hcond : u.Open fd ∧ 0 ≤ STDOUT_FILENO := ⟨by simp [Descriptors.Open, hu], by decide⟩
      rw [Descriptors.dup2, dif_pos hcond, Descriptors.copy_file_self, hu]
    obtain ⟨-, rfl, rfl⟩ | ⟨-, hold, hnew, rfl⟩ := Descriptors.dup_eq_ok.mp h₂
    · -- `dup` failed, and there is nothing to restore from
      apply not_conserved_restored _ hfd
      · exact fun hopen => absurd hopen (Descriptors.not_open_neg_one _)
      · exact file_stdout_of_command hout (Descriptors.file_ne_next t _) (hstart _ hfile) hrun
    · -- `dup` hands out a free number too, so the three descriptors differ.
      have hne : fd ≠ saveStdOutFd := by
        rintro rfl
        exact hnew.2 (by simp [Descriptors.Open, hfile])
      have hne_out : saveStdOutFd ≠ STDOUT_FILENO := by
        rintro rfl
        exact hnew.2 hold
      apply not_conserved_restored _ hfd
      · refine fun _ => ⟨fun hopen => ?_, hne.symm, hne_out⟩
        exact hnew.2 ((Descriptors.keeps_create hfree).open_of hopen)
      · apply file_stdout_of_command hout (Descriptors.file_ne_next t _) (hstart _ ?_) hrun
        rw [Descriptors.copy_file_of_ne hne, hfile]

/-- A redirection conserves the descriptors if it leaves nothing open. -/
theorem execute_spec {t t' : Descriptors} {command : Text} {isBackground : Bool}
    {answers : Answers} {out : List Output} (hout : t.Open STDOUT_FILENO)
    (h : execute t command isBackground answers = .ok (t', out)) :
    t.Conserved t' ↔ LeavesNothing isBackground answers := by
  unfold execute at h
  unfold LeavesNothing
  split at h
  case isTrue hbackground =>
    obtain ⟨rfl, -⟩ := Prod.mk.inj (Outcome.ok.inj h)
    exact iff_of_true (.refl _) (.inl hbackground)
  case isFalse hforeground =>
    simpa [hforeground] using runRedirectedCommand_spec hout h

end RedirectionCommand

/-! ## Lines, and runs of lines -/

namespace SmallShell

/-- What a line needs to leave the descriptors as they were. -/
def LeavesNothing (t : Descriptors) (l : Text × Answers) : Prop :=
  match path l.1 with
  | .blank => True
  | .pipe _ => PipeCommand.LeavesNothing t l.2
  | .redirection _ isBackground _ => RedirectionCommand.LeavesNothing isBackground l.2
  | .executor cmd_line => CommandExecutor.LeavesNothing t cmd_line l.2

/-- A line conserves the descriptors if what it asks for does. -/
theorem executeFds_spec {t t' : Descriptors} {cmd_line : Text} {answers : Answers}
    {out : List Output} (hout : t.Open STDOUT_FILENO)
    (h : executeFds t cmd_line answers = .ok (t', out)) :
    t.Conserved t' ↔ LeavesNothing t (cmd_line, answers) := by
  unfold executeFds at h
  unfold LeavesNothing
  cases hpath : path cmd_line with
  | blank =>
    simp only [hpath] at h
    obtain ⟨rfl, -⟩ := Prod.mk.inj (Outcome.ok.inj h)
    exact iff_of_true (.refl _) trivial
  | pipe args =>
    simp only [hpath] at h
    exact PipeCommand.execute_spec h
  | redirection tokenizedArgs isBackground append =>
    simp only [hpath] at h
    exact RedirectionCommand.execute_spec hout h
  | executor cmd_line =>
    simp only [hpath] at h
    exact (CommandExecutor.executeFds_spec h).2

/-- As long as every line meets its condition, and no longer, the shell has the descriptors
    it started with. -/
theorem descriptors_conserved_iff {t₀ : Descriptors} (hout : t₀.Open STDOUT_FILENO)
    (lines : List (Text × Answers)) :
    fdMachine.EveryState t₀.Conserved t₀ lines ↔ fdMachine.EveryStep LeavesNothing t₀ lines := by
  apply Machine.everyState_iff_everyStep (Descriptors.Conserved.refl t₀) fun _ h => h
  · -- A conserved table has standard output open, so the lemma about one line applies.
    intro t l t' o hc hl h
    have hout' : t.Open STDOUT_FILENO := (hc.open_iff _).mpr hout
    exact hc.trans ((executeFds_spec hout' h).mpr hl)
  · intro t l t' o hc hl h hc'
    have hout' : t.Open STDOUT_FILENO := (hc.open_iff _).mpr hout
    exact hl ((executeFds_spec hout' h).mp (hc.symm.trans hc'))

/-- The table with the three standard descriptors. -/
def standardDescriptors : Descriptors where
  file fd := if 0 ≤ fd ∧ fd ≤ 2 then some fd.toNat else none
  next := 3
  valid := by
    intro fd f h
    split at h
    case isTrue hfd =>
      obtain rfl := Option.some.inj h
      exact ⟨hfd.1, by omega⟩
    case isFalse => cases h

/-- Answers of a system that hands out the lowest free numbers and never fails. -/
def lowestAnswers : Answers where
  opened := some 3
  saveStdOutFd := some 4
  pipe := some (3, 4)
  readWritePipes := (0, 0)
  firstForked := true
  secondForked := true
  written := true
  files := [.opened 3 [some (text "a"), some []]]

/-- Printing a file and a pipeline conserve the descriptors when nothing fails. -/
theorem cat_and_pipe_conserve :
    fdMachine.EveryState standardDescriptors.Conserved standardDescriptors
      [(text "cat f", lowestAnswers)] ∧
    fdMachine.EveryState standardDescriptors.Conserved standardDescriptors
      [(text "ls | wc", lowestAnswers)] := by
  have hcat : path (text "cat f") = .executor (text "cat f") := by decide
  have hpipe : path (text "ls | wc") = .pipe [text "ls ", text " wc"] := by decide
  have hlookup : CommandExecutor.lookup (text "cat f") = .builtin (text "cat") [text "f"] := by
    decide
  constructor
  · refine (descriptors_conserved_iff (by decide) _).mpr fun t' o _ => ⟨?_, trivial⟩
    simp only [LeavesNothing, hcat, CommandExecutor.LeavesNothing, hlookup]
    decide
  · refine (descriptors_conserved_iff (by decide) _).mpr fun t' o _ => ⟨?_, trivial⟩
    simp only [LeavesNothing, hpipe]
    decide

/-- `pwd > f` leaves the saved standard output open, with no system call failing. -/
theorem pwd_to_file_not_conserved :
    standardDescriptors.Open STDOUT_FILENO ∧
      ∃ t out, fdMachine.step standardDescriptors (text "pwd > f", lowestAnswers) =
          .ok (t, out) ∧
        t.Open 4 ∧ ¬ standardDescriptors.Open 4 ∧ ¬ standardDescriptors.Conserved t := by
  refine ⟨by decide, _, _, rfl, by decide, by decide, fun hc => ?_⟩
  exact absurd ((hc.open_iff 4).mp (by decide)) (by decide)

end SmallShell

end OsWet
