import OsWet.Native.MainLoop
import Mathlib.Logic.Function.Iterate

/-!
# When the main loop ends

The main loop executes the line that is next in its standard input, turn by turn, until it
has executed a line whose first word is `quit`. Without such a line it does not end: at the
end of the input `getline` fails, and the empty line that it leaves is executed for ever.

A line is lost, or executed once more, when a command changes what the shell reads next. So
the loop executes the lines of its input, each once and in order, exactly if there is a line
that ends it and every line up to that one is the next one when its turn comes.

## Main results

- `main_ends_iff`: when `main` executes the lines up to the first `quit` and ends
- `endsAtQuit_iff_of_leavesInput`: no more than a `quit` is needed while no command reads or
  moves the standard input of the shell
-/

namespace OsWet.SmallShell

variable {σ : Type*}

/-- The first word of the line is `quit`. -/
def IsQuit (line : Text) : Prop :=
  (parseCommandLine (cStr line)).head? = some QUIT_COMMAND_KEYWORD

instance (line : Text) : Decidable (IsQuit line) :=
  inferInstanceAs (Decidable (_ = _))

/-- The lines up to the first one whose first word is `quit`, with that one. -/
def upToQuit : List Text → List Text
  | [] => []
  | line :: lines => if IsQuit line then [line] else line :: upToQuit lines

/-- The line that the next turn reads. -/
def nextLine (w : σ × InputStream Char) : Text := (w.2.getUntil '\n').1

section

variable (commands : Commands σ)

/-- The state after a turn of the main loop. -/
def turn (w : σ × InputStream Char) : σ × InputStream Char :=
  let (s, cin) :=
    share commands.removeFinishedJobs (commands.printPrompt w.1) (w.2.getUntil '\n').2
  (executeCommand commands s cin (cStr (nextLine w))).1

/-- The lines that the main loop executes. -/
def executed : Nat → σ × InputStream Char → List Text
  | 0, _ => []
  | fuel + 1, w => nextLine w :: if IsQuit (nextLine w) then [] else executed fuel (turn commands w)

/-- Each of these lines is the next one when its turn comes. -/
def ReadsInTurn : σ × InputStream Char → List Text → Prop
  | _, [] => True
  | w, line :: lines => nextLine w = line ∧ ReadsInTurn (turn commands w) lines

/-- After the turn the same is unread as after its `getline`: nobody has read the standard
    input of the shell, or has moved it. -/
def LeavesInput (w : σ × InputStream Char) : Prop :=
  (turn commands w).2 = (w.2.getUntil '\n').2

/-- `main` ends, and has executed, each once and in order, the lines of its input up to the
    first one whose first word is `quit`, or all of them if there is none. -/
def EndsAtQuit (s : σ) (input : Text) : Prop :=
  ∃ n s', ∀ fuel, n ≤ fuel → main commands fuel s input = .ok s' ∧
    executed commands fuel (s, .ofList input) = upToQuit (InputStream.pieces '\n' input)

end

variable {commands : Commands σ} {w : σ × InputStream Char}

/-! ## One turn -/

/-- The shell goes on unless the first word is `quit`. -/
theorem executeCommand_snd (s : σ) (cin : InputStream Char) (line : Text) :
    (executeCommand commands s cin (cStr line)).2 = !decide (IsQuit line) := by
  simp only [executeCommand, IsQuit]
  split
  · rename_i hblank
    simp [hblank]
  · rename_i hwords
    simp [hwords]

/-- One turn of the loop. -/
theorem mainLoop_succ (fuel : Nat) (w : σ × InputStream Char) :
    mainLoop commands (fuel + 1) w =
      if IsQuit (nextLine w) then .ok (turn commands w).1
      else mainLoop commands fuel (turn commands w) := by
  obtain ⟨s, cin⟩ := w
  simp only [mainLoop, turn, nextLine, executeCommand_snd]
  by_cases hquit : IsQuit (cin.getUntil '\n').1
  · simp [hquit]
  · simp [hquit]

/-- The empty line, which is what `getline` leaves at the end of the input, does not end the
    loop. -/
theorem not_isQuit_nil : ¬ IsQuit [] := by
  decide

/-! ## Up to the line that ends the loop -/

/-- The lines up to the first `quit` are lines of the input, and they have it if there is one. -/
theorem exists_isQuit_of_getLast? {lines : List Text} {line : Text}
    (hlast : (upToQuit lines).getLast? = some line) (hquit : IsQuit line) :
    ∃ line ∈ lines, IsQuit line := by
  have hsub : ∀ lines : List Text, upToQuit lines ⊆ lines := by
    intro lines
    induction lines with
    | nil => exact List.Subset.refl _
    | cons line lines ih =>
      rw [upToQuit]
      split
      · exact List.cons_subset_cons line (List.nil_subset lines)
      · exact List.cons_subset_cons line ih
  exact ⟨line, hsub lines (List.mem_of_getLast? hlast), hquit⟩

/-- A loop that has ended has executed a line that ends it, and no line after that. -/
theorem getLast?_executed {fuel : Nat} {s' : σ} (h : mainLoop commands fuel w = .ok s') :
    ∃ line, (executed commands fuel w).getLast? = some line ∧ IsQuit line := by
  induction fuel generalizing w with
  | zero => cases h
  | succ fuel ih =>
    rw [mainLoop_succ] at h
    rw [executed]
    by_cases hquit : IsQuit (nextLine w)
    · exact ⟨nextLine w, by simp [hquit], hquit⟩
    · rw [if_neg hquit] at h ⊢
      obtain ⟨line, hlast, hline⟩ := ih h
      refine ⟨line, ?_, hline⟩
      rw [List.getLast?_cons, hlast]
      rfl

/-- The lines that are executed are read in turn. -/
theorem readsInTurn_executed (fuel : Nat) (w : σ × InputStream Char) :
    ReadsInTurn commands w (executed commands fuel w) := by
  induction fuel generalizing w with
  | zero => trivial
  | succ fuel ih =>
    rw [executed]
    refine ⟨rfl, ?_⟩
    split
    · trivial
    · exact ih _

/-- Lines that are read in turn are executed up to the first `quit`, and then the loop ends. -/
theorem mainLoop_ends {lines : List Text} (hquit : ∃ line ∈ lines, IsQuit line)
    (hreads : ReadsInTurn commands w (upToQuit lines)) : ∃ s', ∀ fuel, lines.length ≤ fuel →
      mainLoop commands fuel w = .ok s' ∧ executed commands fuel w = upToQuit lines := by
  -- The induction is on the lines; one that does not end the loop is one turn.
  induction lines generalizing w with
  | nil =>
    obtain ⟨line, hmem, -⟩ := hquit
    exact absurd hmem List.not_mem_nil
  | cons line lines ih =>
    rw [upToQuit] at hreads ⊢
    by_cases hline : IsQuit line
    · rw [if_pos hline] at hreads ⊢
      obtain ⟨hnext, -⟩ := hreads
      refine ⟨(turn commands w).1, fun fuel hfuel => ?_⟩
      obtain ⟨fuel, rfl⟩ := Nat.exists_eq_add_of_le' (show 1 ≤ fuel from Nat.one_le_of_lt hfuel)
      rw [mainLoop_succ, executed, hnext, if_pos hline, if_pos hline]
      exact ⟨rfl, rfl⟩
    · rw [if_neg hline] at hreads ⊢
      obtain ⟨hnext, hreads⟩ := hreads
      have hrest : ∃ line ∈ lines, IsQuit line := by
        obtain ⟨line', hmem, hquit⟩ := hquit
        rcases List.mem_cons.mp hmem with rfl | hmem
        · exact absurd hquit hline
        · exact ⟨line', hmem, hquit⟩
      obtain ⟨s', hs'⟩ := ih hrest hreads
      refine ⟨s', fun fuel hfuel => ?_⟩
      rw [List.length_cons] at hfuel
      obtain ⟨fuel, rfl⟩ := Nat.exists_eq_add_of_le' (show 1 ≤ fuel by omega)
      obtain ⟨hok, hexecuted⟩ := hs' fuel (by omega)
      rw [mainLoop_succ, executed, hnext, if_neg hline, if_neg hline, hexecuted]
      exact ⟨hok, rfl⟩

/-- A `main` that ends as it should has read a line that ends it. -/
theorem exists_isQuit_of_endsAtQuit {s : σ} {input : Text} (h : EndsAtQuit commands s input) :
    ∃ line ∈ InputStream.pieces '\n' input, IsQuit line := by
  obtain ⟨n, s', hn⟩ := h
  obtain ⟨hok, hexecuted⟩ := hn n le_rfl
  obtain ⟨line, hlast, hquit⟩ := getLast?_executed hok
  rw [hexecuted] at hlast
  exact exists_isQuit_of_getLast? hlast hquit

/-- While the input is left alone, its lines are read in turn. -/
theorem readsInTurn_of_leavesInput {lines : List Text} (h : w.2.Yields '\n' lines)
    (hleaves : ∀ k, k + 1 < (upToQuit lines).length →
      LeavesInput commands ((turn commands)^[k] w)) :
    ReadsInTurn commands w (upToQuit lines) := by
  generalize hcin : w.2 = cin at h
  induction h generalizing w with
  | atEnd => trivial
  | @read cin lines hyields ih =>
    subst hcin
    rw [upToQuit] at hleaves ⊢
    by_cases hquit : IsQuit (w.2.getUntil '\n').1
    · rw [if_pos hquit]
      exact ⟨rfl, trivial⟩
    · rw [if_neg hquit] at hleaves ⊢
      refine ⟨rfl, ?_⟩
      -- The turns after this one start with what it has left unread, if there are any.
      cases hrest : upToQuit lines with
      | nil => trivial
      | cons line rest =>
        rw [← hrest]
        refine ih (fun k hk => hleaves (k + 1) ?_) (hleaves 0 ?_)
        · rw [List.length_cons]
          exact Nat.succ_lt_succ hk
        · simp [hrest]

/-- While no command that is run before the first `quit` reads or moves the standard input of
    the shell, `main` ends as it should exactly if there is a `quit`. -/
theorem endsAtQuit_iff_of_leavesInput {s : σ} {input : Text}
    (hleaves : ∀ k, k + 1 < (upToQuit (InputStream.pieces '\n' input)).length →
      LeavesInput commands ((turn commands)^[k] (s, .ofList input))) :
    EndsAtQuit commands s input ↔ ∃ line ∈ InputStream.pieces '\n' input, IsQuit line := by
  constructor
  · exact exists_isQuit_of_endsAtQuit
  · intro hquit
    have hyields : (InputStream.ofList input).Yields '\n' (InputStream.pieces '\n' input) :=
      InputStream.yields_pieces input
    obtain ⟨s', hs'⟩ := mainLoop_ends hquit (readsInTurn_of_leavesInput hyields hleaves)
    exact ⟨_, s', hs'⟩

/-! ## Without a `quit` -/

/-- At the end of the input the loop goes on with empty lines. -/
theorem mainLoop_atEnd (hleaves : ∀ w, LeavesInput commands w) (hend : w.2.rest = [])
    (fuel : Nat) : mainLoop commands fuel w = .stuck := by
  induction fuel generalizing w with
  | zero => rfl
  | succ fuel ih =>
    obtain ⟨hread, hrest⟩ : nextLine w = [] ∧ (w.2.getUntil '\n').2.rest = [] :=
      InputStream.getUntil_atEnd hend
    rw [mainLoop_succ, hread, if_neg not_isQuit_nil]
    apply ih
    rw [hleaves w, hrest]

/-- Without a line that ends it the loop goes on for ever, if nobody brings lines back. -/
theorem mainLoop_spins {lines : List Text} (hleaves : ∀ w, LeavesInput commands w)
    (h : w.2.Yields '\n' lines) (hquit : ∀ line ∈ lines, ¬ IsQuit line) (fuel : Nat) :
    mainLoop commands fuel w = .stuck := by
  generalize hcin : w.2 = cin at h
  induction h generalizing fuel w with
  | atEnd hend => exact mainLoop_atEnd hleaves (hcin ▸ hend) fuel
  | read hyields ih =>
    subst hcin
    cases fuel with
    | zero => rfl
    | succ fuel =>
      have hline : ¬ IsQuit (nextLine w) := hquit _ List.mem_cons_self
      rw [mainLoop_succ, if_neg hline]
      exact ih (fun line hmem => hquit line (List.mem_cons_of_mem _ hmem)) fuel (hleaves w)

/-- Commands that write down which lines are executed. -/
def logging : Commands (List Text) where
  printPrompt log := log
  removeFinishedJobs after := after
  setCurrentCommand log cmd_line := log ++ [cmd_line]
  pipeCommand after _ := after
  redirectionCommand after _ _ _ := after
  commandExecutor after _ := after

example : main logging 3 [] (text "ls\nquit kill\npwd") = .ok [text "ls", text "quit kill"] := by
  decide

/-- With a command that reads the rest of the input the `quit` is never executed. -/
example : executed { logging with commandExecutor := fun after _ => (after.1, []) } 3
    ([], .ofList (text "cat\nquit\n")) = [text "cat", [], []] := by
  decide

/-- Writing lines down leaves the input alone. -/
theorem logging_leavesInput (w : List Text × InputStream Char) : LeavesInput logging w := by
  rw [LeavesInput, turn]
  simp only [executeCommand]
  split
  · exact InputStream.moved_rest _
  · -- No path of the line touches the input either.
    split <;> simp [share, logging]

end OsWet.SmallShell
