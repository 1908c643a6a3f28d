import OsWet.Native.Request
import Mathlib.Tactic.SplitIfs

/-!
# When a request terminates the server

Every wrapper of a system call ends the whole process when the call fails. So one request
ends the server exactly when the system answers one of its calls with a failure that is
not handled: all but those of `stat`, and `EINTR` from `read` and `write`. An empty file is
such a case, since nothing can be mapped with length 0.

## Main result

- `requestHandle_exits_iff`: along the answers to the calls of a request, the server goes on
  exactly as long as no answer is fatal
-/

namespace OsWet

open Text

/-- A failure that a wrapper does not survive. -/
def SysAnswer.Fatal : SysAnswer → Prop
  | .read (.error errno) => errno ≠ .EINTR
  | .write (.error errno) => errno ≠ .EINTR
  | .open result => result = none
  | .mmap result => result = none
  | .close result => result = none
  | .munmap result => result = none
  | .fork result => result = none
  | .waitpid result => result = none
  | _ => False

/-- A process of the server that fails exactly at a fatal answer. -/
abbrev ExactAt {α : Type} (bad : α → Prop) (p : ServerProcess α) : Prop :=
  Process.Exact SysCall.allows SysAnswer.Fatal bad p

/-- A process that terminates the server exactly at a fatal answer. -/
abbrev ExitsAt {α : Type} (p : ServerProcess α) : Prop := ExactAt (fun _ => False) p

/-! ## Wrappers -/

/-- A wrapper exits exactly when its call fails. -/
theorem exitsAt_wrapper {α : Type} {call : SysCall} {result : SysAnswer → Option α} {msg : String}
    (h : ∀ a, call.allows a → (a.Fatal ↔ result a = none)) :
    ExitsAt (wrapper call result msg) := by
  apply Process.exact_ask_bind
  · intro a hallows hfatal
    rw [(h a hallows).mp hfatal]
    exact Process.fails_fault _ _
  · intro a hallows hgood
    obtain ⟨x, hx⟩ := Option.ne_none_iff_exists'.mp (mt (h a hallows).mpr hgood)
    rw [hx]
    exact Process.exact_pure not_false

/-- `Fork` exits when `fork` fails. -/
theorem exitsAt_Fork (filename cgiargs : Text) : ExitsAt (Fork filename cgiargs) := by
  apply exitsAt_wrapper
  intro a hallows
  cases a with
  | fork result => exact Iff.rfl
  | _ => cases hallows

/-- `WaitPid` exits when `waitpid` fails. -/
theorem exitsAt_WaitPid (pid : Int) : ExitsAt (WaitPid pid) := by
  apply exitsAt_wrapper
  intro a hallows
  cases a with
  | waitpid result => exact Iff.rfl
  | _ => cases hallows

/-- `Open` exits when `open` fails. -/
theorem exitsAt_Open (pathname : Text) : ExitsAt (Open pathname) := by
  apply exitsAt_wrapper
  intro a hallows
  cases a with
  | «open» result => exact Iff.rfl
  | _ => cases hallows

/-- `Close` exits when `close` fails. -/
theorem exitsAt_Close (fd : Int) : ExitsAt (Close fd) := by
  apply exitsAt_wrapper
  intro a hallows
  cases a with
  | close result => exact Iff.rfl
  | _ => cases hallows

/-- `Mmap` exits when `mmap` fails. -/
theorem exitsAt_Mmap (len : Nat) (fd : Int) : ExitsAt (Mmap len fd) := by
  apply exitsAt_wrapper
  intro a hallows
  cases a with
  | mmap result => exact Iff.rfl
  | _ => cases hallows

/-- `Munmap` exits when `munmap` fails. -/
theorem exitsAt_Munmap (length : Nat) : ExitsAt (Munmap length) := by
  apply exitsAt_wrapper
  intro a hallows
  cases a with
  | munmap result => exact Iff.rfl
  | _ => cases hallows

/-- `stat` has no wrapper. -/
theorem exitsAt_stat (filename : Text) : ExitsAt (stat filename) := by
  apply Process.exact_ask_bind
  · intro a hallows hfatal
    cases a with
    | stat result => cases hfatal
    | _ => cases hallows
  · intro a hallows _
    cases a with
    | stat result => exact Process.exact_pure not_false
    | _ => cases hallows

/-! ## Robust output -/

/-- Each round of `rio_writen` takes an answer. -/
theorem decreases_rio_writenRound (fd : Int) :
    Process.Decreases answersLeft (rio_writenRound fd) := by
  intro bufp answers bufp' rest h
  unfold rio_writenRound at h
  split at h
  case isTrue => cases h
  case isFalse =>
    obtain ⟨a, rest', hask, hround⟩ := Process.bind_eq_done.mp h
    obtain ⟨rfl, -⟩ := Process.ask_eq_done.mp hask
    -- The round used one answer.
    split at hround <;> cases hround
    · exact Nat.lt_succ_self _
    · exact Nat.lt_succ_self _

/-- A round of `rio_writen` goes wrong exactly when `write` fails, an interruption apart. -/
theorem exactAt_rio_writenRound (fd : Int) (bufp : Text) :
    ExactAt (Process.badRound (· = false)) (rio_writenRound fd bufp) := by
  unfold rio_writenRound
  split
  · -- Nothing is left to write.
    exact Process.exact_pure (by simp [Process.badRound])
  · apply Process.exact_ask_bind
    · intro a hallows hfatal
      cases a with
      | write result =>
        cases result with
        | ok n => cases hfatal
        | error errno =>
          cases errno with
          -- Interrupted calls are made again, every other failure ends the loop.
          | EINTR => exact absurd rfl hfatal
          | other => exact Process.fails_pure rfl
      | _ => cases hallows
    · intro a hallows hgood
      cases a with
      | write result =>
        cases result with
        | ok n => exact Process.exact_pure not_false
        | error errno =>
          cases errno with
          | EINTR => exact Process.exact_pure not_false
          | other => exact absurd Errno.noConfusion hgood
      | _ => cases hallows

/-- So does the whole loop. -/
theorem exactAt_rio_writen (fd : Int) (usrbuf : Text) :
    ExactAt (· = false) (rio_writen fd usrbuf) :=
  Process.Exact.iterate (decreases_rio_writenRound fd) (exactAt_rio_writenRound fd) usrbuf

/-- `Rio_writen` exits when a `write` fails, an interruption apart. -/
theorem exitsAt_Rio_writen (fd : Int) (usrbuf : Text) : ExitsAt (Rio_writen fd usrbuf) := by
  -- `Rio_writen` calls `unix_error` exactly when `rio_writen` gives -1.
  apply (exactAt_rio_writen fd usrbuf).bind
  · rintro _ - rfl
    exact Process.fails_fault _ _
  · intro written _ hwritten
    rw [Bool.not_eq_false] at hwritten
    rw [hwritten]
    exact Process.exact_pure not_false

/-! ## Robust input -/

/-- A round ends the loop when there are bytes in the buffer, and uses an answer otherwise. -/
theorem rio_readRound_cases {rp : Rio} {answers rest : List SysAnswer} {r : Rio ⊕ Except Int Rio}
    (h : rio_readRound rp answers = .done r rest) :
    (rp.rio_buf ≠ [] ∧ r = .inr (.ok rp) ∧ rest = answers) ∨
      (rp.rio_buf = [] ∧ ∃ a, answers = a :: rest ∧
        (a = .read (.ok []) ∧ r = .inr (.error 0) ∨
          (∃ bytes, bytes ≠ [] ∧ a = .read (.ok bytes) ∧ r = .inl { rp with rio_buf := bytes }) ∨
          a = .read (.error .EINTR) ∧ r = .inl rp ∨
          a = .read (.error .other) ∧ r = .inr (.error (-1)))) := by
  unfold rio_readRound at h
  split at h
  case isTrue hne =>
    -- There are bytes in the buffer: no call is made.
    cases h
    exact .inl ⟨hne, rfl, rfl⟩
  case isFalse hempty =>
    obtain ⟨a, rest', hask, hround⟩ := Process.bind_eq_done.mp h
    obtain ⟨rfl, hallows⟩ := Process.ask_eq_done.mp hask
    refine .inr ⟨not_not.mp hempty, a, ?_⟩
    cases a with
    | read result =>
      cases result with
      | ok bytes =>
        cases bytes with
        | nil =>
          cases hround
          exact ⟨rfl, .inl ⟨rfl, rfl⟩⟩
        | cons c bytes =>
          cases hround
          exact ⟨rfl, .inr (.inl ⟨_, List.cons_ne_nil c bytes, rfl, rfl⟩)⟩
      | error errno =>
        cases errno with
        | EINTR =>
          cases hround
          exact ⟨rfl, .inr (.inr (.inl ⟨rfl, rfl⟩))⟩
        | other =>
          cases hround
          exact ⟨rfl, .inr (.inr (.inr ⟨rfl, rfl⟩))⟩
    | _ => cases hallows

/-- Each round of the loop of `rio_read` takes an answer. -/
theorem decreases_rio_readRound : Process.Decreases answersLeft rio_readRound := by
  intro rp answers rp' rest h
  obtain ⟨-, hr, -⟩ | ⟨-, a, rfl, -⟩ := rio_readRound_cases h
  · cases hr
  · exact Nat.lt_succ_self _

/-- A round of that loop goes wrong exactly when `read` fails, an interruption apart. -/
theorem exactAt_rio_readRound (rp : Rio) :
    ExactAt (Process.badRound (· = .error (-1))) (rio_readRound rp) := by
  unfold rio_readRound
  -- Bytes in the buffer: no call is made and nothing can fail.
  split
  · exact Process.exact_pure (by simp [Process.badRound])
  · -- One answer to the `read`, fatal or not.
    apply Process.exact_ask_bind
    · intro a hallows hfatal
      cases a with
      | read result =>
        cases result with
        | ok bytes => cases hfatal
        | error errno =>
          cases errno with
          -- A signal is no failure.
          | EINTR => exact absurd rfl hfatal
          | other => exact Process.fails_pure rfl
      | _ => cases hallows
    · intro a hallows hgood
      cases a with
      | read result =>
        cases result with
        | ok bytes =>
          -- The end of the file ends the loop, a byte starts the copy.
          cases bytes with
          | nil => exact Process.exact_pure (by simp [Process.badRound])
          | cons c bytes => exact Process.exact_pure not_false
        | error errno =>
          cases errno with
          | EINTR => exact Process.exact_pure not_false
          | other => exact absurd Errno.noConfusion hgood
      | _ => cases hallows

/-- The refill ends the function with -1 exactly when a `read` fails. -/
theorem exactAt_rio_readLoop (rp : Rio) :
    ExactAt (· = .error (-1)) (Process.iterate answersLeft rio_readRound rp) :=
  Process.Exact.iterate decreases_rio_readRound exactAt_rio_readRound rp

/-- The refill ends with bytes in the buffer, or with 0 or -1. -/
theorem rio_readLoop_returns {rp : Rio} {r : Except Int Rio}
    (h : (Process.iterate answersLeft rio_readRound rp).Returns r) :
    r = .error 0 ∨ r = .error (-1) ∨ ∃ rp', r = .ok rp' ∧ rp'.rio_buf ≠ [] := by
  obtain ⟨answers, rest, hrun⟩ := h
  -- Only the round that ends the loop decides the result, so nothing is carried along.
  refine Process.iterate_induction (P := fun _ _ => True)
    (Q := fun r _ => r = .error 0 ∨ r = .error (-1) ∨ ∃ rp', r = .ok rp' ∧ rp'.rio_buf ≠ [])
    decreases_rio_readRound (fun _ _ _ _ _ _ => trivial) ?_ trivial hrun
  intro rp answers r rest _ hround
  obtain ⟨hne, hr, -⟩ | ⟨-, a, -, ⟨-, hr⟩ | ⟨bytes, -, -, hr⟩ | ⟨-, hr⟩ | ⟨-, hr⟩⟩ :=
    rio_readRound_cases hround
  · exact .inr (.inr ⟨rp, Sum.inr.inj hr, hne⟩)
  · exact .inl (Sum.inr.inj hr)
  · cases hr
  · cases hr
  · exact .inr (.inl (Sum.inr.inj hr))

/-- `rio_read` returns -1 or a number of bytes. -/
theorem rio_read_returns {rp rp' : Rio} {n : Nat} {rc : Int} {bytes : Text}
    (h : (rio_read rp n).Returns (rc, bytes, rp')) : rc = -1 ∨ 0 ≤ rc ∧ rc ≤ n := by
  obtain ⟨r, hloop, hrest⟩ := Process.returns_bind h
  -- At the end of the file the result is 0, after a failure it is -1.
  obtain rfl | rfl | ⟨rp₁, rfl, -⟩ := rio_readLoop_returns hloop
  · obtain ⟨_, _, hrest⟩ := hrest
    cases hrest
    omega
  · obtain ⟨_, _, hrest⟩ := hrest
    cases hrest
    exact .inl rfl
  · obtain ⟨_, _, hrest⟩ := hrest
    cases hrest
    omega

/-- `rio_read` goes wrong exactly when a `read` fails, an interruption apart. -/
theorem exactAt_rio_read (rp : Rio) (n : Nat) :
    ExactAt (fun r => r.1 < 0) (rio_read rp n) := by
  apply (exactAt_rio_readLoop rp).bind
  · rintro _ - rfl
    exact Process.fails_pure (by decide : (-1 : Int) < 0)
  · intro r hloop hgood
    obtain rfl | rfl | ⟨rp₁, rfl, -⟩ := rio_readLoop_returns hloop
    · exact Process.exact_pure (by decide : ¬ (0 : Int) < 0)
    · exact absurd rfl hgood
    · exact Process.exact_pure (by omega)

/-- Each round of `rio_readlineb` leaves room for fewer characters. -/
theorem decreases_rio_readlinebRound (maxlen : Nat) :
    Process.Decreases (fun s _ => maxlen - s.n) (rio_readlinebRound maxlen) := by
  intro s answers s' rest h
  unfold rio_readlinebRound at h
  split at h
  case isTrue hlt =>
    obtain ⟨⟨rc, c, rp⟩, rest', -, h⟩ := Process.bind_eq_done.mp h
    dsimp only at h
    -- A round that goes on has put one more character into the line.
    split_ifs at h <;> cases h
    show maxlen - (s.n + 1) < maxlen - s.n
    omega
  case isFalse => cases h

/-- A round of `rio_readlineb` goes wrong exactly when its `rio_read` does. -/
theorem exactAt_rio_readlinebRound (maxlen : Nat) (s : ReadLine) :
    ExactAt (Process.badRound fun r => r.1 < 0) (rio_readlinebRound maxlen s) := by
  unfold rio_readlinebRound
  split
  · -- A negative count is a failure of the round; a byte or the end of the file is not.
    apply (exactAt_rio_read s.rp 1).bind
    · rintro ⟨rc, c, rp⟩ - hneg
      have hneg : rc < 0 := hneg
      dsimp only
      -- -1 is neither 1 nor 0, so the round returns -1.
      rw [if_neg (by omega : ¬ rc = 1), if_neg (by omega : ¬ rc = 0)]
      exact Process.fails_pure (by decide : (-1 : Int) < 0)
    · intro h hreturns hnonneg
      obtain ⟨rc, c, rp⟩ := h
      have hnonneg : ¬ rc < 0 := hnonneg
      have hrange := rio_read_returns hreturns
      dsimp only
      split_ifs
      · exact Process.exact_pure (by simp [Process.badRound])
      · exact Process.exact_pure not_false
      · exact Process.exact_pure (by simp [Process.badRound])
      · exact Process.exact_pure (by simp [Process.badRound])
      · -- `rio_read` was asked for one byte, so there is no other case.
        omega
  · -- The line is full, and is returned without another read.
    exact Process.exact_pure (by simp [Process.badRound])

/-- So does the whole line. -/
theorem exactAt_rio_readlineb (rp : Rio) (maxlen : Nat) :
    ExactAt (fun r => r.1 < 0) (rio_readlineb rp maxlen) :=
  Process.Exact.iterate (decreases_rio_readlinebRound maxlen) (exactAt_rio_readlinebRound maxlen) _

/-- `Rio_readlineb` exits when a `read` fails, an interruption apart. -/
theorem exitsAt_Rio_readlineb (rp : Rio) (usrbuf : Text) (maxlen : Nat) :
    ExitsAt (Rio_readlineb rp usrbuf maxlen) := by
  apply (exactAt_rio_readlineb rp maxlen).bind
  · rintro ⟨rc, line, rp'⟩ - hneg
    have hneg : rc < 0 := hneg
    dsimp only
    rw [if_pos hneg]
    exact Process.fails_fault _ _
  · rintro ⟨rc, line, rp'⟩ - hnonneg
    have hnonneg : ¬ rc < 0 := hnonneg
    dsimp only
    rw [if_neg hnonneg]
    exact Process.exact_pure not_false

/-! ## The input that is left -/

/-- What the refill of a buffer leaves of the input `N`: it moves input into the buffer, and
    uses up an answer when it fails. -/
def RefillLeaves (fd : Int) (N : Nat) : Except Int Rio → List SysAnswer → Prop
  | .error _, rest => Rio.inputLeft ⟨fd, []⟩ rest < N
  | .ok rp, rest => rp.rio_buf ≠ [] ∧ rp.inputLeft rest ≤ N

/-- A refill that ends leaves no more input than there was. -/
theorem rio_readLoop_leaves {rp : Rio} {answers rest : List SysAnswer} {r : Except Int Rio}
    (h : Process.iterate answersLeft rio_readRound rp answers = .done r rest) :
    RefillLeaves rp.rio_fd (rp.inputLeft answers) r rest := by
  -- The invariant: interrupted reads only use up input.
  refine Process.iterate_induction
    (P := fun rp' rest => rp'.inputLeft rest ≤ rp.inputLeft answers)
    decreases_rio_readRound ?_ ?_ (Nat.le_refl _) h
  · intro rp₁ answers₁ rp₂ rest₁ hP hround
    -- Five outcomes of a round; only a filled buffer and an interrupted call have a next one.
    obtain ⟨-, hr, -⟩ | ⟨hempty, a, rfl, ⟨-, hr⟩ | ⟨bytes, -, rfl, hr⟩ | ⟨rfl, hr⟩ | ⟨-, hr⟩⟩ :=
      rio_readRound_cases hround
    · cases hr
    · cases hr
    · -- What the buffer gains, the answers lose.
      cases hr
      simp only [Rio.inputLeft, hempty, List.map_cons, List.sum_cons, List.length_nil] at hP ⊢
      omega
    · cases hr
      simp only [Rio.inputLeft, List.map_cons, List.sum_cons] at hP ⊢
      omega
    · cases hr
  · intro rp₁ answers₁ r₁ rest₁ hP hround
    -- The same five outcomes; the buffer, the end and the failure end the loop.
    obtain ⟨hne, hr, rfl⟩ | ⟨-, a, rfl, ⟨rfl, hr⟩ | ⟨bytes, -, -, hr⟩ | ⟨-, hr⟩ | ⟨rfl, hr⟩⟩ :=
      rio_readRound_cases hround
    · cases hr
      exact ⟨hne, hP⟩
    · cases hr
      simp only [RefillLeaves, Rio.inputLeft, List.map_cons, List.sum_cons, List.length_nil] at hP ⊢
      omega
    · cases hr
    · cases hr
    · cases hr
      simp only [RefillLeaves, Rio.inputLeft, List.map_cons, List.sum_cons, List.length_nil] at hP ⊢
      omega

/-- A character that is read leaves less input. -/
theorem rio_read_inputLeft {rp rp' : Rio} {n : Nat} {answers rest : List SysAnswer} {rc : Int}
    {bytes : Text} (hn : 0 < n) (h : rio_read rp n answers = .done (rc, bytes, rp') rest) :
    rp'.inputLeft rest < rp.inputLeft answers := by
  obtain ⟨r, rest', hloop, h⟩ := Process.bind_eq_done.mp h
  have hleaves := rio_readLoop_leaves hloop
  cases r with
  | error rc =>
    cases h
    exact hleaves
  | ok rp₁ =>
    cases h
    -- The buffer is not empty, so at least one byte is taken.
    obtain ⟨hne, hle⟩ := hleaves
    have hpos := List.length_pos_iff.mpr hne
    simp only [Rio.inputLeft, List.length_drop] at hle ⊢
    omega

/-- Reading a line uses up input, even at the end of the input. -/
theorem rio_readlineb_inputLeft {rp rp' : Rio} {maxlen : Nat} {answers rest : List SysAnswer}
    {rc : Int} {line : Option Text} (hmaxlen : 1 < maxlen)
    (h : rio_readlineb rp maxlen answers = .done (rc, line, rp') rest) :
    rp'.inputLeft rest < rp.inputLeft answers := by
  -- After the first round input has been used; `n` is 1 only before it.
  refine Process.iterate_induction
    (P := fun s rest => s.rp.inputLeft rest ≤ rp.inputLeft answers ∧
      (s.n ≠ 1 → s.rp.inputLeft rest < rp.inputLeft answers))
    (Q := fun r rest => r.2.2.inputLeft rest < rp.inputLeft answers)
    (decreases_rio_readlinebRound maxlen) ?_ ?_ ⟨Nat.le_refl _, fun hn => absurd rfl hn⟩ h
  · intro s answers₁ s' rest₁ hP hround
    unfold rio_readlinebRound at hround
    split at hround
    case isTrue hlt =>
      -- The round reads one byte, which costs one byte of the input.
      obtain ⟨⟨rc, c, rp₁⟩, rest₂, hread, hround⟩ := Process.bind_eq_done.mp hround
      have hless := Nat.lt_of_lt_of_le (rio_read_inputLeft Nat.zero_lt_one hread) hP.1
      dsimp only at hround
      split_ifs at hround <;> cases hround
      exact ⟨Nat.le_of_lt hless, fun _ => hless⟩
    case isFalse => cases hround
  · intro s answers₁ r rest₁ hP hround
    unfold rio_readlinebRound at hround
    split at hround
    case isTrue hlt =>
      obtain ⟨⟨rc, c, rp₁⟩, rest₂, hread, hround⟩ := Process.bind_eq_done.mp hround
      have hless := Nat.lt_of_lt_of_le (rio_read_inputLeft Nat.zero_lt_one hread) hP.1
      dsimp only at hround
      split_ifs at hround <;> cases hround <;> exact hless
    case isFalse hge =>
      cases hround
      exact hP.2 (by omega)

/-- A line that is read leaves less input. -/
theorem Rio_readlineb_inputLeft {rp rp' : Rio} {usrbuf buf : Text} {maxlen : Nat}
    {answers rest : List SysAnswer} (hmaxlen : 1 < maxlen)
    (h : Rio_readlineb rp usrbuf maxlen answers = .done (buf, rp') rest) :
    rp'.inputLeft rest < rp.inputLeft answers := by
  obtain ⟨⟨rc, line, rp₁⟩, rest₁, hline, h⟩ := Process.bind_eq_done.mp h
  dsimp only at h
  split at h <;> cases h
  exact rio_readlineb_inputLeft hmaxlen hline

/-! ## The request -/

/-- Each round of `requestReadhdrs` leaves less input. -/
theorem decreases_requestReadhdrsRound :
    Process.Decreases (fun s => s.2.inputLeft) requestReadhdrsRound := by
  rintro ⟨buf, rp⟩ answers ⟨buf', rp'⟩ rest h
  unfold requestReadhdrsRound at h
  split at h
  case isTrue => cases h
  case isFalse =>
    -- Reading a header line uses up input, which is what makes the loop end.
    obtain ⟨s, rest', hline, h⟩ := Process.bind_eq_done.mp h
    cases h
    exact Rio_readlineb_inputLeft (by decide) hline

/-- A round of `requestReadhdrs` exits when it cannot read a line. -/
theorem exactAt_requestReadhdrsRound (s : Text × Rio) :
    ExactAt (Process.badRound fun _ => False) (requestReadhdrsRound s) := by
  unfold requestReadhdrsRound
  split
  · exact Process.exact_pure not_false
  · apply (exitsAt_Rio_readlineb s.2 s.1 MAXLINE).andThen
    intro s _
    exact Process.exact_pure not_false

/-- `requestReadhdrs` exits when it cannot read a line. -/
theorem exitsAt_requestReadhdrs (rp : Rio) (buf : Text) : ExitsAt (requestReadhdrs rp buf) := by
  apply (exitsAt_Rio_readlineb rp buf MAXLINE).andThen
  intro s _
  exact Process.Exact.iterate decreases_requestReadhdrsRound exactAt_requestReadhdrsRound s

/-- `requestError` exits when it cannot write. -/
theorem exitsAt_requestError (fd : Int) (cause errnum shortmsg longmsg : Text) :
    ExitsAt (requestError fd cause errnum shortmsg longmsg) := by
  unfold requestError
  apply (exitsAt_Rio_writen fd _).andThen
  intro _ _
  apply (exitsAt_Rio_writen fd _).andThen
  intro _ _
  apply (exitsAt_Rio_writen fd _).andThen
  intro _ _
  exact exitsAt_Rio_writen fd _

/-- `requestServeDynamic` exits when one of its calls fails. -/
theorem exitsAt_requestServeDynamic (fd : Int) (filename cgiargs : Text) (metaData : MetaData) :
    ExitsAt (requestServeDynamic fd filename cgiargs metaData) := by
  apply (exitsAt_Rio_writen fd _).andThen
  intro _ _
  apply (exitsAt_Fork filename cgiargs).andThen
  intro forkedPID _
  exact exitsAt_WaitPid forkedPID

/-- `requestServeStatic` exits when one of its calls fails. -/
theorem exitsAt_requestServeStatic (fd : Int) (filename : Text) (filesize : Int)
    (metaData : MetaData) : ExitsAt (requestServeStatic fd filename filesize metaData) := by
  apply (exitsAt_Open filename).andThen
  intro srcfd _
  apply (exitsAt_Mmap _ srcfd).andThen
  intro srcp _
  apply (exitsAt_Close srcfd).andThen
  intro _ _
  apply (exitsAt_Rio_writen fd _).andThen
  intro _ _
  apply (exitsAt_Rio_writen fd srcp).andThen
  intro _ _
  exact exitsAt_Munmap _

/-- What a process returns after the last call is not bad. -/
theorem ExitsAt.thenReturn {α β : Type} {p : ServerProcess α} (h : ExitsAt p) (b : β) :
    ExitsAt (p >>= fun _ => pure b) :=
  h.andThen fun _ _ => Process.exact_pure not_false

/-- Serving exits when one of the calls fails. -/
theorem exitsAt_requestServe (fd : Int) (metaData : MetaData) (parsed : ParsedURI)
    (sbuf : Stat) : ExitsAt (requestServe fd metaData parsed sbuf) := by
  unfold requestServe
  split
  · split
    · exact (exitsAt_requestError fd _ _ _ _).thenReturn _
    · exact (exitsAt_requestServeStatic fd _ _ _).thenReturn _
  · split
    · exact (exitsAt_requestError fd _ _ _ _).thenReturn _
    · exact (exitsAt_requestServeDynamic fd _ _ _).thenReturn _

/-- `requestHandle` exits when one of its calls fails, except `stat`. -/
theorem exitsAt_requestHandle (fd : Int) (metaData : MetaData) (buffers : Buffers) :
    ExitsAt (requestHandle fd metaData buffers) := by
  apply (exitsAt_Rio_readlineb _ buffers.buf MAXLINE).andThen
  intro h _
  obtain ⟨buf, rio⟩ := h
  dsimp only
  split
  · apply (exitsAt_requestReadhdrs rio buffers.headerBuf).andThen
    intro _ _
    apply (exitsAt_stat _).andThen
    rintro (_ | sbuf) _
    · exact (exitsAt_requestError fd _ _ _ _).thenReturn _
    · exact exitsAt_requestServe fd metaData _ sbuf
  · exact (exitsAt_requestError fd _ _ _ _).thenReturn _

/-- Whatever the client sends and the system answers, a request leaves the server running as
    long as none of its calls gets a fatal answer, and no longer. -/
theorem requestHandle_exits_iff (fd : Int) (metaData : MetaData) (buffers : Buffers)
    (answers : List SysAnswer) :
    (Process.machine SysCall.allows (requestHandle fd metaData buffers)).EveryState
        (fun answers => ∀ msg, requestHandle fd metaData buffers answers ≠ .fault msg) [] answers ↔
      (Process.machine SysCall.allows (requestHandle fd metaData buffers)).EveryStep
        (fun _ answer => ¬ answer.Fatal) [] answers :=
  (exitsAt_requestHandle fd metaData buffers).everyState_iff answers

/-- An empty file cannot be mapped. -/
theorem fatal_of_mmap_zero {fd : Int} {a : SysAnswer} (h : (SysCall.mmap 0 fd).allows a) :
    a.Fatal := by
  cases a with
  | mmap result =>
    cases result with
    | none => rfl
    | some bytes => cases h
  | _ => cases h

/-- A client asks for the empty file `e`. -/
def emptyFileAnswers : List SysAnswer :=
  [.read (.ok (text "GET /e HTTP/1.0\r\n\r\n")), .stat (some ⟨0o100644, 0⟩), .open (some 6),
    .mmap none]

/-- The request for an empty file terminates the server: no other answer is possible. -/
theorem empty_file_exits :
    let request := requestHandle 5 ⟨⟨0, 0⟩, ⟨0, 0⟩, 0, 1, 0, 0⟩ ⟨[], [], [], [], [], '/', []⟩
    request emptyFileAnswers.dropLast = .waiting (.mmap 0 6) ∧
      (∀ a, (SysCall.mmap 0 6).allows a → a.Fatal) ∧
      request emptyFileAnswers = .fault (text "mmap error") :=
  ⟨by rfl, fun _ => fatal_of_mmap_zero, by rfl⟩

end OsWet
