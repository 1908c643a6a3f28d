import OsWet.ForStd.World
import OsWet.Spec.RequestExit

/-!
# A client and a file system

The world of a request: a client that sends a fixed stream of bytes, in any portions, and a
file system. Reads and writes may be interrupted or fail, and a write may write any part of
its data; what a CGI program writes goes to the client.

The lemmas `runs_` say what a function does to the world in every run that returns, and the
lemmas `exists_` that there is such a run.
-/

namespace OsWet

open Text

/-- What a request can see of the files: what `stat` says of one, what it shows when it is
    mapped with a length, and what it writes when it is executed with a query string. -/
structure FileSystem where
  stat : Text → Option Stat
  mmap : Text → Nat → Option Text
  cgi : Text → Text → Text

/-- The bytes of the client that have not been read, the bytes it was sent, and the file that
    was opened last. -/
structure RequestWorld where
  client : Text
  written : Text
  opened : Text
  deriving DecidableEq, Repr

namespace RequestWorld

/-- The world after the client was sent some more. -/
def sent (w : RequestWorld) (data : Text) : RequestWorld :=
  { w with written := w.written ++ data }

/-- Sending nothing changes nothing. -/
@[simp] theorem sent_nil (w : RequestWorld) : w.sent [] = w := by simp [sent]

/-- What is sent in two steps can be sent in one. -/
@[simp] theorem sent_sent (w : RequestWorld) (data data' : Text) :
    (w.sent data).sent data' = w.sent (data ++ data') := by simp [sent]

/-- What is sent comes behind what was written. -/
@[simp] theorem sent_written (w : RequestWorld) (data : Text) :
    (w.sent data).written = w.written ++ data := rfl

/-- The world after an answer to a call, if it can give this answer. -/
def next (fs : FileSystem) (w : RequestWorld) : SysCall → SysAnswer → Option RequestWorld
  | .read _ _, .read (.ok bytes) =>
    -- nothing is read only at the end of the stream
    if bytes <+: w.client ∧ (bytes = [] → w.client = []) then
      some { w with client := w.client.drop bytes.length }
    else none
  | .write _ data, .write (.ok n) => some (w.sent (data.take n))
  | .stat filename, .stat result => if result = fs.stat filename then some w else none
  | .open filename, .open _ => some { w with opened := filename }
  | .mmap length _, .mmap result => if result = fs.mmap w.opened length then some w else none
  | .fork filename cgiargs, .fork (some _) =>
    some (w.sent (fs.cgi filename cgiargs))
  | _, _ => some w

/-- The world before a request: nothing has been read or written. -/
def start (stream : Text) : RequestWorld := ⟨stream, [], []⟩

end RequestWorld

/-- A run of the server process with this file system. -/
abbrev RunsWith {α : Type} (fs : FileSystem) (p : ServerProcess α) (w : RequestWorld) (a : α)
    (w' : RequestWorld) : Prop :=
  Process.RunsIn (RequestWorld.next fs) p w a w'

variable {fs : FileSystem} {w w' : RequestWorld}

/-! ## Wrappers -/

/-- A system call is asked before it is answered. -/
theorem causal_syscall (call : SysCall) : Process.Causal (syscall call) :=
  Process.causal_ask SysCall.allows call

/-- A system call has an answer that the world can give. -/
theorem runsWith_syscall {call : SysCall} {answer : SysAnswer} :
    RunsWith fs (syscall call) w answer w' ↔
      call.allows answer = true ∧ RequestWorld.next fs w call answer = some w' :=
  Process.runsIn_ask

/-- A wrapper returns what it makes of an answer. -/
theorem runsWith_wrapper {α : Type} {call : SysCall} {result : SysAnswer → Option α}
    {msg : String} {a : α} : RunsWith fs (wrapper call result msg) w a w' ↔
      ∃ answer, call.allows answer = true ∧ RequestWorld.next fs w call answer = some w' ∧
        result answer = some a := by
  unfold wrapper
  rw [RunsWith, Process.runsIn_bind (causal_syscall call)]
  -- A wrapper is its system call followed by a test of the answer.
  constructor
  · intro h
    obtain ⟨answer, w₁, hcall, hrest⟩ := h
    obtain ⟨hallows, hnext⟩ := runsWith_syscall.mp hcall
    cases hresult : result answer with
    | none =>
      -- The test fails: the wrapper ends the server, which is no run.
      rw [hresult] at hrest
      exact absurd hrest Process.not_runsIn_fault
    | some b =>
      rw [hresult] at hrest
      obtain ⟨rfl, rfl⟩ := Process.runsIn_pure.mp hrest
      exact ⟨answer, hallows, hnext, hresult⟩
  · intro h
    obtain ⟨answer, hallows, hnext, hresult⟩ := h
    refine ⟨answer, w', runsWith_syscall.mpr ⟨hallows, hnext⟩, ?_⟩
    rw [hresult]
    exact Process.runsIn_pure.mpr ⟨rfl, rfl⟩

/-- A child that is forked runs the program, which writes to the client. -/
theorem runs_Fork {filename cgiargs : Text} {pid : Int}
    (h : RunsWith fs (Fork filename cgiargs) w pid w') :
    w' = w.sent (fs.cgi filename cgiargs) := by
  obtain ⟨answer, hallows, hnext, hresult⟩ := runsWith_wrapper.mp h
  cases answer with
  | fork result =>
    cases hresult
    exact (Option.some.inj hnext).symm
  | _ => cases hallows

/-- Waiting for a child changes nothing. -/
theorem runs_WaitPid {pid : Int} (h : RunsWith fs (WaitPid pid) w () w') : w' = w := by
  obtain ⟨answer, hallows, hnext, -⟩ := runsWith_wrapper.mp h
  cases answer with
  | waitpid result => exact (Option.some.inj hnext).symm
  | _ => cases hallows

/-- A file that is opened is the one that `mmap` shows. -/
theorem runs_Open {pathname : Text} {fd : Int} (h : RunsWith fs (Open pathname) w fd w') :
    w' = { w with opened := pathname } := by
  obtain ⟨answer, hallows, hnext, -⟩ := runsWith_wrapper.mp h
  cases answer with
  | «open» result => exact (Option.some.inj hnext).symm
  | _ => cases hallows

/-- Closing changes nothing. -/
theorem runs_Close {fd : Int} (h : RunsWith fs (Close fd) w () w') : w' = w := by
  obtain ⟨answer, hallows, hnext, -⟩ := runsWith_wrapper.mp h
  cases answer with
  | close result => exact (Option.some.inj hnext).symm
  | _ => cases hallows

/-- `mmap` shows the file that was opened. -/
theorem runs_Mmap {len : Nat} {fd : Int} {srcp : Text}
    (h : RunsWith fs (Mmap len fd) w srcp w') :
    fs.mmap w.opened len = some srcp ∧ (0 < len ∧ srcp.length = len) ∧ w' = w := by
  obtain ⟨answer, hallows, hnext, hresult⟩ := runsWith_wrapper.mp h
  cases answer with
  | mmap result =>
    cases hresult
    simp only [RequestWorld.next] at hnext
    split at hnext
    · rename_i hfile
      exact ⟨hfile.symm, by simpa [SysCall.allows] using hallows, (Option.some.inj hnext).symm⟩
    · cases hnext
  | _ => cases hallows

/-- Unmapping changes nothing. -/
theorem runs_Munmap {length : Nat} (h : RunsWith fs (Munmap length) w () w') : w' = w := by
  obtain ⟨answer, hallows, hnext, -⟩ := runsWith_wrapper.mp h
  cases answer with
  | munmap result => exact (Option.some.inj hnext).symm
  | _ => cases hallows

/-- `stat` finds what is in the file system. -/
theorem runs_stat {filename : Text} {result : Option Stat}
    (h : RunsWith fs (stat filename) w result w') :
    result = fs.stat filename ∧ (∀ sbuf ∈ result, 0 ≤ sbuf.st_size) ∧ w' = w := by
  obtain ⟨answer, w₁, hcall, hrest⟩ := (Process.runsIn_bind (causal_syscall _)).mp h
  obtain ⟨hallows, hnext⟩ := runsWith_syscall.mp hcall
  cases answer with
  | stat found =>
    obtain ⟨rfl, rfl⟩ := Process.runsIn_pure.mp hrest
    simp only [RequestWorld.next] at hnext
    split at hnext
    · rename_i hfile
      refine ⟨hfile, ?_, (Option.some.inj hnext).symm⟩
      intro sbuf hsbuf
      cases hsbuf
      exact of_decide_eq_true hallows
    · cases hnext
  | _ => cases hallows

/-- What `stat` can report, it reports. -/
theorem exists_stat {filename : Text} {result : Option Stat} (h : fs.stat filename = result)
    (hsize : ∀ sbuf ∈ result, 0 ≤ sbuf.st_size) : RunsWith fs (stat filename) w result w := by
  refine (Process.runsIn_bind (causal_syscall _)).mpr ⟨.stat result, w, ?_, ?_⟩
  · refine runsWith_syscall.mpr ⟨?_, ?_⟩
    · cases result with
      | none => rfl
      | some sbuf => exact decide_eq_true (hsize sbuf rfl)
    · rw [RequestWorld.next, if_pos h.symm]
  · exact Process.runsIn_pure.mpr ⟨rfl, rfl⟩

/-- A file can be opened. -/
theorem exists_Open (fs : FileSystem) (w : RequestWorld) (pathname : Text) :
    RunsWith fs (Open pathname) w 0 { w with opened := pathname } :=
  runsWith_wrapper.mpr ⟨.open (some 0), rfl, rfl, rfl⟩

/-- A descriptor can be closed. -/
theorem exists_Close (fs : FileSystem) (w : RequestWorld) (fd : Int) :
    RunsWith fs (Close fd) w () w :=
  runsWith_wrapper.mpr ⟨.close (some ()), rfl, rfl, rfl⟩

/-- A file can be mapped if it has something to show. -/
theorem exists_Mmap {len : Nat} {fd : Int} {srcp : Text} (h : fs.mmap w.opened len = some srcp)
    (hlen : 0 < len) (hsrcp : srcp.length = len) : RunsWith fs (Mmap len fd) w srcp w := by
  refine runsWith_wrapper.mpr ⟨.mmap (some srcp), ?_, ?_, rfl⟩
  · simp [SysCall.allows, hlen, hsrcp]
  · rw [RequestWorld.next, if_pos h.symm]

/-- A child can be forked. -/
theorem exists_Fork (fs : FileSystem) (w : RequestWorld) (filename cgiargs : Text) :
    RunsWith fs (Fork filename cgiargs) w 1 (w.sent (fs.cgi filename cgiargs)) :=
  runsWith_wrapper.mpr ⟨.fork (some 1), rfl, rfl, rfl⟩

/-- A child can be waited for. -/
theorem exists_WaitPid (fs : FileSystem) (w : RequestWorld) (pid : Int) :
    RunsWith fs (WaitPid pid) w () w :=
  runsWith_wrapper.mpr ⟨.waitpid (some ()), rfl, rfl, rfl⟩

/-- A file can be unmapped. -/
theorem exists_Munmap (fs : FileSystem) (w : RequestWorld) (length : Nat) :
    RunsWith fs (Munmap length) w () w :=
  runsWith_wrapper.mpr ⟨.munmap (some ()), rfl, rfl, rfl⟩

/-! ## Robust output -/

/-- What a round of `rio_writen` does to the client. -/
theorem runs_rio_writenRound {fd : Int} {bufp : Text} {r : Text ⊕ Bool}
    (h : RunsWith fs (rio_writenRound fd bufp) w r w') :
    (∃ n, r = .inl (bufp.drop n) ∧ w' = w.sent (bufp.take n)) ∨
      r = .inr true ∧ bufp = [] ∧ w' = w ∨ r = .inr false := by
  unfold rio_writenRound at h
  -- Nothing left to write: the loop ends.
  split at h
  · rename_i hempty
    obtain ⟨rfl, rfl⟩ := Process.runsIn_pure.mp h
    exact .inr (.inl ⟨rfl, hempty, rfl⟩)
  · -- A call was made; the kernel took some bytes, was interrupted, or failed.
    obtain ⟨answer, w₁, hcall, hrest⟩ := (Process.runsIn_bind (causal_syscall _)).mp h
    obtain ⟨hallows, hnext⟩ := runsWith_syscall.mp hcall
    cases answer with
    | write result =>
      cases result with
      | ok n =>
        obtain ⟨rfl, rfl⟩ := Process.runsIn_pure.mp hrest
        exact .inl ⟨n, rfl, (Option.some.inj hnext).symm⟩
      | error errno =>
        cases errno with
        | EINTR =>
          -- An interrupted write has written nothing.
          obtain ⟨rfl, rfl⟩ := Process.runsIn_pure.mp hrest
          cases hnext
          exact .inl ⟨0, rfl, by simp⟩
        | other =>
          obtain ⟨rfl, rfl⟩ := Process.runsIn_pure.mp hrest
          -- Any other failure ends the loop, and with it the request.
          exact .inr (.inr rfl)
    | _ => cases hallows

/-- In the end everything has been written. -/
theorem runs_Rio_writen {fd : Int} {usrbuf : Text}
    (h : RunsWith fs (Rio_writen fd usrbuf) w () w') : w' = w.sent usrbuf := by
  obtain ⟨ok, w₁, hloop, hrest⟩ :=
    (Process.runsIn_bind (exactAt_rio_writen fd usrbuf).causal).mp h
  -- A failed write ends the server.
  cases ok with
  | false => exact absurd hrest Process.not_runsIn_fault
  | true =>
    obtain ⟨-, rfl⟩ := Process.runsIn_pure.mp hrest
    -- What has been written and what is left make up the buffer.
    refine Process.RunsIn.iterate_induction
      (I := fun bufp w₂ => ∃ part, part ++ bufp = usrbuf ∧ w₂ = w.sent part)
      (Q := fun ok w₂ => ok = true → w₂ = w.sent usrbuf)
      (decreases_rio_writenRound fd) (fun bufp => (exactAt_rio_writenRound fd bufp).causal) ?_ ?_
      ⟨[], rfl, by simp⟩ hloop rfl
    · -- A round that goes on has moved a part from the buffer to the world.
      intro bufp w₂ bufp' w₃ h hround
      obtain ⟨part, hpart, rfl⟩ := h
      rcases runs_rio_writenRound hround with ⟨n, hr, rfl⟩ | ⟨hr, -⟩ | hr
      · cases hr
        refine ⟨part ++ bufp.take n, ?_, ?_⟩
        · rw [List.append_assoc, List.take_append_drop, hpart]
        · simp
      · cases hr
      · cases hr
    · -- A round that ends well has nothing left in the buffer.
      intro bufp w₂ ok w₃ h hround hok
      obtain ⟨part, hpart, rfl⟩ := h
      subst hok
      rcases runs_rio_writenRound hround with ⟨n, hr, -⟩ | ⟨-, rfl, rfl⟩ | hr
      · cases hr
      · rw [List.append_nil] at hpart
        rw [hpart]
      · cases hr

/-- One round of `rio_writen`, and then the others. -/
theorem runsWith_rio_writen {fd : Int} {usrbuf : Text} {ok : Bool} :
    RunsWith fs (rio_writen fd usrbuf) w ok w' ↔
      ∃ r w₁, RunsWith fs (rio_writenRound fd usrbuf) w r w₁ ∧
        RunsWith fs (Sum.elim (rio_writen fd) pure r) w₁ ok w' :=
  Process.runsIn_iterate (decreases_rio_writenRound fd) fun bufp =>
    (exactAt_rio_writenRound fd bufp).causal

/-- All of the buffer can be written. -/
theorem exists_Rio_writen (fs : FileSystem) (w : RequestWorld) (fd : Int) (usrbuf : Text) :
    RunsWith fs (Rio_writen fd usrbuf) w () (w.sent usrbuf) := by
  -- The loop ends at once with an empty buffer.
  have hnil : ∀ w, RunsWith fs (rio_writen fd []) w true w := by
    intro w
    refine runsWith_rio_writen.mpr ⟨.inr true, w, ?_, Process.runsIn_pure.mpr ⟨rfl, rfl⟩⟩
    rw [rio_writenRound, if_pos rfl]
    exact Process.runsIn_pure.mpr ⟨rfl, rfl⟩
  refine (Process.runsIn_bind (exactAt_rio_writen fd usrbuf).causal).mpr
    ⟨true, _, ?_, Process.runsIn_pure.mpr ⟨rfl, rfl⟩⟩
  by_cases hempty : usrbuf = []
  · subst hempty
    rw [RequestWorld.sent_nil]
    exact hnil w
  · -- One call writes everything.
    refine runsWith_rio_writen.mpr ⟨.inl [], w.sent usrbuf, ?_, hnil _⟩
    rw [rio_writenRound, if_neg hempty]
    refine (Process.runsIn_bind (causal_syscall _)).mpr
      ⟨.write (.ok usrbuf.length), w.sent usrbuf, ?_, ?_⟩
    · refine runsWith_syscall.mpr ⟨?_, ?_⟩
      · simp [SysCall.allows, List.length_pos_iff, hempty]
      · simp [RequestWorld.next]
    · exact Process.runsIn_pure.mpr ⟨by simp, rfl⟩

end OsWet
