import OsWet.Native.Client
import OsWet.Spec.StaticFraming

/-!
# What the client prints

`clientPrint` on the bytes of a response. The lines of the header are printed one by one, and
the number in a `Content-Length` line before the line itself, since the loop looks at the next line
before it prints it. The body is printed piece by piece, and each piece up to its first NUL.

## Main results

- `runs_clientPrint`: what is printed of a header and a body
- `exists_clientPrint`: the client comes to the end of every stream
-/

namespace OsWet

open Text

variable {fs : FileSystem} {w w' : RequestWorld} {rp rp' : Rio} {usrbuf buf : Text}

/-! ## Reading a line -/

/-- `rio_readlineb` returns 0 only when there is no line. -/
theorem rio_readlineb_pos {maxlen : Nat} {rc : Int} {line : Option Text}
    (h : RunsWith fs (rio_readlineb rp maxlen) w (rc, line, rp') w') (hrc : 0 ≤ rc) :
    0 < rc ↔ line.isSome := by
  -- The invariant: the count of the line starts at 1 and does not fall.
  refine Process.RunsIn.iterate_induction (I := fun st _ => 1 ≤ st.n)
    (Q := fun r _ => 0 ≤ r.1 → (0 < r.1 ↔ r.2.1.isSome))
    (decreases_rio_readlinebRound maxlen) (fun st => (exactAt_rio_readlinebRound maxlen st).causal)
    ?_ ?_ (Nat.le_refl 1) h hrc
  · -- A round that goes on has copied one letter, which is not the end of the line.
    intro st w₁ st' w₂ hst hround
    rcases runs_rio_readlinebRound hround with ⟨-, hr, -⟩ |
      ⟨hlt, ⟨rp', hr⟩ | ⟨honly, rp', hinput, ⟨-, hr⟩ | ⟨c, s, hs, hr⟩⟩⟩
    · cases hr
    · cases hr
    · cases hr
    · split at hr
      · cases hr
      · cases hr
        exact Nat.le_succ_of_le hst
  · intro st w₁ r w₂ hst hround
    rcases runs_rio_readlinebRound hround with ⟨hge, hr, rfl⟩ |
      ⟨hlt, ⟨rp', hr⟩ | ⟨honly, rp', hinput, ⟨hs, hr⟩ | ⟨c, s, hs, hr⟩⟩⟩
    · -- The line is full.
      cases hr
      simp; omega
    · -- The read failed, so the count is negative.
      cases hr
      simp
    · -- The end of the file: an empty line has the count 0, a started one is returned.
      cases hr
      split
      · simp
      · simp; omega
    · -- The end of the line was copied.
      split at hr
      · cases hr
        simp; omega
      · cases hr

/-- `Rio_readlineb` with its result asks before it is answered. -/
theorem causal_Rio_readlinebCount (rp : Rio) (usrbuf : Text) (maxlen : Nat) :
    Process.Causal (Rio_readlinebCount rp usrbuf maxlen) := by
  refine (exactAt_rio_readlineb rp maxlen).causal.bind fun r _ => ?_
  obtain ⟨rc, line, rp₁⟩ := r
  dsimp only
  split
  · exact Process.causal_fault _
  · exact Process.causal_pure _

/-- The number that is returned is positive unless the input is at its end. -/
theorem runs_Rio_readlinebCount {maxlen : Nat} {n : Int} (hmaxlen : 1 < maxlen)
    (h : RunsWith fs (Rio_readlinebCount rp usrbuf maxlen) w (n, buf, rp') w') :
    (0 < n ↔ rp.input w ≠ []) ∧ buf = (readLine maxlen (rp.input w)).1.getD usrbuf ∧
      rp'.input w' = (readLine maxlen (rp.input w)).2 := by
  obtain ⟨⟨rc, line, rp₁⟩, w₁, hline, hrest⟩ :=
    (Process.runsIn_bind (exactAt_rio_readlineb rp maxlen).causal).mp h
  dsimp only at hrest
  split at hrest
  · exact absurd hrest Process.not_runsIn_fault
  · rename_i hrc
    obtain ⟨heq, rfl⟩ := Process.runsIn_pure.mp hrest
    cases heq
    obtain hneg | ⟨-, hread⟩ := runs_rio_readlineb hmaxlen hline
    · exact absurd hneg hrc
    · rw [rio_readlineb_pos hline (Int.not_lt.mp hrc), ← hread]
      refine ⟨?_, rfl, rfl⟩
      have hsome : line = (readLine maxlen (rp.input w)).1 := congrArg Prod.fst hread
      rw [hsome, readLine]
      split <;> simp [*]

/-- Reading a line can always return. -/
theorem exists_Rio_readlinebCount (fs : FileSystem) (w : RequestWorld) (rp : Rio)
    (usrbuf : Text) (maxlen : Nat) :
    ∃ n buf rp' w', RunsWith fs (Rio_readlinebCount rp usrbuf maxlen) w (n, buf, rp') w' := by
  obtain ⟨⟨rc, line, rp'⟩, w', hline, hrc⟩ := exists_rio_readlineb fs w rp maxlen
  exact ⟨rc, line.getD usrbuf, rp', w',
    hline.thenReturn (exactAt_rio_readlineb rp maxlen).causal (if_neg (Int.not_lt.mpr hrc))⟩

/-- A line that is read leaves less input. -/
theorem Rio_readlinebCount_inputLeft {maxlen : Nat} {n : Int} {answers rest : List SysAnswer}
    (hmaxlen : 1 < maxlen)
    (h : Rio_readlinebCount rp usrbuf maxlen answers = .done (n, buf, rp') rest) :
    rp'.inputLeft rest < rp.inputLeft answers := by
  obtain ⟨⟨rc, line, rp₁⟩, rest₁, hline, h⟩ := Process.bind_eq_done.mp h
  dsimp only at h
  split at h <;> cases h
  exact rio_readlineb_inputLeft hmaxlen hline

/-! ## The loop over the headers -/

/-- Each round of the header loop leaves less input. -/
theorem decreases_clientHeaderRound :
    Process.Decreases ClientPrint.inputLeft clientHeaderRound := by
  intro s answers s' rest h
  unfold clientHeaderRound at h
  split at h
  · obtain ⟨⟨n, buf, rio⟩, rest', hline, h⟩ := Process.bind_eq_done.mp h
    cases h
    exact Rio_readlinebCount_inputLeft (by decide) hline
  · cases h

/-- A round of the header loop asks before it is answered. -/
theorem causal_clientHeaderRound (s : ClientPrint) : Process.Causal (clientHeaderRound s) := by
  unfold clientHeaderRound
  split
  · exact (causal_Rio_readlinebCount _ _ _).bind fun _ _ => Process.causal_pure _
  · exact Process.causal_pure _

/-- A round prints the line that was read last, and reads the next one. -/
theorem runs_clientHeaderRound {s : ClientPrint} {r : ClientPrint ⊕ ClientPrint}
    (h : RunsWith fs (clientHeaderRound s) w r w') :
    (¬ (cString s.buf ≠ text "\r\n" ∧ 0 < s.n) ∧ r = .inr s ∧ w' = w) ∨
      (cString s.buf ≠ text "\r\n" ∧ 0 < s.n ∧ ∃ n buf rio,
        (0 < n ↔ s.rio.input w ≠ []) ∧ buf = (readLine MAXBUF (s.rio.input w)).1.getD s.buf ∧
          rio.input w' = (readLine MAXBUF (s.rio.input w)).2 ∧
            r = .inl ⟨n, buf, rio,
              s.printed ++ text "Header: " ++ cString s.buf ++ lengthShown buf⟩) := by
  unfold clientHeaderRound at h
  split at h
  · rename_i hgo
    obtain ⟨⟨n, buf, rio⟩, w₁, hline, hrest⟩ :=
      (Process.runsIn_bind (causal_Rio_readlinebCount _ _ _)).mp h
    obtain ⟨rfl, rfl⟩ := Process.runsIn_pure.mp hrest
    obtain ⟨hn, hbuf, hinput⟩ := runs_Rio_readlinebCount (by decide) hline
    exact .inr ⟨hgo.1, hgo.2, n, buf, rio, hn, hbuf, hinput, rfl⟩
  · rename_i hgo
    obtain ⟨rfl, rfl⟩ := Process.runsIn_pure.mp h
    exact .inl ⟨hgo, rfl, rfl⟩

/-- A line of a header as the client prints it. -/
def headerShown (line : Text) : Text := text "Header: " ++ line ++ text "\r\n"

/-- What comes first in a header block. -/
def firstLine (lines : List Text) : Text := (lines.head?.getD []) ++ text "\r\n"

/-- What the client prints of the lines of a header. -/
def headersShown : List Text → Text
  | [] => []
  | line :: lines => headerShown line ++ lengthShown (firstLine lines) ++ headersShown lines

/-- A header line that fits the buffer of the client, and has no NUL in it. -/
structure FitsClient (line : Text) : Prop extends IsHeaderLine line where
  nul : '\x00' ∉ line
  length : line.length + 1 < pieceLength

/-- The first line of a header block, and what follows. -/
theorem readLine_headerBlock {lines : List Text} (hlines : ∀ line ∈ lines, FitsClient line)
    (body : Text) : readLine MAXBUF (headerBlock lines ++ body) =
      (some (firstLine lines), if lines = [] then body else headerBlock lines.tail ++ body) := by
  cases lines with
  | nil =>
    exact readLine_of_lt (show '\n' ∉ ['\r'] by decide) (by decide) body
  | cons line lines =>
    have hline := (List.forall_mem_cons.mp hlines).1
    have hlf : '\n' ∉ line ++ ['\r'] := by simp [hline.lf]
    have hlength : (line ++ ['\r']).length < pieceLength := by
      simpa using hline.length
    have hsplit : headerBlock (line :: lines) ++ body =
        (line ++ ['\r']) ++ '\n' :: (headerBlock lines ++ body) := by
      simp [headerBlock_cons, text]
    rw [hsplit]
    refine (readLine_of_lt hlf hlength _).trans ?_
    simp [firstLine, text]

/-- A string without a NUL character is as long as it seems. -/
theorem cString_eq_self {s : Text} (h : '\x00' ∉ s) : cString s = s := by
  refine List.takeWhile_eq_self_iff.mpr fun c hc => ?_
  rw [decide_eq_true_eq]
  rintro rfl
  exact h hc

/-- A first line has no NUL character. -/
theorem cString_firstLine {lines : List Text} (hlines : ∀ line ∈ lines, FitsClient line) :
    cString (firstLine lines) = firstLine lines := by
  refine cString_eq_self ?_
  cases lines with
  | nil => decide
  | cons line lines => simp [firstLine, (List.forall_mem_cons.mp hlines).1.nul, text]

/-- The loop over the headers, when the first of the lines `rem` has been read. -/
structure ReadingHeaders (lines : List Text) (body : Text) (s : ClientPrint) (w : RequestWorld)
    (rem : List Text) : Prop where
  fits : ∀ line ∈ rem, FitsClient line
  n : 0 < s.n
  buf : s.buf = firstLine rem
  input : s.rio.input w = if rem = [] then body else headerBlock rem.tail ++ body
  printed : s.printed ++ headersShown rem = headersShown lines

/-- A round of the header loop reads one line, or ends. -/
theorem ReadingHeaders.round {lines : List Text} {body : Text} {s : ClientPrint}
    {rem : List Text} (hs : ReadingHeaders lines body s w rem) {r : ClientPrint ⊕ ClientPrint}
    (h : RunsWith fs (clientHeaderRound s) w r w') :
    (rem = [] ∧ r = .inr s ∧ w' = w) ∨
      ∃ s', r = .inl s' ∧ ReadingHeaders lines body s' w' rem.tail := by
  -- The buffer holds the first line that is left.
  have hbuf : cString s.buf = firstLine rem := by
    rw [hs.buf, cString_firstLine hs.fits]
  obtain ⟨hend, rfl, rfl⟩ | ⟨hne, -, n, buf, rio, hn, hbuf', hinput, rfl⟩ :=
    runs_clientHeaderRound h
  · -- The loop ends, so the line is the empty one.
    left
    refine ⟨?_, rfl, rfl⟩
    have heq : firstLine rem = text "\r\n" := by
      by_contra hne
      -- No header is left.
      exact hend ⟨hbuf ▸ hne, hs.n⟩
    cases rem with
    | nil => rfl
    -- A header cannot be empty.
    | cons line rem =>
      have hnil : line = [] := by simpa [firstLine] using heq
      exact absurd hnil (List.forall_mem_cons.mp hs.fits).1.ne_nil
  · -- The loop goes on: the line is a header, and the next line is read.
    right
    rw [hbuf] at hne
    cases rem with
    | nil => exact absurd rfl hne
    | cons line rem =>
      have hfits := (List.forall_mem_cons.mp hs.fits).2
      -- Behind it are the headers that are left.
      have hrest : s.rio.input w = headerBlock rem ++ body := by
        rw [hs.input, if_neg (List.cons_ne_nil _ _), List.tail_cons]
      rw [hrest, readLine_headerBlock hfits] at hbuf' hinput
      refine ⟨_, rfl, hfits, hn.mpr ?_, hbuf', hinput, ?_⟩
      · -- A line was read, since the empty line at least is there.
        rw [hrest]
        simp [headerBlock, text]
      · -- What was printed is this header with the length that stands behind it.
        have hline : cString s.buf = line ++ text "\r\n" := hbuf
        have hnext : buf = firstLine rem := hbuf'
        rw [← hs.printed, hline, hnext]
        simp [headersShown, headerShown]

/-- The loop over the headers prints them and leaves the body. -/
theorem runs_clientHeaders {lines : List Text} {body : Text} {s r : ClientPrint}
    (hs : ReadingHeaders lines body s w lines)
    (h : RunsWith fs (Process.iterate ClientPrint.inputLeft clientHeaderRound s) w r w') :
    r.printed = headersShown lines ∧ r.rio.input w' = body := by
  -- The invariant: some headers are left to read, and the others have been printed.
  refine Process.RunsIn.iterate_induction
    (I := fun s w => ∃ rem, ReadingHeaders lines body s w rem)
    (Q := fun r w' => r.printed = headersShown lines ∧ r.rio.input w' = body)
    decreases_clientHeaderRound causal_clientHeaderRound ?_ ?_ ⟨lines, hs⟩ h
  · -- A round that goes on leaves one header fewer.
    intro s w₁ s' w₂ hI hround
    obtain ⟨rem, hs⟩ := hI
    obtain ⟨-, hr, -⟩ | ⟨s₁, hr, hs₁⟩ := hs.round hround
    · cases hr
    · cases hr
      exact ⟨_, hs₁⟩
  · -- The round that ends finds no header left, and the body unread.
    intro s w₁ r w₂ hI hround
    obtain ⟨rem, hs⟩ := hI
    obtain ⟨rfl, hr, rfl⟩ | ⟨s₁, hr, -⟩ := hs.round hround
    · cases hr
      have hprinted := hs.printed
      have hinput := hs.input
      rw [headersShown, List.append_nil] at hprinted
      rw [if_pos rfl] at hinput
      exact ⟨hprinted, hinput⟩
    · cases hr

/-! ## The loop over the body -/

/-- Each round of the body loop leaves less input. -/
theorem decreases_clientBodyRound :
    Process.Decreases ClientPrint.inputLeft clientBodyRound := by
  intro s answers s' rest h
  unfold clientBodyRound at h
  split at h
  · obtain ⟨⟨n, buf, rio⟩, rest', hline, h⟩ := Process.bind_eq_done.mp h
    cases h
    exact Rio_readlinebCount_inputLeft (by decide) hline
  · cases h

/-- A round of the body loop asks before it is answered. -/
theorem causal_clientBodyRound (s : ClientPrint) : Process.Causal (clientBodyRound s) := by
  unfold clientBodyRound
  split
  · exact (causal_Rio_readlinebCount _ _ _).bind fun _ _ => Process.causal_pure _
  · exact Process.causal_pure _

/-- What a round of the body loop reads and prints. -/
theorem runs_clientBodyRound {s : ClientPrint} {r : ClientPrint ⊕ Text}
    (h : RunsWith fs (clientBodyRound s) w r w') :
    (¬ 0 < s.n ∧ r = .inr s.printed ∧ w' = w) ∨
      (0 < s.n ∧ ∃ n buf rio, (0 < n ↔ s.rio.input w ≠ []) ∧
        buf = (readLine MAXBUF (s.rio.input w)).1.getD s.buf ∧
        rio.input w' = (readLine MAXBUF (s.rio.input w)).2 ∧
        r = .inl ⟨n, buf, rio, s.printed ++ cString s.buf⟩) := by
  unfold clientBodyRound at h
  split at h
  · rename_i hgo
    obtain ⟨⟨n, buf, rio⟩, w₁, hline, hrest⟩ :=
      (Process.runsIn_bind (causal_Rio_readlinebCount _ _ _)).mp h
    obtain ⟨rfl, rfl⟩ := Process.runsIn_pure.mp hrest
    obtain ⟨hn, hbuf, hinput⟩ := runs_Rio_readlinebCount (by decide) hline
    exact .inr ⟨hgo, n, buf, rio, hn, hbuf, hinput, rfl⟩
  · rename_i hgo
    obtain ⟨rfl, rfl⟩ := Process.runsIn_pure.mp h
    exact .inl ⟨hgo, rfl, rfl⟩

/-- The client has printed this much of `body`: some pieces of it, each up to its first NUL. -/
def ShownOf (body shown : Text) : Prop :=
  ∃ pieces : List Text, body = pieces.flatten ∧ shown = pieces.flatMap cString

/-- The loop over the body, when `pending` has been read last. -/
structure ReadingBody (body before : Text) (s : ClientPrint) (w : RequestWorld) : Prop where
  ended : ¬ 0 < s.n → s.rio.input w = []
  pieces : ∃ pieces : List Text, s.printed = before ++ pieces.flatMap cString ∧
    body = pieces.flatten ++ (if 0 < s.n then s.buf else []) ++ s.rio.input w

/-- What has just been read and what is left. -/
theorem readLine_append {n : Int} {s buf rest usrbuf : Text} (hn : 0 < n ↔ s ≠ [])
    (hbuf : buf = (readLine MAXBUF s).1.getD usrbuf) (hrest : rest = (readLine MAXBUF s).2) :
    (¬ 0 < n → rest = []) ∧ s = (if 0 < n then buf else []) ++ rest := by
  subst hbuf hrest
  by_cases hs : s = []
  · have hn' : ¬ 0 < n := fun h => hn.mp h hs
    simp [hs, readLine, hn']
  · have hn' : 0 < n := hn.mpr hs
    rw [if_pos hn', readLine, if_neg hs]
    exact ⟨fun h => absurd hn' h, (lineOf_append _ s).symm⟩

/-- A round of the body loop shows one more line, or ends. -/
theorem ReadingBody.round {body before : Text} {s : ClientPrint}
    (hs : ReadingBody body before s w) {r : ClientPrint ⊕ Text}
    (h : RunsWith fs (clientBodyRound s) w r w') :
    (∃ shown, r = .inr (before ++ shown) ∧ ShownOf body shown) ∨
      ∃ s', r = .inl s' ∧ ReadingBody body before s' w' := by
  obtain ⟨hended, pieces, hprinted, hbody⟩ := hs
  obtain ⟨hend, rfl, rfl⟩ | ⟨hgo, n, buf, rio, hn, hbuf, hinput, rfl⟩ := runs_clientBodyRound h
  · rw [if_neg hend, hended hend, List.append_nil, List.append_nil] at hbody
    exact .inl ⟨_, by rw [hprinted], pieces, hbody, rfl⟩
  · obtain ⟨hended', happend⟩ := readLine_append hn hbuf hinput
    rw [if_pos hgo] at hbody
    refine .inr ⟨_, rfl, hended', pieces ++ [s.buf], ?_, ?_⟩
    · simp [hprinted]
    · rw [hbody]
      conv_lhs => rw [happend]
      simp

/-- The loop over the body shows it. -/
theorem runs_clientBody {body before printed : Text} {s : ClientPrint}
    (hs : ReadingBody body before s w)
    (h : RunsWith fs (Process.iterate ClientPrint.inputLeft clientBodyRound s) w printed w') :
    ∃ shown, printed = before ++ shown ∧ ShownOf body shown := by
  refine Process.RunsIn.iterate_induction (I := fun s w => ReadingBody body before s w)
    (Q := fun printed _ => ∃ shown, printed = before ++ shown ∧ ShownOf body shown)
    decreases_clientBodyRound causal_clientBodyRound ?_ ?_ hs h
  · intro s w₁ s' w₂ hs hround
    obtain ⟨shown, hr, -⟩ | ⟨s₁, hr, hs₁⟩ := hs.round hround
    · cases hr
    · cases hr
      exact hs₁
  · intro s w₁ r w₂ hs hround
    obtain ⟨shown, hr, hshown⟩ | ⟨s₁, hr, -⟩ := hs.round hround
    · cases hr
      exact ⟨shown, rfl, hshown⟩
    · cases hr

/-- A body is shown as it is exactly when there is no NUL in it. -/
theorem ShownOf.eq_iff {body shown : Text} (h : ShownOf body shown) :
    shown = body ↔ '\x00' ∉ body := by
  -- What is shown is the pieces, each up to its first NUL.
  obtain ⟨pieces, rfl, rfl⟩ := h
  -- No piece gets longer by that.
  have hle : ∀ pieces : List Text, (pieces.flatMap cString).length ≤ pieces.flatten.length := by
    intro pieces
    induction pieces with
    | nil => exact Nat.le_refl 0
    | cons piece pieces ih =>
      have hpiece : (cString piece).length ≤ piece.length := (List.takeWhile_prefix _).length_le
      simp only [List.flatMap_cons, List.flatten_cons, List.length_append]
      omega
  -- By induction on the pieces: the first is whole, and so are the others.
  induction pieces with
  | nil => simp
  | cons piece pieces ih =>
    rw [List.flatMap_cons, List.flatten_cons, List.mem_append, not_or]
    constructor
    · intro heq
      -- Equal lengths leave no room for a piece that is cut.
      have hlength := congrArg List.length heq
      have hrest := hle pieces
      have hpiece : (cString piece).length ≤ piece.length := (List.takeWhile_prefix _).length_le
      simp only [List.length_append] at hlength
      obtain ⟨hfirst, hothers⟩ := List.append_inj heq (by omega)
      refine ⟨fun hmem => ?_, ih.mp hothers⟩
      have hall := List.takeWhile_eq_self_iff.mp hfirst _ hmem
      simp at hall
    · intro heq
      rw [cString_eq_self heq.1, ih.mpr heq.2]

/-! ## The client -/

/-- The client prints the header of a response, and then its body as far as `printf` can. -/
theorem runs_clientPrint {fd : Int} {lines : List Text} {body printed : Text}
    (hlines : ∀ line ∈ lines, FitsClient line)
    (h : RunsWith fs (clientPrint fd buf) (.start (headerBlock lines ++ body)) printed w') :
    ∃ shown, printed = headersShown lines ++ shown ∧ ShownOf body shown := by
  -- A first line, the loop over the headers, the next line, the loop over the body.
  obtain ⟨⟨n, buf₁, rio₁⟩, w₁, hfirst, h⟩ :=
    (Process.runsIn_bind (causal_Rio_readlinebCount _ _ _)).mp h
  obtain ⟨s, w₂, hheaders, h⟩ := (Process.runsIn_bind
    (Process.Causal.iterate decreases_clientHeaderRound causal_clientHeaderRound _)).mp h
  obtain ⟨⟨n', buf₂, rio₂⟩, w₃, hnext, hbody⟩ :=
    (Process.runsIn_bind (causal_Rio_readlinebCount _ _ _)).mp h
  obtain ⟨hn, hbuf, hinput⟩ := runs_Rio_readlinebCount (by decide) hfirst
  rw [start_input, readLine_headerBlock hlines] at hbuf hinput
  -- After the first line all headers are left.
  have hreading : ReadingHeaders lines body ⟨n, buf₁, rio₁, []⟩ w₁ lines := by
    refine ⟨hlines, hn.mpr ?_, hbuf, hinput, rfl⟩
    rw [start_input]
    simp [headerBlock, text]
  obtain ⟨hprinted, hrest⟩ := runs_clientHeaders hreading hheaders
  obtain ⟨hn', hbuf', hinput'⟩ := runs_Rio_readlinebCount (by decide) hnext
  -- The next line begins the body.
  obtain ⟨hended, happend⟩ := readLine_append hn' hbuf' hinput'
  refine runs_clientBody ⟨hended, [], ?_, ?_⟩ hbody
  · simp [hprinted]
  · rw [← hrest, List.flatten_nil, List.nil_append]
    exact happend

/-! ## The client comes to the end -/

/-- What is left to print: the pieces of the input, and the line that was read last. -/
def ClientPrint.left (s : ClientPrint) (w : RequestWorld) : Nat :=
  (s.rio.input w).length + if 0 < s.n then 1 else 0

/-- A piece of a nonempty input is not empty. -/
theorem length_readLine {s : Text} (hs : s ≠ []) : (readLine MAXBUF s).2.length < s.length := by
  cases s with
  | nil => exact absurd rfl hs
  | cons c s =>
    have happend := congrArg List.length (lineOf_append (MAXBUF - 1) (c :: s))
    have hpos : 0 < (lineOf (MAXBUF - 1) (c :: s)).1.length := by
      show 0 < (lineOf (MAXBUF - 2 + 1) (c :: s)).1.length
      rw [lineOf]
      split <;> simp
    rw [readLine, if_neg hs]
    rw [List.length_append] at happend
    dsimp only
    omega

/-- Reading one more line leaves less to print. -/
theorem left_readLine {s s' : ClientPrint} (hgo : 0 < s.n)
    (hn : 0 < s'.n ↔ s.rio.input w ≠ [])
    (hinput : s'.rio.input w' = (readLine MAXBUF (s.rio.input w)).2) : s'.left w' < s.left w := by
  unfold ClientPrint.left
  rw [if_pos hgo, hinput]
  by_cases hs : s.rio.input w = []
  · rw [if_neg (fun h => hn.mp h hs), hs]
    exact Nat.lt_succ_self 0
  · rw [if_pos (hn.mpr hs)]
    have hlength := length_readLine hs
    omega

/-- The header loop can always return. -/
theorem exists_clientHeaders (fs : FileSystem) (w : RequestWorld) (s : ClientPrint) :
    ∃ r w', RunsWith fs (Process.iterate ClientPrint.inputLeft clientHeaderRound s) w r w' := by
  -- A line can always be read, and reading makes the input shorter.
  have hround : ∀ s w, True →
      (∃ s' w', RunsWith fs (clientHeaderRound s) w (.inl s') w' ∧ True ∧
        ClientPrint.left s' w' < s.left w) ∨
        ∃ r w', RunsWith fs (clientHeaderRound s) w (.inr r) w' ∧ True := by
    intro s w _
    by_cases hgo : cString s.buf ≠ text "\r\n" ∧ 0 < s.n
    · obtain ⟨n, buf, rio, w', hline⟩ := exists_Rio_readlinebCount fs w s.rio s.buf MAXBUF
      obtain ⟨hn, -, hinput⟩ := runs_Rio_readlinebCount (by decide) hline
      refine .inl ⟨⟨n, buf, rio, s.printed ++ text "Header: " ++ cString s.buf ++ lengthShown buf⟩,
        w', ?_, trivial, left_readLine hgo.2 hn hinput⟩
      rw [clientHeaderRound, if_pos hgo]
      exact hline.thenReturn (causal_Rio_readlinebCount _ _ _) rfl
    · refine .inr ⟨s, w, ?_, trivial⟩
      rw [clientHeaderRound, if_neg hgo]
      exact Process.runsIn_pure.mpr ⟨rfl, rfl⟩
  obtain ⟨r, w', hrun, -⟩ := Process.exists_runsIn_iterate decreases_clientHeaderRound
    causal_clientHeaderRound ClientPrint.left hround trivial
  exact ⟨r, w', hrun⟩

/-- The body loop can always return. -/
theorem exists_clientBody (fs : FileSystem) (w : RequestWorld) (s : ClientPrint) :
    ∃ r w', RunsWith fs (Process.iterate ClientPrint.inputLeft clientBodyRound s) w r w' := by
  -- The same for the lines of the body.
  have hround : ∀ s w, True →
      (∃ s' w', RunsWith fs (clientBodyRound s) w (.inl s') w' ∧ True ∧
        ClientPrint.left s' w' < s.left w) ∨
        ∃ r w', RunsWith fs (clientBodyRound s) w (.inr r) w' ∧ True := by
    intro s w _
    by_cases hgo : 0 < s.n
    · obtain ⟨n, buf, rio, w', hline⟩ := exists_Rio_readlinebCount fs w s.rio s.buf MAXBUF
      obtain ⟨hn, -, hinput⟩ := runs_Rio_readlinebCount (by decide) hline
      refine .inl ⟨⟨n, buf, rio, s.printed ++ cString s.buf⟩, w', ?_, trivial,
        left_readLine hgo hn hinput⟩
      rw [clientBodyRound, if_pos hgo]
      exact hline.thenReturn (causal_Rio_readlinebCount _ _ _) rfl
    · refine .inr ⟨s.printed, w, ?_, trivial⟩
      rw [clientBodyRound, if_neg hgo]
      exact Process.runsIn_pure.mpr ⟨rfl, rfl⟩
  obtain ⟨r, w', hrun, -⟩ := Process.exists_runsIn_iterate decreases_clientBodyRound
    causal_clientBodyRound ClientPrint.left hround trivial
  exact ⟨r, w', hrun⟩

/-- Whatever a server sends, the client can read it to the end. -/
theorem exists_clientPrint (fs : FileSystem) (w : RequestWorld) (fd : Int) (buf : Text) :
    ∃ printed w', RunsWith fs (clientPrint fd buf) w printed w' := by
  obtain ⟨n, buf₁, rio₁, w₁, hfirst⟩ :=
    exists_Rio_readlinebCount fs w (Rio_readinitb fd) buf MAXBUF
  obtain ⟨s, w₂, hheaders⟩ := exists_clientHeaders fs w₁ ⟨n, buf₁, rio₁, []⟩
  obtain ⟨n', buf₂, rio₂, w₃, hnext⟩ := exists_Rio_readlinebCount fs w₂ s.rio s.buf MAXBUF
  obtain ⟨printed, w₄, hbody⟩ := exists_clientBody fs w₃ ⟨n', buf₂, rio₂, s.printed⟩
  refine ⟨printed, w₄, hfirst.bind (causal_Rio_readlinebCount _ _ _) ?_⟩
  refine hheaders.bind
    (Process.Causal.iterate decreases_clientHeaderRound causal_clientHeaderRound _) ?_
  exact hnext.bind (causal_Rio_readlinebCount _ _ _) hbody

end OsWet
