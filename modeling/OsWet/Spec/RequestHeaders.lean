import OsWet.Spec.RequestPortions

/-!
# Where the headers end

`requestReadhdrs` compares what `Rio_readlineb` brings with an empty line, and this is a piece
of a line when the line does not fit the buffer. So a line counts as the empty one when a whole
number of full pieces comes before its CR LF, and when there is no such line the loop goes on at
the end of the input forever.

## Main results

- `headersEnd_iff_hasEnd`: the streams that have a line which counts as empty
- `requestReadhdrs_arrive`: on such a stream the loop ends right after this line
- `requestReadhdrs_ends_iff`, `requestReadhdrs_stops_iff`: when it ends, and when where it should
-/

namespace OsWet

open Text

/-! ## The pieces of a line -/

/-- The length of a full piece. -/
def pieceLength : Nat := MAXLINE - 1

/-- A line and what follows it are the input. -/
theorem lineOf_append (n : Nat) (s : Text) : (lineOf n s).1 ++ (lineOf n s).2 = s := by
  induction n generalizing s with
  | zero => rfl
  | succ n ih =>
    cases s with
    | nil => rfl
    | cons c s =>
      rw [lineOf]
      split
      · rfl
      · simp [ih s]

/-- A line that is too long is cut. -/
theorem lineOf_of_le {n : Nat} {line : Text} (hline : '\n' ∉ line) (hn : n ≤ line.length)
    (s : Text) : lineOf n (line ++ s) = (line.take n, line.drop n ++ s) := by
  induction n generalizing line with
  | zero => rfl
  | succ n ih =>
    cases line with
    | nil => simp at hn
    | cons c line =>
      have hc : c ≠ '\n' := fun hc => hline (by simp [hc])
      have hrest : '\n' ∉ line := fun hmem => hline (List.mem_cons_of_mem c hmem)
      rw [List.cons_append, lineOf, if_neg hc, ih hrest (Nat.le_of_succ_le_succ hn)]
      rfl

/-- A line that fits is read as a whole. -/
theorem lineOf_of_lt {n : Nat} {line : Text} (hline : '\n' ∉ line) (hn : line.length < n)
    (s : Text) : lineOf n (line ++ '\n' :: s) = (line ++ ['\n'], s) := by
  induction n generalizing line with
  | zero => omega
  | succ n ih =>
    cases line with
    | nil => rfl
    | cons c line =>
      have hc : c ≠ '\n' := fun hc => hline (by simp [hc])
      have hrest : '\n' ∉ line := fun hmem => hline (List.mem_cons_of_mem c hmem)
      rw [List.cons_append, lineOf, if_neg hc, ih hrest (Nat.lt_of_succ_lt_succ hn)]
      rfl

/-- There is a line unless the input is empty. -/
theorem readLine_eq_some {s line rest : Text} : readLine MAXLINE s = (some line, rest) ↔
    s ≠ [] ∧ lineOf pieceLength s = (line, rest) := by
  rw [readLine]
  split
  · rename_i hs
    simp [hs]
  · rename_i hs
    simp [hs, pieceLength, Prod.ext_iff]

/-- What is read ends with the only line feed in it, or there is none in it, and it is full or
    the stream ends. -/
theorem lineOf_cases (n : Nat) (s : Text) :
    (∃ line, '\n' ∉ line ∧ (lineOf n s).1 = line ++ ['\n']) ∨
      '\n' ∉ (lineOf n s).1 ∧ ((lineOf n s).1.length = n ∨ (lineOf n s).2 = []) := by
  induction n generalizing s with
  | zero => exact .inr ⟨List.not_mem_nil, .inl rfl⟩
  | succ n ih =>
    cases s with
    | nil => exact .inr ⟨List.not_mem_nil, .inr rfl⟩
    | cons c s =>
      rw [lineOf]
      by_cases hc : c = '\n'
      · exact .inl ⟨[], List.not_mem_nil, by simp [hc]⟩
      · rw [if_neg hc]
        rcases ih s with ⟨line, hline, heq⟩ | ⟨hline, hend⟩
        · exact .inl ⟨c :: line, by simp [hline, Ne.symm hc], by simp [heq]⟩
        · exact .inr ⟨by simp [hline, Ne.symm hc], by simpa using hend⟩

/-- A line that is cut. -/
theorem readLine_of_le {line : Text} (hline : '\n' ∉ line) (hlength : pieceLength ≤ line.length)
    (s : Text) : readLine MAXLINE (line ++ s) =
      (some (line.take pieceLength), line.drop pieceLength ++ s) := by
  refine readLine_eq_some.mpr ⟨?_, lineOf_of_le hline hlength s⟩
  intro hnil
  rw [(List.append_eq_nil_iff.mp hnil).1] at hlength
  exact absurd hlength (by decide)

/-- A line that is not cut. -/
theorem readLine_of_lt {line : Text} (hline : '\n' ∉ line) (hlength : line.length < pieceLength)
    (s : Text) : readLine MAXLINE (line ++ '\n' :: s) = (some (line ++ ['\n']), s) :=
  readLine_eq_some.mpr ⟨by simp, lineOf_of_lt hline hlength s⟩

/-- What is in the C string is in the array. -/
theorem mem_of_mem_cString {c : Char} {buf : Text} (h : c ∈ cString buf) : c ∈ buf :=
  (List.takeWhile_prefix _).mem h

/-- What has no line feed is not the empty line. -/
theorem cString_ne_of_not_mem {buf : Text} (h : '\n' ∉ buf) : cString buf ≠ text "\r\n" := by
  intro hbuf
  apply h
  apply mem_of_mem_cString
  rw [hbuf]
  decide

/-- Only the empty line looks like the empty line. -/
theorem eq_of_cString_eq {line : Text} (hline : '\n' ∉ line)
    (h : cString (line ++ ['\n']) = text "\r\n") : line = ['\r'] := by
  have hprefix : cString (line ++ ['\n']) <+: line ++ ['\n'] := List.takeWhile_prefix _
  rw [h] at hprefix
  obtain ⟨s, hs⟩ := hprefix
  match line with
  | [] => simp [text] at hs
  | [c] =>
    have hc : '\r' = c := (List.cons.inj hs).1
    rw [hc]
  | c :: d :: line =>
    -- The second character would be a line feed.
    have hd : '\n' = d := (List.cons.inj (List.cons.inj hs).2).1
    exact absurd (by simp [← hd]) hline

/-- A line that is not empty does not look like the empty line, whatever is in it. -/
theorem cString_ne_of_line {line : Text} (hline : '\n' ∉ line) (hne : line ≠ []) :
    cString (line ++ text "\r\n") ≠ text "\r\n" := by
  intro h
  have hcr : '\n' ∉ line ++ ['\r'] := by simp [hline]
  have hsplit : line ++ text "\r\n" = (line ++ ['\r']) ++ ['\n'] := by simp [text]
  rw [hsplit] at h
  have hlength := congrArg List.length (eq_of_cString_eq hcr h)
  rw [List.length_append, List.length_singleton] at hlength
  exact hne (List.length_eq_zero_iff.mp (by omega))

/-! ## The line at which the loop ends -/

/-- The loop ends after a line of the stream, and leaves the rest. -/
inductive HeadersEndBefore : Text → Text → Prop where
  | here {s line rest : Text} (h : readLine MAXLINE s = (some line, rest))
      (hline : cString line = text "\r\n") : HeadersEndBefore s rest
  | later {s line next rest : Text} (h : readLine MAXLINE s = (some line, next))
      (hline : cString line ≠ text "\r\n") (hnext : HeadersEndBefore next rest) :
      HeadersEndBefore s rest

/-- The headers end at a place in the input. -/
theorem headersEnd_iff_exists {s : Text} : HeadersEnd s ↔ ∃ rest, HeadersEndBefore s rest := by
  constructor
  · intro h
    induction h with
    | here h hline => exact ⟨_, .here h hline⟩
    | @later s line next h hnext ih =>
      by_cases hline : cString line = text "\r\n"
      · exact ⟨_, .here h hline⟩
      · obtain ⟨rest, hrest⟩ := ih
        exact ⟨rest, .later h hline hrest⟩
  · intro h
    obtain ⟨rest, h⟩ := h
    induction h with
    | here h hline => exact .here h hline
    | later h hline hnext ih => exact .later h ih

/-- A line with a whole number of full pieces before its CR LF ends the headers. -/
theorem headersEndBefore_of_dvd {line : Text} (hline : '\n' ∉ line)
    (hdvd : pieceLength ∣ line.length) (s : Text) :
    HeadersEndBefore (line ++ text "\r\n" ++ s) s := by
  -- By induction on the length: each full piece leaves a shorter line.
  induction hlength : line.length using Nat.strongRecOn generalizing line with
  | ind n ih =>
    have hpos : 0 < pieceLength := by decide
    by_cases hle : pieceLength ≤ line.length
    · -- The first piece is full, and the others are those of a shorter line.
      have hrest : HeadersEndBefore (line.drop pieceLength ++ text "\r\n" ++ s) s := by
        refine ih (line.drop pieceLength).length ?_ (fun h => hline (List.mem_of_mem_drop h)) ?_ rfl
        · rw [List.length_drop]
          omega
        · rw [List.length_drop]
          exact Nat.dvd_sub hdvd (Nat.dvd_refl _)
      have hread := readLine_of_le hline hle (text "\r\n" ++ s)
      rw [← List.append_assoc, ← List.append_assoc] at hread
      exact .later hread (cString_ne_of_not_mem fun h => hline (List.mem_of_mem_take h)) hrest
    · -- No piece is full, so there is nothing before CR LF.
      have hnil : line = [] := List.length_eq_zero_iff.mp
        (Nat.eq_zero_of_dvd_of_lt hdvd (Nat.lt_of_not_le hle))
      subst hnil
      have hread : readLine MAXLINE (text "\r\n" ++ s) = (some (text "\r\n"), s) :=
        @readLine_of_lt ['\r'] (by decide) (by decide) s
      exact .here hread rfl

/-- Any other line is skipped. -/
theorem headersEndBefore_of_not_dvd {line : Text} (hline : '\n' ∉ line)
    (hdvd : ¬ pieceLength ∣ line.length) {s rest : Text} (hrest : HeadersEndBefore s rest) :
    HeadersEndBefore (line ++ text "\r\n" ++ s) rest := by
  -- By induction on the length, as before.
  induction hlength : line.length using Nat.strongRecOn generalizing line with
  | ind n ih =>
    have hpos : 0 < pieceLength := by decide
    by_cases hle : pieceLength ≤ line.length
    · have hnext : HeadersEndBefore (line.drop pieceLength ++ text "\r\n" ++ s) rest := by
        refine ih (line.drop pieceLength).length ?_ (fun h => hline (List.mem_of_mem_drop h)) ?_ rfl
        · rw [List.length_drop]
          omega
        · rw [List.length_drop]
          exact fun h => hdvd ((Nat.dvd_sub_iff_left hle (Nat.dvd_refl _)).mp h)
      have hread := readLine_of_le hline hle (text "\r\n" ++ s)
      rw [← List.append_assoc, ← List.append_assoc] at hread
      exact .later hread (cString_ne_of_not_mem fun h => hline (List.mem_of_mem_take h)) hnext
    · -- The last piece is not empty.
      have hne : line ≠ [] := by
        intro hnil
        exact hdvd (by simp [hnil])
      have hcr : '\n' ∉ line ++ ['\r'] := by simp [hline]
      have hsplit : line ++ text "\r\n" ++ s = (line ++ ['\r']) ++ '\n' :: s := by simp [text]
      rw [hsplit]
      -- With its line end it fits one piece, or the line feed is left over.
      by_cases hlt : (line ++ ['\r']).length < pieceLength
      · have hread := readLine_of_lt hcr hlt s
        refine .later hread ?_ hrest
        rw [List.append_assoc]
        exact cString_ne_of_line hline hne
      · -- The line feed is a piece of its own.
        have hfull : (line ++ ['\r']).length = pieceLength := by
          rw [List.length_append, List.length_singleton] at hlt ⊢
          omega
        have hread := readLine_of_le hcr (Nat.le_of_eq hfull.symm) ('\n' :: s)
        rw [← hfull, List.take_length, List.drop_length] at hread
        refine .later hread (cString_ne_of_not_mem hcr) ?_
        exact .later (@readLine_of_lt [] (by decide) (by decide) s) (by decide) hrest

/-! ## The streams on which it ends -/

/-- Some line of the stream has a whole number of full pieces before its CR LF; an empty line
    has none. -/
def HasEnd (s : Text) : Prop :=
  ∃ pre line rest, s = pre ++ (line ++ text "\r\n" ++ rest) ∧
    (pre = [] ∨ pre.getLast? = some '\n') ∧ '\n' ∉ line ∧ pieceLength ∣ line.length

/-- A stream that starts with a line ends the headers if what follows does. -/
theorem HeadersEnd.line {s : Text} (h : HeadersEnd s) {line : Text} (hline : '\n' ∉ line) :
    HeadersEnd (line ++ '\n' :: s) := by
  induction hlength : line.length using Nat.strongRecOn generalizing line with
  | ind n ih =>
    have hpos : 0 < pieceLength := by decide
    by_cases hle : pieceLength ≤ line.length
    · refine .later (readLine_of_le hline hle _) ?_
      refine ih (line.drop pieceLength).length ?_ (fun h => hline (List.mem_of_mem_drop h)) rfl
      rw [List.length_drop]
      omega
    · exact .later (readLine_of_lt hline (Nat.lt_of_not_le hle) s) h

/-- Lines in front do not change whether the headers end. -/
theorem HeadersEnd.lines {s : Text} (h : HeadersEnd s) {pre : Text}
    (hpre : pre = [] ∨ pre.getLast? = some '\n') : HeadersEnd (pre ++ s) := by
  induction hlength : pre.length using Nat.strongRecOn generalizing pre with
  | ind n ih =>
    rcases hpre with rfl | hlast
    · exact h
    · -- The first line of `pre`, and the others.
      obtain ⟨line, pre', rfl, hline⟩ :=
        List.eq_append_cons_of_mem (List.mem_of_getLast? hlast)
      rw [List.append_assoc, List.cons_append]
      refine (ih pre'.length ?_ ?_ rfl).line hline
      · rw [List.length_append, List.length_cons] at hlength
        omega
      · cases pre' with
        | nil => exact .inl rfl
        | cons c pre' =>
          rw [List.getLast?_append, List.getLast?_cons_cons] at hlast
          simpa using hlast

/-- The two definitions of an end agree. -/
theorem headersEnd_iff_hasEnd {s : Text} : HeadersEnd s ↔ HasEnd s := by
  -- From the pieces to the text: the induction is on the pieces.
  constructor
  · intro h
    induction h with
    | @here s line rest h hempty =>
      obtain ⟨-, hread⟩ := readLine_eq_some.mp h
      have hs := lineOf_append pieceLength s
      -- The last piece is the empty line, so the text begins with it.
      rcases lineOf_cases pieceLength s with ⟨line', hline', heq⟩ | ⟨hline, -⟩
      · rw [hread] at heq hs
        dsimp only at heq hs
        subst heq
        rw [eq_of_cString_eq hline' hempty] at hs
        exact ⟨[], [], rest, hs.symm, .inl rfl, List.not_mem_nil, Nat.dvd_zero _⟩
      · rw [hread] at hline
        exact absurd hempty (cString_ne_of_not_mem hline)
    | @later s line next h hnext ih =>
      obtain ⟨-, hread⟩ := readLine_eq_some.mp h
      have hs := lineOf_append pieceLength s
      have hcases := lineOf_cases pieceLength s
      rw [hread] at hs hcases
      dsimp only at hs hcases
      obtain ⟨pre, line', rest, hnext, hpre, hline', hdvd⟩ := ih
      -- What came before the end is nothing so far, or ends in a line feed.
      rcases hpre with rfl | hlast
      · rcases hcases with ⟨line₁, -, heq⟩ | ⟨hline, hend⟩
        · -- A whole line comes before.
          exact ⟨line, line', rest, by rw [← hs, hnext, List.nil_append], .inr (by simp [heq]),
            hline', hdvd⟩
        · -- A full piece of the same line comes before.
          have hlength : line.length = pieceLength := by
            rcases hend with hlength | hnil
            · exact hlength
            · simp [hnil, text] at hnext
          refine ⟨[], line ++ line', rest, ?_, .inl rfl, by simp [hline, hline'], ?_⟩
          · rw [← hs, hnext]
            simp only [List.nil_append, List.append_assoc]
          · rw [List.length_append, hlength]
            exact Nat.dvd_add (Nat.dvd_refl _) hdvd
      · -- The piece comes before everything else.
        refine ⟨line ++ pre, line', rest, ?_, .inr ?_, hline', hdvd⟩
        · rw [← hs, hnext]
          simp only [List.append_assoc]
        · rw [List.getLast?_append, hlast]
          rfl
  · -- From the text to the pieces: the lines before the end are read one by one.
    intro h
    obtain ⟨pre, line, rest, rfl, hpre, hline, hdvd⟩ := h
    exact (headersEnd_iff_exists.mpr ⟨rest, headersEndBefore_of_dvd hline hdvd rest⟩).lines hpre

/-! ## The loop -/

/-- `requestReadhdrs` reads a line, and starts again unless it is the empty one. -/
theorem requestReadhdrs_of_line {rp rp' : Rio} {buf buf' : Text} {answers rest : List SysAnswer}
    (h : Rio_readlineb rp buf MAXLINE answers = .done (buf', rp') rest) :
    requestReadhdrs rp buf answers =
      if cString buf' = text "\r\n" then .done rp' rest else requestReadhdrs rp' buf' rest := by
  have hdecreases := decreases_requestReadhdrsRound
  rw [requestReadhdrs, Process.bind_of_done h]
  split
  case isTrue hbuf =>
    apply Process.iterate_of_inr hdecreases
    rw [requestReadhdrsRound, if_pos hbuf]
    rfl
  case isFalse hbuf =>
    rw [Process.iterate_eq hdecreases, requestReadhdrsRound, if_neg hbuf, requestReadhdrs]
    simp only [Process.bind_apply]
    cases Rio_readlineb rp' buf' MAXLINE rest <;> rfl

/-- Headers that end have something in them. -/
theorem HeadersEndBefore.ne_nil {s rest : Text} (h : HeadersEndBefore s rest) : s ≠ [] := by
  cases h with
  | here h => exact (readLine_eq_some.mp h).1
  | later h => exact (readLine_eq_some.mp h).1

/-- A line of the headers is complete before anything that follows it is read. -/
theorem hasLine_of_next {s line next : Text} (h : readLine MAXLINE s = (some line, next))
    (hnext : cString line = text "\r\n" ∨ next ≠ []) : HasLine (MAXLINE - 1) s := by
  obtain ⟨-, hread⟩ := readLine_eq_some.mp h
  rcases hnext with hline | hnext
  · right
    have hmem : '\n' ∈ line := mem_of_mem_cString (by rw [hline]; decide)
    rw [← lineOf_append pieceLength s, hread]
    exact List.mem_append_left _ hmem
  · by_contra hnot
    have hnil := lineOf_of_not_hasLine hnot
    rw [show MAXLINE - 1 = pieceLength from rfl, hread] at hnil
    exact hnext hnil

/-- One line of the headers is read, and the next one comes after it. -/
theorem read_header {s line next : Text} (h : readLine MAXLINE s = (some line, next))
    (hnext : cString line = text "\r\n" ∨ next ≠ []) {rp : Rio} {portions : List Portion}
    (hs : rp.rio_buf ++ stream portions = s) (buf : Text) : ∃ rp' portions',
      rp'.rio_buf ++ stream portions' = next ∧ ∀ n,
        Rio_readlineb rp buf MAXLINE (arrive portions n) =
          .done (line, rp') (arrive portions' n) := by
  have hmaxlen : 1 < MAXLINE := by decide
  obtain ⟨rp', portions', k, hrest, hk, hread⟩ := Rio_readlineb_arrive hmaxlen hs buf
  obtain rfl := hk (hasLine_of_next h hnext)
  rw [h] at hrest hread
  exact ⟨rp', portions', hrest, hread⟩

/-- On a stream with an end of the headers the loop ends there, without waiting for more. -/
theorem requestReadhdrs_arrive {s rest : Text} (h : HeadersEndBefore s rest) {rp : Rio}
    {portions : List Portion} (hs : rp.rio_buf ++ stream portions = s) (buf : Text) :
    ∃ rp' portions', rp'.rio_buf ++ stream portions' = rest ∧
      ∀ n, requestReadhdrs rp buf (arrive portions n) = .done rp' (arrive portions' n) := by
  induction h generalizing rp portions buf with
  | @here s line rest h hline =>
    obtain ⟨rp', portions', hrest, hread⟩ := read_header h (.inl hline) hs buf
    refine ⟨rp', portions', hrest, fun n => ?_⟩
    rw [requestReadhdrs_of_line (hread n), if_pos hline]
  | @later s line next rest h hline hnext ih =>
    obtain ⟨rp₁, portions₁, hrest₁, hread⟩ := read_header h (.inr hnext.ne_nil) hs buf
    obtain ⟨rp', portions', hrest, hloop⟩ := ih hrest₁ line
    refine ⟨rp', portions', hrest, fun n => ?_⟩
    rw [requestReadhdrs_of_line (hread n), if_neg hline]
    exact hloop n

/-! ## Whether it ends -/

/-- When `requestReadhdrs` has returned, there is an end of the headers, or nothing was sent and
    its `buf` looked like the empty line at the start. -/
theorem headersEnd_of_returned {rp rp' : Rio} {buf : Text} {portions : List Portion} {n : Nat}
    {rest : List SysAnswer} (h : requestReadhdrs rp buf (arrive portions n) = .done rp' rest) :
    rp.rio_buf ++ stream portions = [] ∧ cString buf = text "\r\n" ∨
      HeadersEnd (rp.rio_buf ++ stream portions) := by
  have hmaxlen : 1 < MAXLINE := by decide
  obtain ⟨⟨buf₁, rp₁⟩, answers, hread, hloop⟩ := Process.bind_eq_done.mp h
  obtain ⟨portions₁, m, rfl, hbuf₁, hinput₁⟩ := Rio_readlineb_returned hmaxlen hread
  rw [← canEnd_readLine, ← hbuf₁, ← hinput₁]
  -- The loop could end at the start if it can end now.
  refine Process.iterate_induction
    (P := fun st as => ∃ portions n, as = arrive portions n ∧
      (CanEnd st.1 (st.2.rio_buf ++ stream portions) →
        CanEnd buf₁ (rp₁.rio_buf ++ stream portions₁)))
    (Q := fun _ _ => CanEnd buf₁ (rp₁.rio_buf ++ stream portions₁))
    decreases_requestReadhdrsRound ?_ ?_ ⟨portions₁, m, rfl, id⟩ hloop
  · intro st as st' rest₂ hst hround
    -- A round that goes on has read one piece more.
    obtain ⟨portions₂, n₂, rfl, hend⟩ := hst
    unfold requestReadhdrsRound at hround
    split at hround
    case isTrue => cases hround
    case isFalse hbuf =>
      obtain ⟨⟨buf₃, rp₃⟩, rest₃, hread₃, hround⟩ := Process.bind_eq_done.mp hround
      cases hround
      obtain ⟨portions₃, n₃, rfl, rfl, hinput₃⟩ := Rio_readlineb_returned hmaxlen hread₃
      refine ⟨portions₃, n₃, rfl, fun hend₃ => hend ?_⟩
      dsimp only at hend₃
      rw [hinput₃, canEnd_readLine] at hend₃
      rcases hend₃ with ⟨-, hbuf'⟩ | hrest
      · exact .inl hbuf'
      · exact .inr hrest
  · intro st as a rest₂ hst hround
    obtain ⟨portions₂, n₂, rfl, hend⟩ := hst
    unfold requestReadhdrsRound at hround
    split at hround
    -- The round that ends has the empty line in the buffer.
    case isTrue hbuf => exact hend (.inl hbuf)
    case isFalse =>
      obtain ⟨st', rest₃, -, hround⟩ := Process.bind_eq_done.mp hround
      cases hround

/-- Given any split of the bytes and then the end of the input as often as it is asked for, the
    loop ends exactly when some line counts as the empty one, or nothing was sent and its `buf`
    looked like the empty line at the start. -/
theorem requestReadhdrs_ends_iff (rp : Rio) (buf : Text) (portions : List Portion) :
    (∃ n rp' rest, requestReadhdrs rp buf (arrive portions n) = .done rp' rest) ↔
      HasEnd (rp.rio_buf ++ stream portions) ∨
        rp.rio_buf ++ stream portions = [] ∧ cString buf = text "\r\n" := by
  rw [← headersEnd_iff_hasEnd, or_comm]
  constructor
  · intro h
    -- A run that returns has met the end.
    obtain ⟨n, rp', rest, hdone⟩ := h
    exact headersEnd_of_returned hdone
  · -- An end in the input is met.
    intro h
    rcases h with ⟨hnil, hbuf⟩ | hend
    · -- The end of the input leaves `buf` as it is.
      have hmaxlen : 1 < MAXLINE := by decide
      obtain ⟨rp', portions', k, -, -, hread⟩ := Rio_readlineb_arrive hmaxlen hnil buf
      refine ⟨0 + k, rp', arrive portions' 0, ?_⟩
      rw [requestReadhdrs_of_line (hread 0)]
      exact if_pos hbuf
    · obtain ⟨rest, hrest⟩ := headersEnd_iff_exists.mp hend
      obtain ⟨rp', portions', -, hdone⟩ := requestReadhdrs_arrive hrest rfl buf
      exact ⟨0, rp', arrive portions' 0, hdone 0⟩

/-- A client that sends nothing keeps the loop going. -/
theorem requestReadhdrs_goes_on : ¬ ∃ n rp' rest,
    requestReadhdrs (Rio_readinitb 4) (text "GET / HTTP/1.0\r\n") (arrive [] n) =
      .done rp' rest := by
  intro h
  obtain ⟨n, rp', rest, hdone⟩ := h
  rcases headersEnd_of_returned hdone with ⟨-, hbuf⟩ | hend
  · exact absurd hbuf (by decide)
  · exact not_headersEnd_nil hend

/-! ## Where it ends -/

/-- The bytes that some answers bring. -/
def brought (answers : List SysAnswer) : Text :=
  answers.flatMap fun
    | .read (.ok bytes) => bytes
    | _ => []

/-- What two lists of answers bring, one after the other. -/
theorem brought_append (answers answers' : List SysAnswer) :
    brought (answers ++ answers') = brought answers ++ brought answers' := by
  rw [brought, List.flatMap_append]
  rfl

/-- What arrives is what the portions are made of. -/
theorem brought_arrive (portions : List Portion) (n : Nat) :
    brought (arrive portions n) = stream portions := by
  have hnone : brought (List.replicate n (.read (.ok []))) = [] := by
    induction n with
    | zero => rfl
    | succ n ih => exact ih
  rw [arrive, brought_append, hnone, List.append_nil, brought, List.flatMap_map]
  rfl

/-- The headers with these lines, and the empty line. -/
def headerBlock (lines : List Text) : Text :=
  lines.flatMap (· ++ text "\r\n") ++ text "\r\n"

/-- A block of headers starts with its first line. -/
theorem headerBlock_cons (line : Text) (lines : List Text) :
    headerBlock (line :: lines) = line ++ text "\r\n" ++ headerBlock lines := by
  simp [headerBlock]

section Block

variable {lines : List Text} (hlines : ∀ line ∈ lines, line ≠ [] ∧ '\n' ∉ line) (rest : Text)
include hlines

/-- Without lines of a full piece, the headers end at the end of the block. -/
theorem headersEndBefore_block (h : ∀ line ∈ lines, ¬ pieceLength ∣ line.length) :
    HeadersEndBefore (headerBlock lines ++ rest) rest := by
  induction lines with
  | nil => exact headersEndBefore_of_dvd List.not_mem_nil (Nat.dvd_zero _) rest
  | cons line lines ih =>
    rw [List.forall_mem_cons] at hlines h
    rw [headerBlock_cons, List.append_assoc]
    exact headersEndBefore_of_not_dvd hlines.1.2 h.1 (ih hlines.2 h.2)

/-- A line of a full number of pieces ends the headers too early. -/
theorem headersEndBefore_in_block {line : Text} (hmem : line ∈ lines)
    (h : pieceLength ∣ line.length) :
    ∃ rest', HeadersEndBefore (headerBlock lines ++ rest) rest' ∧ rest.length < rest'.length := by
  induction lines with
  | nil => cases hmem
  | cons line' lines ih =>
    rw [List.forall_mem_cons] at hlines
    rw [headerBlock_cons, List.append_assoc]
    by_cases hdvd : pieceLength ∣ line'.length
    · refine ⟨_, headersEndBefore_of_dvd hlines.1.2 hdvd _, ?_⟩
      simp [headerBlock, text]
      omega
    · have hmem' : line ∈ lines := by
        rcases List.mem_cons.mp hmem with rfl | hmem
        · exact absurd h hdvd
        · exact hmem
      obtain ⟨rest', hrest', hlt⟩ := ih hlines.2 hmem'
      exact ⟨rest', headersEndBefore_of_not_dvd hlines.1.2 hdvd hrest', hlt⟩

end Block

/-- However the headers are split, the loop ends right after the empty line exactly when no line
    is as long as a whole number of pieces. -/
theorem requestReadhdrs_stops_iff {rp : Rio} {portions : List Portion} {lines : List Text}
    {rest : Text} (hlines : ∀ line ∈ lines, line ≠ [] ∧ '\n' ∉ line)
    (hinput : rp.rio_buf ++ stream portions = headerBlock lines ++ rest) (buf : Text) (n : Nat) :
    (∃ rp' answers, requestReadhdrs rp buf (arrive portions n) = .done rp' answers ∧
        rp'.rio_buf ++ brought answers = rest) ↔
      ∀ line ∈ lines, ¬ pieceLength ∣ line.length := by
  constructor
  · -- The lines are read to the last; one that ends on a full piece would stop them earlier.
    intro h line hmem hdvd
    obtain ⟨rp', answers, hdone, hleft⟩ := h
    obtain ⟨rest', hend, hlt⟩ := headersEndBefore_in_block hlines rest hmem hdvd
    obtain ⟨rp₁, portions₁, hrest₁, hdone₁⟩ := requestReadhdrs_arrive hend hinput buf
    rw [hdone₁ n] at hdone
    cases hdone
    rw [brought_arrive, hrest₁] at hleft
    rw [hleft] at hlt
    exact Nat.lt_irrefl _ hlt
  · -- If no line does, the reading stops behind the block.
    intro h
    obtain ⟨rp', portions', hrest, hdone⟩ :=
      requestReadhdrs_arrive (headersEndBefore_block hlines rest h) hinput buf
    exact ⟨rp', _, hdone n, by rw [brought_arrive, hrest]⟩

/-- A short line, the empty line and a byte, in two portions. -/
theorem requestReadhdrs_stops_short :
    (∀ line ∈ [text "Host: a"], line ≠ [] ∧ '\n' ∉ line) ∧
      ((∃ rp' answers, requestReadhdrs (Rio_readinitb 4) []
            (arrive [⟨text "Host: a\r", by decide⟩, ⟨text "\n\r\nx", by decide⟩] 0) =
              .done rp' answers ∧ rp'.rio_buf ++ brought answers = text "x") ↔
        ∀ line ∈ [text "Host: a"], ¬ pieceLength ∣ line.length) :=
  ⟨by decide, requestReadhdrs_stops_iff (by decide) (by decide) [] 0⟩

/-- A line as long as a piece, and what comes after it. -/
def longLine : Text := List.replicate pieceLength 'a'

/-- The line has exactly the length of a piece. -/
theorem longLine_length : longLine.length = pieceLength := List.length_replicate

/-- The line is not empty. -/
theorem longLine_ne_nil : longLine ≠ [] := by
  intro h
  have hlength := longLine_length
  rw [h] at hlength
  exact absurd hlength (by decide)

/-- The line has no line feed in it. -/
theorem not_mem_longLine : '\n' ∉ longLine := by
  intro h
  exact absurd (List.eq_of_mem_replicate h) (by decide)

/-- One header of that length, and a byte of the body. -/
def longHeaders : List Portion :=
  [⟨longLine, longLine_ne_nil, by rw [longLine_length]; decide⟩, ⟨text "\r\n\r\nx", by decide⟩]

/-- What arrives is the block of headers, and then the byte. -/
theorem stream_longHeaders : stream longHeaders = headerBlock [longLine] ++ text "x" := by
  simp [longHeaders, headerBlock, text]

/-- After such a line the loop takes its CR LF for the empty line. -/
theorem requestReadhdrs_stops_early :
    (longLine ≠ [] ∧ '\n' ∉ longLine) ∧
      stream longHeaders = headerBlock [longLine] ++ text "x" ∧
        ¬ ∃ rp' answers, requestReadhdrs (Rio_readinitb 4) [] (arrive longHeaders 0) =
            .done rp' answers ∧ rp'.rio_buf ++ brought answers = text "x" := by
  refine ⟨⟨longLine_ne_nil, not_mem_longLine⟩, stream_longHeaders, ?_⟩
  intro h
  obtain ⟨rp', answers, hdone, hleft⟩ := h
  have hmem : ∀ line ∈ [longLine], line ≠ [] ∧ '\n' ∉ line := by
    simp [longLine_ne_nil, not_mem_longLine]
  -- The line is one full piece, so its line end is read as the empty line.
  have hdvd : pieceLength ∣ longLine.length :=
    ⟨1, by rw [Nat.mul_one, longLine_length]⟩
  obtain ⟨rest', hend, hlt⟩ :=
    headersEndBefore_in_block hmem (text "x") (List.mem_singleton_self _) hdvd
  have hinput : (Rio_readinitb 4).rio_buf ++ stream longHeaders =
      headerBlock [longLine] ++ text "x" := stream_longHeaders
  obtain ⟨rp₁, portions₁, hrest₁, hdone₁⟩ := requestReadhdrs_arrive hend hinput []
  rw [hdone₁ 0] at hdone
  cases hdone
  rw [brought_arrive, hrest₁] at hleft
  rw [hleft] at hlt
  exact Nat.lt_irrefl _ hlt

end OsWet
