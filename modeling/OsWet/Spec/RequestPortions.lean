import OsWet.Spec.RequestInput

/-!
# A client whose bytes arrive in portions

The answers to the reads are given here: each portion in turn, and then the end of the input
as often as it is asked for. What is read depends only on the bytes, however they are split,
and a line that is complete is read without waiting for what follows it.

## Main result

- `Rio_readlineb_arrive`: `Rio_readlineb` returns the first line of the bytes, and sees the end of
  the input only if it comes before the end of the line
-/

namespace OsWet

open Text

/-- What one `read` can bring. -/
abbrev Portion : Type := {bytes : Text // bytes ≠ [] ∧ bytes.length ≤ RIO_BUFSIZE}

/-- The bytes of some portions. -/
def stream (portions : List Portion) : Text := portions.flatMap Subtype.val

/-- What the portions are made of. -/
@[simp] theorem stream_nil : stream [] = [] := rfl

@[simp] theorem stream_cons (bytes : Portion) (portions : List Portion) :
    stream (bytes :: portions) = bytes.val ++ stream portions := rfl

/-- The answers that bring the portions, and then the end of the input `n` times. -/
def arrive (portions : List Portion) (n : Nat) : List SysAnswer :=
  portions.map (fun bytes => .read (.ok bytes.val)) ++ List.replicate n (.read (.ok []))

/-- The first portion is the first answer. -/
theorem arrive_cons (bytes : Portion) (portions : List Portion) (n : Nat) :
    arrive (bytes :: portions) n = .read (.ok bytes.val) :: arrive portions n := rfl

/-- After the last portion every answer is the end of the stream. -/
theorem arrive_end (n : Nat) : arrive [] (n + 1) = .read (.ok []) :: arrive [] n := rfl

/-- More ends of the stream come last. -/
theorem arrive_add (portions : List Portion) (n k : Nat) :
    arrive portions (n + k) = arrive portions n ++ List.replicate k (.read (.ok [])) := by
  rw [arrive, arrive, ← List.replicate_append_replicate, List.append_assoc]

/-- The end of the input is the last answer only if it was there before. -/
theorem arrive_eq_concat {portions : List Portion} {n : Nat} {rest : List SysAnswer}
    (h : rest ++ [.read (.ok [])] = arrive portions n) : ∃ m, rest = arrive portions m := by
  cases n with
  | zero =>
    rcases List.eq_nil_or_concat portions with rfl | ⟨portions, bytes, rfl⟩
    · simp [arrive] at h
    · -- The last portion is not empty.
      have hlast := congrArg List.getLast? h
      simp [arrive] at hlast
      exact absurd hlast bytes.property.1
  | succ m =>
    rw [arrive_add, List.replicate_one] at h
    exact ⟨m, (List.append_inj' h rfl).1⟩

/-- What is left of the answers still is what arrives. -/
theorem arrive_eq_append {portions : List Portion} {n k : Nat} {rest : List SysAnswer}
    (h : rest ++ List.replicate k (.read (.ok [])) = arrive portions n) :
    ∃ m, rest = arrive portions m := by
  induction k generalizing n with
  | zero => exact ⟨n, by simpa using h⟩
  | succ k ih =>
    rw [List.replicate_succ', ← List.append_assoc] at h
    obtain ⟨m, hm⟩ := arrive_eq_concat h
    exact ih hm

/-! ## Bytes -/

/-- A `read` gets the first portion. -/
theorem read_arrive {fd : Int} (bytes : Portion) (portions : List Portion) (n : Nat) :
    syscall (.read fd RIO_BUFSIZE) (arrive (bytes :: portions) n) =
      .done (.read (.ok bytes.val)) (arrive portions n) :=
  Process.ask_eq_done.mpr ⟨arrive_cons bytes portions n, decide_eq_true bytes.property.2⟩

/-- A `read` after the last portion gets the end of the stream. -/
theorem read_arrive_end {fd : Int} (n : Nat) :
    syscall (.read fd RIO_BUFSIZE) (arrive [] (n + 1)) = .done (.read (.ok [])) (arrive [] n) :=
  Process.ask_eq_done.mpr ⟨arrive_end n, rfl⟩

/-- A buffer that is not empty is not filled. -/
theorem rio_readLoop_of_full {rp : Rio} (h : rp.rio_buf ≠ []) (answers : List SysAnswer) :
    Process.iterate answersLeft rio_readRound rp answers = .done (.ok rp) answers := by
  apply Process.iterate_of_inr decreases_rio_readRound
  rw [rio_readRound, if_pos h]
  rfl

/-- A byte that is in the buffer is read from there. -/
theorem rio_read_of_full {rp : Rio} {c : Char} {bytes : Text} (h : rp.rio_buf = c :: bytes)
    (answers : List SysAnswer) :
    rio_read rp 1 answers = .done (1, [c], { rp with rio_buf := bytes }) answers := by
  have hne : rp.rio_buf ≠ [] := by simp [h]
  rw [rio_read, Process.bind_of_done (rio_readLoop_of_full hne answers)]
  simp [h]

/-- An empty buffer is filled first. -/
theorem rio_read_of_empty {rp : Rio} (h : rp.rio_buf = []) (bytes : Portion)
    (portions : List Portion) (n : Nat) :
    rio_read rp 1 (arrive (bytes :: portions) n) =
      rio_read { rp with rio_buf := bytes.val } 1 (arrive portions n) := by
  have hround : rio_readRound rp (arrive (bytes :: portions) n) =
      .done (.inl { rp with rio_buf := bytes.val }) (arrive portions n) := by
    rw [rio_readRound, if_neg (not_not.mpr h), Process.bind_of_done (read_arrive bytes portions n)]
    obtain ⟨c, s, hbytes⟩ := List.exists_cons_of_ne_nil bytes.property.1
    rw [hbytes]
    rfl
  rw [rio_read, rio_read, Process.bind_apply, Process.bind_apply,
    Process.iterate_of_inl decreases_rio_readRound hround]

/-- The next byte is read, and the others are left. -/
theorem rio_read_arrive {rp : Rio} {portions : List Portion} {c : Char} {s : Text}
    (h : rp.rio_buf ++ stream portions = c :: s) : ∃ rp' portions',
      rp'.rio_buf ++ stream portions' = s ∧
        ∀ n, rio_read rp 1 (arrive portions n) = .done (1, [c], rp') (arrive portions' n) := by
  cases hbuf : rp.rio_buf with
  | cons b bytes =>
    rw [hbuf] at h
    obtain ⟨rfl, rfl⟩ := List.cons.inj h
    exact ⟨{ rp with rio_buf := bytes }, portions, rfl, fun n => rio_read_of_full hbuf _⟩
  | nil =>
    cases portions with
    | nil => simp [hbuf] at h
    | cons portion portions =>
      obtain ⟨b, bytes, hportion⟩ := List.exists_cons_of_ne_nil portion.property.1
      rw [hbuf, List.nil_append, stream_cons, hportion] at h
      obtain ⟨rfl, rfl⟩ := List.cons.inj h
      refine ⟨{ rp with rio_buf := bytes }, portions, rfl, fun n => ?_⟩
      rw [rio_read_of_empty hbuf]
      exact rio_read_of_full hportion _

/-- At the end of the input nothing is read. -/
theorem rio_read_arrive_end {rp : Rio} {portions : List Portion}
    (h : rp.rio_buf ++ stream portions = []) (n : Nat) :
    portions = [] ∧ rio_read rp 1 (arrive [] (n + 1)) = .done (0, [], rp) (arrive [] n) := by
  obtain ⟨hbuf, hstream⟩ := List.append_eq_nil_iff.mp h
  have hround : rio_readRound rp (arrive [] (n + 1)) = .done (.inr (.error 0)) (arrive [] n) := by
    rw [rio_readRound, if_neg (not_not.mpr hbuf), Process.bind_of_done (read_arrive_end n)]
    rfl
  constructor
  · cases portions with
    | nil => rfl
    | cons bytes portions => exact absurd (List.append_eq_nil_iff.mp hstream).1 bytes.property.1
  · rw [rio_read,
      Process.bind_of_done (Process.iterate_of_inr decreases_rio_readRound hround), ← hbuf]
    rfl

/-! ## Lines -/

/-- The first line of the bytes ends among them, or has `n` of them. -/
def HasLine (n : Nat) (s : Text) : Prop := n ≤ s.length ∨ '\n' ∈ s

/-- There is always room for no character. -/
theorem hasLine_zero (s : Text) : HasLine 0 s := .inl (Nat.zero_le _)

/-- An empty input has no line. -/
theorem not_hasLine_nil (n : Nat) : ¬ HasLine (n + 1) [] := by
  simp [HasLine]

/-- Another character that is no line feed belongs to the line. -/
theorem hasLine_cons {n : Nat} {c : Char} {s : Text} (hc : c ≠ '\n') :
    HasLine (n + 1) (c :: s) ↔ HasLine n s := by
  simp [HasLine, hc.symm]

/-- A line that is not complete is followed by nothing. -/
theorem lineOf_of_not_hasLine {n : Nat} {s : Text} (h : ¬ HasLine n s) : (lineOf n s).2 = [] := by
  induction n generalizing s with
  | zero => exact absurd (hasLine_zero s) h
  | succ n ih =>
    cases s with
    | nil => rfl
    | cons c s =>
      have hc : c ≠ '\n' := fun hc => h (.inr (by simp [hc]))
      rw [hasLine_cons hc] at h
      rw [lineOf, if_neg hc]
      exact ih h

section Loop

variable {maxlen : Nat} {st : ReadLine} {portions : List Portion}

/-- A byte of the line. -/
theorem rio_readlinebRound_arrive {c : Char} {s : Text} (hlt : st.n < maxlen)
    (h : st.rp.rio_buf ++ stream portions = c :: s) : ∃ rp' portions',
      rp'.rio_buf ++ stream portions' = s ∧
        ∀ n, rio_readlinebRound maxlen st (arrive portions n) = .done
          (if c = '\n' then .inr (st.n, some (st.bytes ++ [c]), rp')
            else .inl ⟨st.n + 1, st.bytes ++ [c], rp'⟩) (arrive portions' n) := by
  obtain ⟨rp', portions', hrest, hread⟩ := rio_read_arrive h
  refine ⟨rp', portions', hrest, fun n => ?_⟩
  rw [rio_readlinebRound, if_pos hlt, Process.bind_of_done (hread n)]
  by_cases hc : c = '\n'
  · simp [hc]
  · simp [hc]

/-- The loop of `rio_readlineb` when the line is complete. -/
theorem rio_readlinebLoop_arrive {k : Nat} {s : Text} (hk : k = maxlen - st.n)
    (h : st.rp.rio_buf ++ stream portions = s) (hline : HasLine k s) :
    ∃ rc rp' portions', 0 ≤ rc ∧ rp'.rio_buf ++ stream portions' = (lineOf k s).2 ∧
      ∀ n, Process.iterate (fun s _ => maxlen - s.n) (rio_readlinebRound maxlen) st
        (arrive portions n) =
          .done (rc, some (st.bytes ++ (lineOf k s).1), rp') (arrive portions' n) := by
  have hdecreases := decreases_rio_readlinebRound maxlen
  -- By induction on the letters that still fit into `usrbuf`.
  induction k generalizing st portions s with
  | zero =>
    -- `usrbuf` is full.
    refine ⟨st.n, st.rp, portions, Int.natCast_nonneg _, h, fun n => ?_⟩
    apply Process.iterate_of_inr hdecreases
    rw [rio_readlinebRound, if_neg (by omega), lineOf, List.append_nil]
    rfl
  | succ k ih =>
    cases s with
    | nil => exact absurd hline (not_hasLine_nil k)
    | cons c s =>
      have hlt : st.n < maxlen := by omega
      obtain ⟨rp', portions', hrest, hround⟩ := rio_readlinebRound_arrive hlt h
      -- A line feed ends the line; any other letter is copied, and the rest is a shorter line.
      by_cases hc : c = '\n'
      · rw [lineOf, if_pos hc]
        refine ⟨st.n, rp', portions', Int.natCast_nonneg _, hrest, fun n => ?_⟩
        apply Process.iterate_of_inr hdecreases
        rw [hround n, if_pos hc]
      · have hk' : k = maxlen - (st.n + 1) := by omega
        have hst' : (ReadLine.mk (st.n + 1) (st.bytes ++ [c]) rp').rp.rio_buf ++
            stream portions' = s := hrest
        obtain ⟨rc, rp'', portions'', hrc, hrest', hloop⟩ :=
          ih hk' hst' ((hasLine_cons hc).mp hline)
        refine ⟨rc, rp'', portions'', hrc, ?_, fun n => ?_⟩
        · rw [lineOf, if_neg hc]
          exact hrest'
        · have hinl := hround n
          rw [if_neg hc] at hinl
          rw [Process.iterate_of_inl hdecreases hinl, hloop n, lineOf, if_neg hc]
          simp

/-- The loop of `rio_readlineb` when the input ends in the line. -/
theorem rio_readlinebLoop_arrive_end {k : Nat} {s : Text} (hk : k = maxlen - st.n)
    (hn : 1 ≤ st.n) (h : st.rp.rio_buf ++ stream portions = s) (hline : ¬ HasLine k s) :
    ∃ rc rp', 0 ≤ rc ∧ rp'.rio_buf = [] ∧
      ∀ n, Process.iterate (fun s _ => maxlen - s.n) (rio_readlinebRound maxlen) st
        (arrive portions (n + 1)) =
          .done (rc, if st.n = 1 ∧ s = [] then none else some (st.bytes ++ (lineOf k s).1), rp')
            (arrive [] n) := by
  have hdecreases := decreases_rio_readlinebRound maxlen
  -- By induction as before; here the stream ends before the line does.
  induction k generalizing st portions s with
  | zero => exact absurd (hasLine_zero s) hline
  | succ k ih =>
    have hlt : st.n < maxlen := by omega
    cases s with
    -- The end of the file: what was copied is the line, or there is none.
    | nil =>
      have hbuf := (List.append_eq_nil_iff.mp h).1
      rw [lineOf_nil, List.append_nil]
      refine ⟨if st.n = 1 then 0 else st.n, st.rp, by split <;> omega, hbuf, fun n => ?_⟩
      obtain ⟨rfl, hread⟩ := rio_read_arrive_end h n
      apply Process.iterate_of_inr hdecreases
      rw [rio_readlinebRound, if_pos hlt, Process.bind_of_done hread]
      by_cases hone : st.n = 1
      · simp [hone]
      · simp [hone]
    | cons c s =>
      -- A letter that is not the line feed, since there is no whole line.
      have hc : c ≠ '\n' := fun hc => hline (.inr (by simp [hc]))
      obtain ⟨rp', portions', hrest, hround⟩ := rio_readlinebRound_arrive hlt h
      have hk' : k = maxlen - (st.n + 1) := by omega
      have hst' : (ReadLine.mk (st.n + 1) (st.bytes ++ [c]) rp').rp.rio_buf ++
          stream portions' = s := hrest
      obtain ⟨rc, rp'', hrc, hbuf, hloop⟩ :=
        ih hk' (Nat.le_add_left 1 st.n) hst' (mt (hasLine_cons hc).mpr hline)
      refine ⟨rc, rp'', hrc, hbuf, fun n => ?_⟩
      have hinl := hround (n + 1)
      rw [if_neg hc] at hinl
      rw [Process.iterate_of_inl hdecreases hinl, hloop n, lineOf, if_neg hc,
        if_neg (by simp only; omega), if_neg (by simp)]
      simp

end Loop

/-- `Rio_readlineb` returns what `rio_readlineb` returns. -/
theorem Rio_readlineb_of_done {rp rp' : Rio} {maxlen : Nat} {rc : Int} {line : Option Text}
    {answers rest : List SysAnswer} (hrc : 0 ≤ rc)
    (h : rio_readlineb rp maxlen answers = .done (rc, line, rp') rest) (usrbuf : Text) :
    Rio_readlineb rp usrbuf maxlen answers = .done (line.getD usrbuf, rp') rest := by
  rw [Rio_readlineb, Process.bind_of_done h]
  simp only [if_neg (Int.not_lt.mpr hrc)]
  rfl

/-- What `Rio_readlineb` does with the bytes `s`: the first line goes to the buffer, and `k` is the
    number of times that it sees the end of the input. -/
theorem Rio_readlineb_arrive {rp : Rio} {portions : List Portion} {s : Text} {maxlen : Nat}
    (hmaxlen : 1 < maxlen) (h : rp.rio_buf ++ stream portions = s) (usrbuf : Text) :
    ∃ rp' portions' k, rp'.rio_buf ++ stream portions' = (readLine maxlen s).2 ∧
      (HasLine (maxlen - 1) s → k = 0) ∧
        ∀ n, Rio_readlineb rp usrbuf maxlen (arrive portions (n + k)) =
          .done ((readLine maxlen s).1.getD usrbuf, rp') (arrive portions' n) := by
  have hmax : maxlen - 1 = maxlen - 2 + 1 := by omega
  have hst : (ReadLine.mk 1 [] rp).rp.rio_buf ++ stream portions = s := h
  -- The line comes whole, or the stream ends in it.
  by_cases hline : HasLine (maxlen - 1) s
  · have hne : s ≠ [] := by
      intro hs
      rw [hs, hmax] at hline
      exact not_hasLine_nil _ hline
    obtain ⟨rc, rp', portions', hrc, hrest, hloop⟩ :=
      rio_readlinebLoop_arrive rfl hst hline
    rw [readLine, if_neg hne]
    exact ⟨rp', portions', 0, hrest, fun _ => rfl, fun n => Rio_readlineb_of_done hrc (hloop n) _⟩
  · obtain ⟨rc, rp', hrc, hbuf, hloop⟩ :=
      rio_readlinebLoop_arrive_end rfl (Nat.le_refl 1) hst hline
    refine ⟨rp', [], 1, ?_, fun hline' => absurd hline' hline, fun n => ?_⟩
    · -- What is read is the line so far, and nothing is left.
      rw [hbuf, readLine]
      split
      · rfl
      · exact (lineOf_of_not_hasLine hline).symm
    · rw [Rio_readlineb_of_done hrc (hloop n)]
      by_cases hs : s = []
      · simp [readLine, hs]
      · simp [readLine, hs]

/-- When `Rio_readlineb` has returned, it has read the first line. -/
theorem Rio_readlineb_returned {rp rp' : Rio} {portions : List Portion} {usrbuf buf : Text}
    {maxlen n : Nat} {rest : List SysAnswer} (hmaxlen : 1 < maxlen)
    (h : Rio_readlineb rp usrbuf maxlen (arrive portions n) = .done (buf, rp') rest) :
    ∃ portions' m, rest = arrive portions' m ∧
      buf = (readLine maxlen (rp.rio_buf ++ stream portions)).1.getD usrbuf ∧
        rp'.rio_buf ++ stream portions' =
          (readLine maxlen (rp.rio_buf ++ stream portions)).2 := by
  obtain ⟨rp₁, portions', k, hrest, -, hread⟩ := Rio_readlineb_arrive hmaxlen rfl usrbuf
  -- More ends of the input would not have mattered.
  have hmore := (exitsAt_Rio_readlineb rp usrbuf maxlen).causal.append h
    (List.replicate k (.read (.ok [])))
  rw [← arrive_add, hread n] at hmore
  injection hmore with hline hleft
  obtain ⟨rfl, rfl⟩ := Prod.mk.inj hline
  obtain ⟨m, hm⟩ := arrive_eq_append hleft.symm
  exact ⟨portions', m, hm, rfl, hrest⟩

end OsWet
