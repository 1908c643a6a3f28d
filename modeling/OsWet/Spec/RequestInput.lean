import OsWet.Spec.RequestWorld

/-!
# What a request reads

Reading a line and skipping the headers, in the world of `RequestWorld`: however the client
sends its bytes, what is read depends only on them.
-/

namespace OsWet

open Text

variable {fs : FileSystem} {w w' : RequestWorld}

/-- What is left to be read. -/
def Rio.input (rp : Rio) (w : RequestWorld) : Text := rp.rio_buf ++ w.client

/-- Nothing but reading has happened. -/
structure OnlyReads (w w' : RequestWorld) : Prop where
  written : w'.written = w.written
  opened : w'.opened = w.opened

theorem OnlyReads.refl (w : RequestWorld) : OnlyReads w w := ⟨rfl, rfl⟩

theorem OnlyReads.trans {w₁ w₂ w₃ : RequestWorld} (h : OnlyReads w₁ w₂) (h' : OnlyReads w₂ w₃) :
    OnlyReads w₁ w₃ :=
  ⟨h'.written.trans h.written, h'.opened.trans h.opened⟩

/-- A round of the refill, with the world. -/
theorem runs_rio_readRound {rp : Rio} {r : Rio ⊕ Except Int Rio}
    (h : RunsWith fs (rio_readRound rp) w r w') :
    (rp.rio_buf ≠ [] ∧ r = .inr (.ok rp) ∧ w' = w) ∨
      (rp.rio_buf = [] ∧ OnlyReads w w' ∧
        (r = .inr (.error 0) ∧ w.client = [] ∧ w'.client = [] ∨
          ∃ rp', r = .inl rp' ∧ rp'.input w' = rp.input w)) ∨
      r = .inr (.error (-1)) := by
  unfold rio_readRound at h
  -- Bytes in the buffer: no call is made.
  split at h
  · rename_i hne
    obtain ⟨rfl, rfl⟩ := Process.runsIn_pure.mp h
    exact .inl ⟨hne, rfl, rfl⟩
  · rename_i hempty
    -- One call to `read`, whose answer is bytes, the end, a signal, or an error.
    rw [not_not] at hempty
    obtain ⟨answer, w₁, hcall, hrest⟩ := (Process.runsIn_bind (causal_syscall _)).mp h
    obtain ⟨hallows, hnext⟩ := runsWith_syscall.mp hcall
    cases answer with
    | read result =>
      cases result with
      | ok bytes =>
        simp only [RequestWorld.next] at hnext
        split at hnext
        · rename_i hclient
          -- The kernel gives what the client has sent, and nothing only when that is all.
          cases hnext
          cases bytes with
          | nil =>
            obtain ⟨rfl, rfl⟩ := Process.runsIn_pure.mp hrest
            refine .inr (.inl ⟨hempty, ⟨rfl, rfl⟩, .inl ⟨rfl, hclient.2 rfl, ?_⟩⟩)
            simp [hclient.2 rfl]
          | cons c bytes =>
            obtain ⟨rfl, rfl⟩ := Process.runsIn_pure.mp hrest
            refine .inr (.inl ⟨hempty, ⟨rfl, rfl⟩, .inr ⟨_, rfl, ?_⟩⟩)
            -- What the buffer gains, the client loses.
            obtain ⟨rest, hrest⟩ := hclient.1
            simp [Rio.input, hempty, ← hrest]
        · cases hnext
      | error errno =>
        -- A call that fails takes nothing from the client.
        cases hnext
        cases errno with
        | EINTR =>
          obtain ⟨rfl, rfl⟩ := Process.runsIn_pure.mp hrest
          exact .inr (.inl ⟨hempty, .refl w, .inr ⟨rp, rfl, rfl⟩⟩)
        | other =>
          obtain ⟨rfl, rfl⟩ := Process.runsIn_pure.mp hrest
          exact .inr (.inr rfl)
    | _ => cases hallows

/-- The refill leaves the input as it is, with the next byte in the buffer if there is one. -/
theorem runs_rio_readLoop {rp : Rio} {r : Except Int Rio}
    (h : RunsWith fs (Process.iterate answersLeft rio_readRound rp) w r w') :
    r = .error (-1) ∨ OnlyReads w w' ∧ (r = .error 0 ∧ rp.input w = [] ∧ w'.client = [] ∨
      ∃ rp', r = .ok rp' ∧ rp'.rio_buf ≠ [] ∧ rp'.input w' = rp.input w) := by
  -- The invariant: what the buffer and the client have together is the same.
  refine Process.RunsIn.iterate_induction
    (I := fun rp₁ w₁ => OnlyReads w w₁ ∧ rp₁.input w₁ = rp.input w)
    (Q := fun r w' => r = .error (-1) ∨ OnlyReads w w' ∧
      (r = .error 0 ∧ rp.input w = [] ∧ w'.client = [] ∨
        ∃ rp', r = .ok rp' ∧ rp'.rio_buf ≠ [] ∧ rp'.input w' = rp.input w))
    decreases_rio_readRound (fun rp => (exactAt_rio_readRound rp).causal) ?_ ?_
    ⟨.refl w, rfl⟩ h
  · -- A round that goes on was interrupted.
    intro rp₁ w₁ rp₂ w₂ h hround
    obtain ⟨honly, hinput⟩ := h
    rcases runs_rio_readRound hround with
      ⟨-, hr, -⟩ | ⟨-, honly', ⟨hr, -⟩ | ⟨rp₃, hr, hinput'⟩⟩ | hr
    · cases hr
    · cases hr
    · cases hr
      exact ⟨honly.trans honly', hinput'.trans hinput⟩
    · cases hr
  · -- A round that ends has filled the buffer, met the end, or failed.
    intro rp₁ w₁ r₁ w₂ h hround
    obtain ⟨honly, hinput⟩ := h
    rcases runs_rio_readRound hround with
      ⟨hne, hr, rfl⟩ | ⟨hempty, honly', ⟨hr, hclient, hclient'⟩ | ⟨rp₃, hr, -⟩⟩ | hr
    · cases hr
      exact .inr ⟨honly, .inr ⟨rp₁, rfl, hne, hinput⟩⟩
    · cases hr
      have hnone : rp.input w = [] := by rw [← hinput, Rio.input, hempty, hclient, List.nil_append]
      exact .inr ⟨honly.trans honly', .inl ⟨rfl, hnone, hclient'⟩⟩
    · cases hr
    · cases hr
      exact .inl rfl

/-- Reading one byte takes it from the input, unless a `read` fails. -/
theorem runs_rio_read {rp rp' : Rio} {rc : Int} {c : Text}
    (h : RunsWith fs (rio_read rp 1) w (rc, c, rp') w') :
    rc = -1 ∨ OnlyReads w w' ∧ c = (rp.input w).take 1 ∧ rc = c.length ∧
      rp'.input w' = (rp.input w).drop 1 := by
  obtain ⟨r, w₁, hloop, hrest⟩ :=
    (Process.runsIn_bind (exactAt_rio_readLoop rp).causal).mp h
  -- The three ends of the loop: failure, end of the file, a full buffer.
  rcases runs_rio_readLoop hloop with rfl | ⟨honly, ⟨rfl, hnone, hclient⟩ | ⟨rp₁, rfl, hne, hinput⟩⟩
  · obtain ⟨heq, -⟩ := Process.runsIn_pure.mp hrest
    cases heq
    exact .inl rfl
  · obtain ⟨heq, rfl⟩ := Process.runsIn_pure.mp hrest
    cases heq
    rw [hnone]
    exact .inr ⟨honly, rfl, rfl, by simp [Rio.input, hclient]⟩
  · -- One byte is copied out of the buffer.
    obtain ⟨heq, rfl⟩ := Process.runsIn_pure.mp hrest
    cases heq
    obtain ⟨b, bytes, hbuf⟩ := List.exists_cons_of_ne_nil hne
    rw [← hinput]
    refine .inr ⟨honly, ?_, ?_, ?_⟩
    · simp [Rio.input, hbuf]
    · simp [hbuf]
    · simp [Rio.input, hbuf]

/-- One round of the refill, and then the others. -/
theorem runsWith_rio_readLoop {rp : Rio} {r : Except Int Rio} :
    RunsWith fs (Process.iterate answersLeft rio_readRound rp) w r w' ↔
      ∃ r₁ w₁, RunsWith fs (rio_readRound rp) w r₁ w₁ ∧
        RunsWith fs (Sum.elim (Process.iterate answersLeft rio_readRound) pure r₁) w₁ r w' :=
  Process.runsIn_iterate decreases_rio_readRound fun rp => (exactAt_rio_readRound rp).causal

/-- The refill can go well: the client sends its bytes one by one. -/
theorem exists_rio_readLoop (fs : FileSystem) (w : RequestWorld) (rp : Rio) : ∃ r w',
    RunsWith fs (Process.iterate answersLeft rio_readRound rp) w r w' ∧ r ≠ .error (-1) := by
  -- A buffer with something in it ends the loop at once.
  have hfull : ∀ (rp : Rio) (w : RequestWorld), rp.rio_buf ≠ [] →
      RunsWith fs (Process.iterate answersLeft rio_readRound rp) w (.ok rp) w := by
    intro rp w hne
    refine runsWith_rio_readLoop.mpr ⟨.inr (.ok rp), w, ?_, Process.runsIn_pure.mpr ⟨rfl, rfl⟩⟩
    rw [rio_readRound, if_pos hne]
    exact Process.runsIn_pure.mpr ⟨rfl, rfl⟩
  by_cases hne : rp.rio_buf ≠ []
  · exact ⟨_, _, hfull rp w hne, by simp⟩
  · -- An empty one asks the client, who may give one byte or the end.
    cases hclient : w.client with
    | nil =>
      refine ⟨.error 0, w, runsWith_rio_readLoop.mpr ⟨.inr (.error 0), w, ?_,
        Process.runsIn_pure.mpr ⟨rfl, rfl⟩⟩, by simp⟩
      rw [rio_readRound, if_neg hne]
      refine (Process.runsIn_bind (causal_syscall _)).mpr ⟨.read (.ok []), w, ?_, ?_⟩
      · refine runsWith_syscall.mpr ⟨rfl, ?_⟩
        rw [RequestWorld.next, if_pos ⟨List.nil_prefix, fun _ => hclient⟩]
        rfl
      · exact Process.runsIn_pure.mpr ⟨rfl, rfl⟩
    | cons c client =>
      refine ⟨_, { w with client := client }, runsWith_rio_readLoop.mpr
        ⟨.inl { rp with rio_buf := [c] }, { w with client := client }, ?_,
          hfull _ _ (List.cons_ne_nil c [])⟩, by simp⟩
      rw [rio_readRound, if_neg hne]
      refine (Process.runsIn_bind (causal_syscall _)).mpr
        ⟨.read (.ok [c]), { w with client := client }, ?_, ?_⟩
      · exact runsWith_syscall.mpr ⟨rfl, by simp [RequestWorld.next, hclient]⟩
      · exact Process.runsIn_pure.mpr ⟨rfl, rfl⟩

/-- A character can always be read. -/
theorem exists_rio_read (fs : FileSystem) (w : RequestWorld) (rp : Rio) :
    ∃ rc c rp' w', RunsWith fs (rio_read rp 1) w (rc, c, rp') w' ∧ rc ≠ -1 := by
  obtain ⟨r, w', hloop, hr⟩ := exists_rio_readLoop fs w rp
  cases r with
  | error rc =>
    refine ⟨rc, [], { rp with rio_buf := [] }, w', ?_, fun hrc => hr (by rw [hrc])⟩
    exact (Process.runsIn_bind (exactAt_rio_readLoop rp).causal).mpr
      ⟨_, w', hloop, Process.runsIn_pure.mpr ⟨rfl, rfl⟩⟩
  | ok rp₁ =>
    refine ⟨_, _, _, w', (Process.runsIn_bind (exactAt_rio_readLoop rp).causal).mpr
      ⟨_, w', hloop, Process.runsIn_pure.mpr ⟨rfl, rfl⟩⟩, ?_⟩
    omega

/-! ## Lines -/

/-- The first line of a string if it has at most `n` characters, with its line feed, and
    otherwise its first `n` characters; and what follows. -/
def lineOf : Nat → Text → Text × Text
  | 0, s => ([], s)
  | _ + 1, [] => ([], [])
  | n + 1, c :: s => if c = '\n' then ([c], s) else (c :: (lineOf n s).1, (lineOf n s).2)

/-- An empty input has an empty line. -/
theorem lineOf_nil (n : Nat) : lineOf n [] = ([], []) := by
  cases n with
  | zero => rfl
  | succ n => rfl

/-- The first line of the input of `rio_readlineb`, if there is one, and what follows. -/
def readLine (maxlen : Nat) (s : Text) : Option Text × Text :=
  if s = [] then (none, [])
  else (some (lineOf (maxlen - 1) s).1, (lineOf (maxlen - 1) s).2)

/-- A round of `rio_readlineb`, with the world. -/
theorem runs_rio_readlinebRound {maxlen : Nat} {st : ReadLine}
    {r : ReadLine ⊕ Int × Option Text × Rio}
    (h : RunsWith fs (rio_readlinebRound maxlen st) w r w') :
    (maxlen ≤ st.n ∧ r = .inr (st.n, some st.bytes, st.rp) ∧ w' = w) ∨
      st.n < maxlen ∧ ((∃ rp', r = .inr (-1, none, rp')) ∨ OnlyReads w w' ∧ ∃ rp',
        rp'.input w' = (st.rp.input w).drop 1 ∧
          (st.rp.input w = [] ∧
              r = .inr (if st.n = 1 then (0, none, rp') else (st.n, some st.bytes, rp')) ∨
            ∃ c s, st.rp.input w = c :: s ∧
              r = if c = '\n' then .inr (st.n, some (st.bytes ++ [c]), rp')
                else .inl ⟨st.n + 1, st.bytes ++ [c], rp'⟩)) := by
  unfold rio_readlinebRound at h
  -- The round reads one byte, unless the line is full.
  split at h
  case isTrue hlt =>
    obtain ⟨⟨rc, c, rp'⟩, w₁, hread, hrest⟩ :=
      (Process.runsIn_bind (exactAt_rio_read st.rp 1).causal).mp h
    refine .inr ⟨hlt, ?_⟩
    dsimp only at hrest
    -- The read failed, or gave what comes next in the input.
    rcases runs_rio_read hread with rfl | ⟨honly, rfl, rfl, hinput⟩
    · rw [if_neg (by decide), if_neg (by decide)] at hrest
      obtain ⟨rfl, rfl⟩ := Process.runsIn_pure.mp hrest
      exact .inl ⟨rp', rfl⟩
    · refine .inr ?_
      cases hs : st.rp.input w with
      -- The input has ended; what counts is whether the line has been started.
      | nil =>
        rw [hs, List.take_nil, List.length_nil, if_neg (by decide),
          if_pos Int.natCast_zero] at hrest
        split at hrest
        case isTrue hone =>
          obtain ⟨rfl, rfl⟩ := Process.runsIn_pure.mp hrest
          exact ⟨honly, rp', by rw [hinput, hs], .inl ⟨rfl, by rw [if_pos hone]⟩⟩
        case isFalse hne =>
          obtain ⟨rfl, rfl⟩ := Process.runsIn_pure.mp hrest
          exact ⟨honly, rp', by rw [hinput, hs], .inl ⟨rfl, by rw [if_neg hne]⟩⟩
      -- A line end returns, any other byte goes into the line.
      | cons c s =>
        rw [hs, List.take_succ_cons, List.take_zero, List.length_singleton,
          if_pos Int.natCast_one] at hrest
        split at hrest
        case isTrue hline =>
          cases hline
          obtain ⟨rfl, rfl⟩ := Process.runsIn_pure.mp hrest
          exact ⟨honly, rp', by rw [hinput, hs], .inr ⟨_, s, rfl, by rw [if_pos rfl]⟩⟩
        case isFalse hchar =>
          obtain ⟨rfl, rfl⟩ := Process.runsIn_pure.mp hrest
          refine ⟨honly, rp', by rw [hinput, hs], .inr ⟨c, s, rfl, ?_⟩⟩
          rw [if_neg fun hc => hchar (by rw [hc])]
  case isFalse hge =>
    obtain ⟨rfl, rfl⟩ := Process.runsIn_pure.mp h
    exact .inl ⟨Nat.le_of_not_lt hge, rfl, rfl⟩

/-- The loop of `rio_readlineb` on the input `s`: the line that it has read so far and the line
    that it still reads make up the first line. -/
structure ReadingLine (maxlen : Nat) (s : Text) (w : RequestWorld) (st : ReadLine)
    (w' : RequestWorld) : Prop where
  onlyReads : OnlyReads w w'
  started : st.n = 1 ∧ s = st.rp.input w' ∨ 1 < st.n ∧ s ≠ []
  line : lineOf (maxlen - 1) s = (st.bytes ++ (lineOf (maxlen - st.n) (st.rp.input w')).1,
    (lineOf (maxlen - st.n) (st.rp.input w')).2)

/-- A line that is read is the next one of the input. -/
theorem runs_rio_readlineb {rp rp' : Rio} {maxlen : Nat} {rc : Int} {line : Option Text}
    (hmaxlen : 1 < maxlen) (h : RunsWith fs (rio_readlineb rp maxlen) w (rc, line, rp') w') :
    rc < 0 ∨ OnlyReads w w' ∧ (line, rp'.input w') = readLine maxlen (rp.input w) := by
  -- The invariant: the line so far and what `readLine` says about the rest.
  refine Process.RunsIn.iterate_induction
    (I := fun st w₁ => ReadingLine maxlen (rp.input w) w st w₁)
    (Q := fun r w' => r.1 < 0 ∨
      OnlyReads w w' ∧ (r.2.1, r.2.2.input w') = readLine maxlen (rp.input w))
    (decreases_rio_readlinebRound maxlen) (fun st => (exactAt_rio_readlinebRound maxlen st).causal)
    ?_ ?_ ⟨.refl w, .inl ⟨rfl, rfl⟩, rfl⟩ h
  · -- A round that goes on has put one character into the line.
    intro st w₁ st' w₂ hst hround
    rcases runs_rio_readlinebRound hround with ⟨-, hr, -⟩ |
      ⟨hlt, ⟨rp', hr⟩ | ⟨honly, rp', hinput, ⟨-, hr⟩ | ⟨c, s, hs, hr⟩⟩⟩
    · cases hr
    · cases hr
    · cases hr
    · split at hr
      · cases hr
      · rename_i hc
        cases hr
        rw [hs, List.drop_one, List.tail_cons] at hinput
        refine ⟨hst.onlyReads.trans honly, .inr ?_, ?_⟩
        · rcases hst.started with ⟨hone, heq⟩ | ⟨hlt, hne⟩
          · exact ⟨by simp [hone], by simp [heq, hs]⟩
          · exact ⟨Nat.lt_succ_of_lt hlt, hne⟩
        · -- One more character belongs to the line.
          have hrest : maxlen - st.n = maxlen - (st.n + 1) + 1 := by omega
          have hline := hst.line
          rw [hs, hrest, lineOf, if_neg hc] at hline
          simpa [hinput] using hline
  · -- The four ways to end.
    intro st w₁ r w₂ hst hround
    have hline := hst.line
    rcases runs_rio_readlinebRound hround with ⟨hge, hr, rfl⟩ |
      ⟨hlt, ⟨rp', hr⟩ | ⟨honly, rp', hinput, ⟨hs, hr⟩ | ⟨c, s, hs, hr⟩⟩⟩
    · -- `usrbuf` is full.
      cases hr
      rw [Nat.sub_eq_zero_of_le hge, lineOf, List.append_nil] at hline
      rcases hst.started with ⟨hone, -⟩ | ⟨-, hne⟩
      · omega
      · exact .inr ⟨hst.onlyReads, by rw [readLine, if_neg hne, hline]⟩
    · cases hr
      exact .inl (by decide : (-1 : Int) < 0)
    · -- The input ends, before the line or in it.
      cases hr
      rw [hs, lineOf_nil, List.append_nil] at hline
      rw [hs, List.drop_nil] at hinput
      refine .inr ⟨hst.onlyReads.trans honly, ?_⟩
      rcases hst.started with ⟨hone, heq⟩ | ⟨hlt, hne⟩
      · rw [if_pos hone, readLine, if_pos (heq.trans hs)]
        simp only [hinput]
      · rw [if_neg (by omega), readLine, if_neg hne, hline]
        simp only [hinput]
    · split at hr
      · -- The line ends here.
        rename_i hc
        cases hr
        have hrest : maxlen - st.n = maxlen - (st.n + 1) + 1 := by omega
        have hne : rp.input w ≠ [] := by
          rcases hst.started with ⟨-, heq⟩ | ⟨-, hne⟩
          · simp [heq, hs]
          · exact hne
        rw [hs, List.drop_one, List.tail_cons] at hinput
        rw [hs, hrest, lineOf, if_pos hc] at hline
        refine .inr ⟨hst.onlyReads.trans honly, ?_⟩
        rw [readLine, if_neg hne, hline]
        simp only [hinput]
      · -- A character that is no line end would not have ended the line.
        cases hr

/-- A round can end without a failure. -/
theorem exists_rio_readlinebRound (fs : FileSystem) (w : RequestWorld) (maxlen : Nat)
    (st : ReadLine) :
    (∃ st' w', RunsWith fs (rio_readlinebRound maxlen st) w (.inl st') w' ∧ st.n < maxlen ∧
        st'.n = st.n + 1) ∨
      ∃ r w', RunsWith fs (rio_readlinebRound maxlen st) w (.inr r) w' ∧ 0 ≤ r.1 := by
  unfold rio_readlinebRound
  -- A read that does not fail can always be made; the line goes on or ends.
  split
  case isTrue hlt =>
    obtain ⟨rc, c, rp', w', hread, hrc⟩ := exists_rio_read fs w st.rp
    have hcausal := (exactAt_rio_read st.rp 1).causal
    by_cases hone : rc = 1
    · by_cases hline : c = ['\n']
      · refine .inr ⟨(st.n, some (st.bytes ++ c), rp'), w', hread.thenReturn hcausal ?_,
          Int.natCast_nonneg st.n⟩
        simp only [if_pos hone, if_pos hline]
      · refine .inl ⟨⟨st.n + 1, st.bytes ++ c, rp'⟩, w', hread.thenReturn hcausal ?_, hlt, rfl⟩
        simp only [if_pos hone, if_neg hline]
    · -- It gives one byte or none.
      have hzero : rc = 0 := by
        rcases runs_rio_read hread with h | ⟨-, rfl, h, -⟩
        · exact absurd h hrc
        · rw [List.length_take] at h
          omega
      by_cases hfirst : st.n = 1
      · refine .inr ⟨(0, none, rp'), w', hread.thenReturn hcausal ?_, Int.le_refl 0⟩
        simp only [if_neg hone, if_pos hzero, if_pos hfirst]
      · refine .inr ⟨(st.n, some st.bytes, rp'), w', hread.thenReturn hcausal ?_,
          Int.natCast_nonneg st.n⟩
        simp only [if_neg hone, if_pos hzero, if_neg hfirst]
  case isFalse hge =>
    exact .inr ⟨_, w, Process.runsIn_pure.mpr ⟨rfl, rfl⟩, Int.natCast_nonneg st.n⟩

/-- A line can always be read. -/
theorem exists_rio_readlineb (fs : FileSystem) (w : RequestWorld) (rp : Rio) (maxlen : Nat) :
    ∃ r w', RunsWith fs (rio_readlineb rp maxlen) w r w' ∧ 0 ≤ r.1 := by
  refine Process.exists_runsIn_iterate (I := fun _ _ => True) (Q := fun r _ => 0 ≤ r.1)
    (decreases_rio_readlinebRound maxlen) (fun st => (exactAt_rio_readlinebRound maxlen st).causal)
    (fun st _ => maxlen - st.n) ?_ trivial
  intro st w₁ _
  rcases exists_rio_readlinebRound fs w₁ maxlen st with ⟨st', w₂, hrun, hlt, hn⟩ | hend
  · exact .inl ⟨st', w₂, hrun, trivial, by omega⟩
  · exact .inr hend

/-- `Rio_readlineb` is `rio_readlineb` that does not fail. -/
theorem runsWith_Rio_readlineb {rp rp' : Rio} {usrbuf buf : Text} {maxlen : Nat} :
    RunsWith fs (Rio_readlineb rp usrbuf maxlen) w (buf, rp') w' ↔ ∃ rc line,
      RunsWith fs (rio_readlineb rp maxlen) w (rc, line, rp') w' ∧ 0 ≤ rc ∧
        buf = line.getD usrbuf := by
  have hcausal := (exactAt_rio_readlineb rp maxlen).causal
  constructor
  · intro h
    obtain ⟨⟨rc, line, rp₁⟩, w₁, hline, hrest⟩ := (Process.runsIn_bind hcausal).mp h
    dsimp only at hrest
    split at hrest
    · exact absurd hrest Process.not_runsIn_fault
    · rename_i hrc
      obtain ⟨heq, rfl⟩ := Process.runsIn_pure.mp hrest
      cases heq
      exact ⟨rc, line, hline, Int.not_lt.mp hrc, rfl⟩
  · intro h
    obtain ⟨rc, line, hline, hrc, rfl⟩ := h
    exact hline.thenReturn hcausal (if_neg (Int.not_lt.mpr hrc))

/-- `Rio_readlineb` leaves its buffer alone at the end of the input. -/
theorem runs_Rio_readlineb {rp rp' : Rio} {usrbuf buf : Text} {maxlen : Nat}
    (hmaxlen : 1 < maxlen) (h : RunsWith fs (Rio_readlineb rp usrbuf maxlen) w (buf, rp') w') :
    OnlyReads w w' ∧ buf = (readLine maxlen (rp.input w)).1.getD usrbuf ∧
      rp'.input w' = (readLine maxlen (rp.input w)).2 := by
  obtain ⟨rc, line, hline, hrc, rfl⟩ := runsWith_Rio_readlineb.mp h
  rcases runs_rio_readlineb hmaxlen hline with hneg | ⟨honly, hread⟩
  · omega
  · rw [← hread]
    exact ⟨honly, rfl, rfl⟩

/-- `Rio_readlineb` can always return. -/
theorem exists_Rio_readlineb (fs : FileSystem) (w : RequestWorld) (rp : Rio) (usrbuf : Text)
    (maxlen : Nat) :
    ∃ buf rp' w', RunsWith fs (Rio_readlineb rp usrbuf maxlen) w (buf, rp') w' := by
  obtain ⟨⟨rc, line, rp'⟩, w', hline, hrc⟩ := exists_rio_readlineb fs w rp maxlen
  exact ⟨line.getD usrbuf, rp', w', runsWith_Rio_readlineb.mpr ⟨rc, line, hline, hrc, rfl⟩⟩

/-- What the buffer held before does not matter if there is a line. -/
theorem RunsWith.of_line {rp rp' : Rio} {usrbuf buf line : Text} {maxlen : Nat}
    (hmaxlen : 1 < maxlen) (hread : (readLine maxlen (rp.input w)).1 = some line)
    (h : RunsWith fs (Rio_readlineb rp usrbuf maxlen) w (buf, rp') w') (usrbuf' : Text) :
    RunsWith fs (Rio_readlineb rp usrbuf' maxlen) w (buf, rp') w' := by
  obtain ⟨rc, line', hline, hrc, rfl⟩ := runsWith_Rio_readlineb.mp h
  rcases runs_rio_readlineb hmaxlen hline with hneg | ⟨-, hread'⟩
  · omega
  · rw [← hread'] at hread
    cases hread
    exact runsWith_Rio_readlineb.mpr ⟨rc, some line, hline, hrc, rfl⟩

/-! ## Headers -/

/-- Some line of the stream is empty, so that the headers end with it. -/
inductive HeadersEnd : Text → Prop where
  | here {s line rest : Text} (h : readLine MAXLINE s = (some line, rest))
      (hline : cString line = text "\r\n") : HeadersEnd s
  | later {s line rest : Text} (h : readLine MAXLINE s = (some line, rest))
      (hrest : HeadersEnd rest) : HeadersEnd s

/-- An empty input does not end the headers. -/
theorem not_headersEnd_nil : ¬ HeadersEnd [] := by
  intro h
  cases h with
  | here h => cases h
  | later h => cases h

/-- The loop of `requestReadhdrs` can end with this `buf` and this input. -/
def CanEnd (buf s : Text) : Prop := cString buf = text "\r\n" ∨ HeadersEnd s

/-- The headers end with the first line, or after it. -/
theorem headersEnd_iff {s line rest : Text} (h : readLine MAXLINE s = (some line, rest)) :
    HeadersEnd s ↔ CanEnd line rest := by
  constructor
  · intro hs
    cases hs with
    | here h' hline =>
      cases h.symm.trans h'
      exact .inl hline
    | later h' hrest =>
      cases h.symm.trans h'
      exact .inr hrest
  · rintro (hline | hrest)
    · exact .here h hline
    · exact .later h hrest

/-- At the end of the input the buffer decides, and before it the lines that follow. -/
theorem canEnd_readLine {buf s : Text} :
    CanEnd ((readLine MAXLINE s).1.getD buf) (readLine MAXLINE s).2 ↔
      s = [] ∧ cString buf = text "\r\n" ∨ HeadersEnd s := by
  by_cases hs : s = []
  · subst hs
    simp [CanEnd, readLine, not_headersEnd_nil]
  · rw [headersEnd_iff (if_neg hs), readLine, if_neg hs]
    simp [hs]

/-- A round of the loop, with the world. -/
theorem runs_requestReadhdrsRound {st : Text × Rio} {r : Text × Rio ⊕ Rio}
    (h : RunsWith fs (requestReadhdrsRound st) w r w') :
    OnlyReads w w' ∧ (cString st.1 = text "\r\n" ∧ r = .inr st.2 ∨
      cString st.1 ≠ text "\r\n" ∧ ∃ buf rp, r = .inl (buf, rp) ∧
        buf = (readLine MAXLINE (st.2.input w)).1.getD st.1 ∧
          rp.input w' = (readLine MAXLINE (st.2.input w)).2) := by
  unfold requestReadhdrsRound at h
  split at h
  case isTrue hbuf =>
    obtain ⟨rfl, rfl⟩ := Process.runsIn_pure.mp h
    exact ⟨.refl w, .inl ⟨hbuf, rfl⟩⟩
  case isFalse hbuf =>
    obtain ⟨⟨buf, rp⟩, w₁, hline, hrest⟩ :=
      (Process.runsIn_bind (exitsAt_Rio_readlineb st.2 st.1 MAXLINE).causal).mp h
    obtain ⟨rfl, rfl⟩ := Process.runsIn_pure.mp hrest
    obtain ⟨honly, hbuf', hinput⟩ := runs_Rio_readlineb (by decide) hline
    exact ⟨honly, .inr ⟨hbuf, buf, rp, rfl, hbuf', hinput⟩⟩

/-- When `requestReadhdrs` returns, an empty line has been read, or there was nothing to read
    and its `buf` looked like an empty line at the start. -/
theorem runs_requestReadhdrs {rp rp' : Rio} {buf : Text}
    (h : RunsWith fs (requestReadhdrs rp buf) w rp' w') :
    OnlyReads w w' ∧ (rp.input w = [] ∧ cString buf = text "\r\n" ∨ HeadersEnd (rp.input w)) := by
  obtain ⟨⟨buf₁, rp₁⟩, w₁, hline, hloop⟩ :=
    (Process.runsIn_bind (exitsAt_Rio_readlineb rp buf MAXLINE).causal).mp h
  obtain ⟨honly, hbuf₁, hinput₁⟩ := runs_Rio_readlineb (by decide) hline
  rw [← canEnd_readLine, ← hbuf₁, ← hinput₁]
  -- The loop could end at the start if it can end now.
  refine Process.RunsIn.iterate_induction
    (I := fun st w₂ => OnlyReads w w₂ ∧ (CanEnd st.1 (st.2.input w₂) → CanEnd buf₁ (rp₁.input w₁)))
    (Q := fun _ w₂ => OnlyReads w w₂ ∧ CanEnd buf₁ (rp₁.input w₁))
    decreases_requestReadhdrsRound (fun st => (exactAt_requestReadhdrsRound st).causal) ?_ ?_
    ⟨honly, id⟩ hloop
  · -- A round that goes on reads one line more.
    intro st w₂ st' w₃ h hround
    obtain ⟨honly₂, hend⟩ := h
    obtain ⟨honly₃, ⟨-, hr⟩ | ⟨hbuf, buf', rp', hr, hbuf', hinput⟩⟩ :=
      runs_requestReadhdrsRound hround
    · cases hr
    · cases hr
      refine ⟨honly₂.trans honly₃, fun hend' => hend ?_⟩
      dsimp only at hend'
      rw [hbuf', hinput, canEnd_readLine] at hend'
      rcases hend' with ⟨-, hbuf''⟩ | hrest
      · exact .inl hbuf''
      · exact .inr hrest
  · -- The round that ends has the empty line in the buffer.
    intro st w₂ r w₃ h hround
    obtain ⟨honly₂, hend⟩ := h
    obtain ⟨honly₃, ⟨hbuf, -⟩ | ⟨-, buf', rp', hr, -⟩⟩ := runs_requestReadhdrsRound hround
    · exact ⟨honly₂.trans honly₃, hend (.inl hbuf)⟩
    · cases hr

/-- One round of `requestReadhdrs`, and then the others. -/
theorem runsWith_requestReadhdrsLoop {st : Text × Rio} {rp' : Rio} :
    RunsWith fs (Process.iterate (fun st => st.2.inputLeft) requestReadhdrsRound st) w rp' w' ↔
      ∃ r w₁, RunsWith fs (requestReadhdrsRound st) w r w₁ ∧ RunsWith fs (Sum.elim
        (Process.iterate (fun st => st.2.inputLeft) requestReadhdrsRound) pure r) w₁ rp' w' :=
  Process.runsIn_iterate decreases_requestReadhdrsRound
    fun st => (exactAt_requestReadhdrsRound st).causal

/-- The loop can return when the line in the array is the empty one. -/
theorem exists_requestReadhdrsLoop_of_line (fs : FileSystem) (w : RequestWorld) {rp : Rio}
    {buf : Text} (hbuf : cString buf = text "\r\n") : ∃ rp' w', RunsWith fs
      (Process.iterate (fun st => st.2.inputLeft) requestReadhdrsRound (buf, rp)) w rp' w' := by
  refine ⟨rp, w, runsWith_requestReadhdrsLoop.mpr ⟨.inr rp, w, ?_,
    Process.runsIn_pure.mpr ⟨rfl, rfl⟩⟩⟩
  rw [requestReadhdrsRound, if_pos hbuf]
  exact Process.runsIn_pure.mpr ⟨rfl, rfl⟩

/-- The loop of `requestReadhdrs` can end if it can after one more line. -/
theorem exists_requestReadhdrsLoop_of_next {w : RequestWorld} {rp : Rio} {buf line rest : Text}
    (h : readLine MAXLINE (rp.input w) = (some line, rest))
    (hnext : ∀ rp₁ w₁, rp₁.input w₁ = rest → ∃ rp' w', RunsWith fs
      (Process.iterate (fun st => st.2.inputLeft) requestReadhdrsRound (line, rp₁)) w₁ rp' w') :
    ∃ rp' w', RunsWith fs
      (Process.iterate (fun st => st.2.inputLeft) requestReadhdrsRound (buf, rp)) w rp' w' := by
  by_cases hbuf : cString buf = text "\r\n"
  · exact exists_requestReadhdrsLoop_of_line fs w hbuf
  · obtain ⟨buf₁, rp₁, w₁, hline⟩ := exists_Rio_readlineb fs w rp buf MAXLINE
    obtain ⟨-, hbuf₁, hinput₁⟩ := runs_Rio_readlineb (by decide) hline
    rw [h] at hbuf₁ hinput₁
    obtain ⟨rp', w', hloop⟩ := hnext rp₁ w₁ hinput₁
    rw [Option.getD_some] at hbuf₁
    rw [← hbuf₁] at hloop
    refine ⟨rp', w', runsWith_requestReadhdrsLoop.mpr ⟨.inl (buf₁, rp₁), w₁, ?_, hloop⟩⟩
    rw [requestReadhdrsRound, if_neg hbuf]
    exact hline.thenReturn (exitsAt_Rio_readlineb rp buf MAXLINE).causal rfl

/-- The loop can return when the headers end. -/
theorem exists_requestReadhdrsLoop (fs : FileSystem) {s : Text} (h : HeadersEnd s)
    {w : RequestWorld} {rp : Rio} (hs : rp.input w = s) (buf : Text) : ∃ rp' w', RunsWith fs
      (Process.iterate (fun st => st.2.inputLeft) requestReadhdrsRound (buf, rp)) w rp' w' := by
  induction h generalizing w rp buf with
  | here h hline =>
    rw [← hs] at h
    exact exists_requestReadhdrsLoop_of_next h fun rp₁ w₁ _ =>
      exists_requestReadhdrsLoop_of_line fs w₁ hline
  | later h hrest ih =>
    rw [← hs] at h
    exact exists_requestReadhdrsLoop_of_next h fun rp₁ w₁ hinput => ih hinput _

/-- `requestReadhdrs` can return if there is an empty line, or nothing to read and its `buf` looks
    like one. -/
theorem exists_requestReadhdrs (fs : FileSystem) (w : RequestWorld) {rp : Rio} {buf : Text}
    (h : rp.input w = [] ∧ cString buf = text "\r\n" ∨ HeadersEnd (rp.input w)) :
    ∃ rp' w', RunsWith fs (requestReadhdrs rp buf) w rp' w' := by
  obtain ⟨buf₁, rp₁, w₁, hline⟩ := exists_Rio_readlineb fs w rp buf MAXLINE
  obtain ⟨-, hbuf₁, hinput₁⟩ := runs_Rio_readlineb (by decide) hline
  rw [← canEnd_readLine, ← hbuf₁, ← hinput₁] at h
  have hcausal := (exitsAt_Rio_readlineb rp buf MAXLINE).causal
  rcases h with hbuf | hend
  · obtain ⟨rp', w', hloop⟩ := exists_requestReadhdrsLoop_of_line fs w₁ hbuf
    exact ⟨rp', w', hline.bind hcausal hloop⟩
  · obtain ⟨rp', w', hloop⟩ := exists_requestReadhdrsLoop fs hend rfl buf₁
    exact ⟨rp', w', hline.bind hcausal hloop⟩

end OsWet
