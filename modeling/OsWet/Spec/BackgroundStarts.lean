import OsWet.Spec.BackgroundHandshake

/-!
# Every background command can start

From every state that is reached, a child that has not read the message gets to its program by
its own steps and those of the shell, at most seven of them: the shell goes on until it has sent
the message (`shell_sends`), and the child until it executes (`child_executes`). When the shell is
dead the child need not wait, since nobody has the write end of its pipe open.
-/

namespace OsWet

/-- How many statements the shell has before it is done with the command. -/
def BackgroundShellPoint.left : BackgroundShellPoint → Nat
  | .closeRead => 3
  | .addJob => 2
  | .write => 1
  | .ready | .fork | .killed => 0

/-- How many statements a child has before it executes its program. -/
def BackgroundChildPoint.left : BackgroundChildPoint → Nat
  | .setpgrp => 3
  | .closeWrite => 2
  | .read => 1
  | .unborn | .execute | .running | .exited => 0

namespace ExternalCommand

variable {s s' : BackgroundShell} {capacity : Nat} {i : Nat}

/-! ## The shell -/

/-- There is room for the message, and the child can read it. -/
theorem exists_write (hs : Inv capacity s)
    (hcapacity : FINISHED_ADDING_PID_TO_JOB_LIST_MSG_LENGTH ≤ capacity)
    (hwaits : (s.child s.count).point.Waits) (hpoint : s.shell.point = .write) :
    ∃ s', shellStep s = .ok (s', []) ∧ s'.child = s.child ∧ s'.count = s.count + 1 := by
  have hlookup := hs.tables.lookup_write hpoint
  have hreaders : Held s (.readEnd s.count) := by
    refine hs.tables.held_read le_rfl ?_ ?_ <;> intro h <;> rw [h] at hwaits <;> exact hwaits
  have hcontent : (s.pipe s.count).content = [] := by
    by_contra hne
    exact absurd (hs.sent.content _ hne) (lt_irrefl _)
  have hroom : (s.pipe s.count).content.length + FINISHED_ADDING_PID_TO_JOB_LIST_MSG.length ≤
      (s.pipe s.count).capacity := by
    rw [hcontent, hs.sent.capacity]
    exact hcapacity
  have hwrite := Pipe.write_of_room (ε := Empty) hreaders (by decide) hroom
  unfold shellStep
  simp only [hpoint, hlookup, hwrite, Outcome.ok_bind]
  exact ⟨_, rfl, rfl, rfl⟩

/-- A shell that lives and has a child that waits is on its way to the message. -/
theorem left_pos (hs : Inv capacity s) (halive : s.shell.point ≠ .killed)
    (hwaits : (s.child s.count).point.Waits) : 0 < s.shell.point.left := by
  have hunborn : (s.child s.count).point ≠ .unborn := by
    intro h
    rw [h] at hwaits
    exact hwaits
  cases hpoint : s.shell.point with
  | ready => exact absurd (hs.order.unborn _ (.inr ⟨rfl, .inl hpoint⟩)) hunborn
  | fork => exact absurd (hs.order.unborn _ (.inr ⟨rfl, .inr hpoint⟩)) hunborn
  | closeRead | addJob | write => decide
  | killed => exact absurd hpoint halive

/-- One statement of the shell: the message is sent, or it is one nearer. -/
theorem exists_shellStep (hs : Inv capacity s)
    (hcapacity : FINISHED_ADDING_PID_TO_JOB_LIST_MSG_LENGTH ≤ capacity)
    (hwaits : (s.child s.count).point.Waits) (hleft : 0 < s.shell.point.left) :
    ∃ s' out, machine.step s .shell = .ok (s', out) ∧ s'.child = s.child ∧
      (s.shell.point.left = 1 ∧ s'.count = s.count + 1 ∨
        s'.count = s.count ∧ s.shell.point.left = s'.shell.point.left + 1 ∧
          0 < s'.shell.point.left) := by
  show ∃ s' out, shellStep s = .ok (s', out) ∧ _
  -- The two calls that cannot block are made at once; only the `write` needs the invariant.
  cases hpoint : s.shell.point with
  | closeRead =>
    unfold shellStep
    simp only [hpoint]
    exact ⟨_, _, rfl, rfl, .inr ⟨rfl, rfl, Nat.succ_pos _⟩⟩
  | addJob =>
    unfold shellStep
    simp only [hpoint]
    exact ⟨_, _, rfl, rfl, .inr ⟨rfl, rfl, Nat.succ_pos _⟩⟩
  | write =>
    obtain ⟨s', hstep, hchild, hcount⟩ := exists_write hs hcapacity hwaits hpoint
    exact ⟨s', [], hstep, hchild, .inl ⟨rfl, hcount⟩⟩
  -- At `ready`, `fork` and after a kill no call of this command is left.
  | ready | fork | killed =>
    rw [hpoint] at hleft
    exact absurd hleft (lt_irrefl 0)

/-- The shell goes on until it has sent the message to the child that waits for it. -/
theorem shell_sends (hs : Inv capacity s)
    (hcapacity : FINISHED_ADDING_PID_TO_JOB_LIST_MSG_LENGTH ≤ capacity)
    (hwaits : (s.child s.count).point.Waits) (hleft : 0 < s.shell.point.left) :
    ∃ s' out, machine.exec s (List.replicate s.shell.point.left .shell) = .ok (s', out) ∧
      s'.child = s.child ∧ s'.count = s.count + 1 := by
  -- By induction on the number of calls left: the last one is the `write`.
  generalize hn : s.shell.point.left = n
  induction n generalizing s with
  | zero => omega
  | succ n ih =>
    obtain ⟨s₁, o, hstep, hchild, hnext⟩ := exists_shellStep hs hcapacity hwaits hleft
    obtain ⟨hone, hcount⟩ | ⟨hcount, hone, hpos⟩ := hnext
    · obtain rfl : n = 0 := by omega
      exact ⟨s₁, o ++ [], (Machine.exec_cons_eq_ok _).mpr ⟨s₁, o, [], hstep, rfl, rfl⟩,
        hchild, hcount⟩
    · -- The child is still at the same point after a step of the shell.
      have hwaits₁ : (s₁.child s₁.count).point.Waits := by
        rw [hchild, hcount]
        exact hwaits
      obtain ⟨s₂, out, hrun, hchild₂, hcount₂⟩ := ih (hs.step hstep) hwaits₁ hpos (by omega)
      refine ⟨s₂, o ++ out, ?_, hchild₂.trans hchild, hcount₂.trans (by rw [hcount])⟩
      exact (Machine.exec_cons_eq_ok _).mpr ⟨s₁, o, out, hstep, hrun, rfl⟩

/-! ## The child -/

/-- A child that need not wait: the shell has sent its message, or is dead. -/
def Ready (s : BackgroundShell) (i : Nat) : Prop := i < s.count ∨ s.shell.point = .killed

/-- Its `read` returns. -/
theorem read_ready (hs : Inv capacity s) (hready : Ready s i) (hpoint : (s.child i).point = .read) :
    (s.pipe i).content ≠ [] ∨ ¬ Held s (.writeEnd i) := by
  by_cases hlt : i < s.count
  · -- A command that is done has written its message, so the pipe is not empty.
    exact .inl (hs.sent.written i hlt (by simp [hpoint, BackgroundChildPoint.Waits]))
  · have hkilled := hready.resolve_left hlt
    right
    rintro (hshell | ⟨j, -, hchild⟩)
    · -- the child is the last one, and the dead shell has nothing open
      have hi : i = s.count := by
        by_contra hne
        rw [hs.order.unborn i (.inl (by omega))] at hpoint
        cases hpoint
      -- The shell, being dead, does not hold the write end.
      have hends := hs.tables.shell
      rw [hkilled, ← hi] at hends
      exact hends.holds_write.mp hshell rfl
    · -- A child has closed its own write end, and it inherits only those of earlier commands.
      by_cases hj : j = i
      · have hends := hs.tables.child i
        rw [hpoint] at hends
        rw [hj] at hchild
        exact hends.holds_write.mp hchild rfl
      · exact hlt (hs.tables.leaked i j hj hchild)

/-- One statement of a child that need not wait. -/
theorem exists_childStep (hs : Inv capacity s) (hready : Ready s i)
    (hwaits : (s.child i).point.Waits) :
    ∃ s', machine.step s (.child i true) = .ok (s', []) ∧ Ready s' i ∧
      (s.child i).point.left = (s'.child i).point.left + 1 ∧
      ((s'.child i).point.Waits ∨ (s'.child i).point = .execute) := by
  show ∃ s', childStep s i true = .ok (s', []) ∧ _
  -- A call that succeeds moves the child one point on; what has to be shown is that it can.
  cases hpoint : (s.child i).point with
  | setpgrp =>
    refine ⟨setChild s i ⟨.closeWrite, (s.child i).table⟩, ?_, hready, ?_, ?_⟩
    · simp [childStep, hpoint]
    · simp [BackgroundChildPoint.left]
    · simp [BackgroundChildPoint.Waits]
  | closeWrite =>
    refine ⟨setChild s i ⟨.read, (s.child i).table.close (s.readWritePipes i).2⟩, ?_, hready,
      ?_, ?_⟩
    · simp [childStep, hpoint]
    · simp [BackgroundChildPoint.left]
    · simp [BackgroundChildPoint.Waits]
  | read =>
    -- The read is the one call that could block: the message is there or the pipe is closed.
    have hlookup := hs.tables.lookup_read hpoint
    have hread := Pipe.read_ne_stuck (ε := Empty) (p := s.pipe i)
      (n := FINISHED_ADDING_PID_TO_JOB_LIST_MSG_LENGTH) (by decide) (read_ready hs hready hpoint)
    cases hr : ((s.pipe i).read (Held s (.writeEnd i))
        FINISHED_ADDING_PID_TO_JOB_LIST_MSG_LENGTH : Outcome Empty (List Char × Pipe Char)) with
    | stuck => exact absurd hr hread
    | fault e => exact e.elim
    | ok r =>
      refine ⟨setPipe (setChild s i ⟨.execute, (s.child i).table⟩) i r.2, ?_, hready, ?_, ?_⟩
      · simp [childStep, hpoint, hlookup, hr]
      · simp [BackgroundChildPoint.left]
      · simp
  -- At these points the child does not wait for the shell.
  | unborn | execute | running | exited =>
    rw [hpoint] at hwaits
    exact hwaits.elim

/-- A child that need not wait gets to its program. -/
theorem child_executes (hs : Inv capacity s) (hready : Ready s i)
    (hwaits : (s.child i).point.Waits ∨ (s.child i).point = .execute) :
    ∃ s', machine.exec s (List.replicate ((s.child i).point.left + 1) (.child i true)) =
      .ok (s', [.executed i]) := by
  -- By induction on the number of calls before the `exec`.
  generalize hn : (s.child i).point.left = n
  induction n generalizing s with
  | zero =>
    have hpoint : (s.child i).point = .execute := by
      -- No call is left, so the child is at the `exec`.
      refine hwaits.resolve_left fun hwaits => ?_
      cases hpoint : (s.child i).point <;> rw [hpoint] at hwaits hn <;> first
        | exact hwaits
        | cases hn
    refine ⟨setChild s i ⟨.running, (s.child i).table⟩, Machine.exec_singleton ?_⟩
    show childStep s i true = _
    simp [childStep, hpoint]
  | succ n ih =>
    -- Some call is left, so it is not there yet.
    have hwaits : (s.child i).point.Waits := by
      refine hwaits.resolve_right fun hpoint => ?_
      rw [hpoint] at hn
      cases hn
    obtain ⟨s₁, hstep, hready₁, hleft, hwaits₁⟩ := exists_childStep hs hready hwaits
    obtain ⟨s', hrun⟩ := ih (hs.step hstep) hready₁ hwaits₁ (by omega)
    exact ⟨s', (Machine.exec_cons_eq_ok _).mpr ⟨s₁, [], _, hstep, hrun, rfl⟩⟩

/-- The shell is at most three steps away from the message. -/
theorem shell_left_le (p : BackgroundShellPoint) : p.left ≤ 3 := by
  cases p <;> decide

/-- A child is at most three steps away from its program. -/
theorem child_left_le (p : BackgroundChildPoint) : p.left ≤ 3 := by
  cases p <;> decide

/-- From every state that is reached, a child that has not read the message yet gets to its
    program by at most seven steps of its own and of the shell, whatever has become of the other
    processes, and also when the shell is dead. -/
theorem waiting_child_executes (table : FileTable) (capacity : Nat) (htable : NoPipes table)
    (hcapacity : FINISHED_ADDING_PID_TO_JOB_LIST_MSG_LENGTH ≤ capacity)
    (ls : List BackgroundAction) (s : BackgroundShell) (out : List BackgroundEvent)
    (h : machine.exec (initial table capacity) ls = .ok (s, out)) (i : Nat)
    (hwaits : (s.child i).point.Waits) :
    ∃ ls' s' out', machine.exec s ls' = .ok (s', out') ∧ .executed i ∈ out' ∧
      ls'.length ≤ 7 ∧ ∀ a ∈ ls', a = .shell ∨ a = .child i true := by
  have hs := exec_inv htable h
  by_cases hready : Ready s i
  · -- The message is sent: the child goes on alone.
    obtain ⟨s', hrun⟩ := child_executes hs hready (.inl hwaits)
    have hle := child_left_le (s.child i).point
    refine ⟨_, s', _, hrun, List.mem_singleton_self _, ?_, fun a ha => ?_⟩
    · rw [List.length_replicate]
      omega
    · exact .inr (List.eq_of_mem_replicate ha)
  · -- the shell lives and is executing the command of this child
    obtain ⟨hlt, halive⟩ := not_or.mp hready
    -- A child of a later command is not born, so this is the command under way.
    obtain rfl : i = s.count := by
      by_contra hne
      rw [hs.order.unborn i (.inl (by omega))] at hwaits
      exact hwaits
    -- First the shell sends the message, then the child reads it.
    obtain ⟨s₁, out₁, hshell, hchild, hcount⟩ :=
      shell_sends hs hcapacity hwaits (left_pos hs halive hwaits)
    have hs₁ : Inv capacity s₁ :=
      Machine.exec_invariant_state hs (fun _ _ _ _ hs h => hs.step h) hshell
    have hready₁ : Ready s₁ s.count := .inl (by omega)
    obtain ⟨s', hrun⟩ := child_executes hs₁ hready₁ (.inl (by rw [hchild]; exact hwaits))
    have hle := shell_left_le s.shell.point
    have hle' := child_left_le (s₁.child s.count).point
    refine ⟨_, s', _, Machine.exec_append hshell hrun,
      List.mem_append_right _ (List.mem_singleton_self _), ?_, fun a ha => ?_⟩
    · -- The two bounds add up.
      rw [List.length_append, List.length_replicate, List.length_replicate]
      omega
    · obtain ha | ha := List.mem_append.mp ha
      · exact .inl (List.eq_of_mem_replicate ha)
      · exact .inr (List.eq_of_mem_replicate ha)

/-- The shell is killed before it has sent the message. -/
theorem waiting_child_executes_killedShell :
    ∃ s out, machine.exec (initial ∅ 65536) [.pipe (3, 4), .fork true, .child 0 true, .shell,
        .kill] = .ok (s, out) ∧ s.shell.point = .killed ∧
      ∃ ls' s' out', machine.exec s ls' = .ok (s', out') ∧ .executed 0 ∈ out' ∧
        ls'.length ≤ 7 ∧ ∀ a ∈ ls', a = .shell ∨ a = .child 0 true :=
  ⟨_, _, rfl, rfl, waiting_child_executes ∅ 65536 (fun _ => ⟨rfl, rfl⟩) (by decide)
    [.pipe (3, 4), .fork true, .child 0 true, .shell, .kill] _ _ rfl 0 trivial⟩

end ExternalCommand

end OsWet
