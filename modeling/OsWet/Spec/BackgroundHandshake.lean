import OsWet.Spec.BackgroundSteps

/-!
# The handshake of a background command

The child of a background command becomes its program only when its job is in the jobs list,
and it never waits in vain for the message that says so. `Order` says which children there are,
`Tables` who has which end of which pipe open, and `Sent` when the message of a command is sent
and what the jobs list has by then.
-/

namespace OsWet

/-- The child has not read the message yet. -/
def BackgroundChildPoint.Waits : BackgroundChildPoint → Prop
  | .setpgrp | .closeWrite | .read => True
  | .unborn | .execute | .running | .exited => False

/-- The child has read the message and goes on with its program. -/
def BackgroundChildPoint.Goes : BackgroundChildPoint → Prop
  | .execute | .running => True
  | .unborn | .setpgrp | .closeWrite | .read | .exited => False

/-- The descriptors of the shell for the two ends of the pipe of the next command. -/
def BackgroundShellPoint.ends (fds : Int × Int) : BackgroundShellPoint → Finset Int × Finset Int
  | .fork | .closeRead => ({fds.1}, {fds.2})
  | .addJob | .write => (∅, {fds.2})
  | .ready | .killed => (∅, ∅)

/-- Those of a child for the two ends of its own pipe. -/
def BackgroundChildPoint.ends (fds : Int × Int) : BackgroundChildPoint → Finset Int × Finset Int
  | .setpgrp | .closeWrite => ({fds.1}, {fds.2})
  | .read | .execute | .running => ({fds.1}, ∅)
  | .unborn | .exited => (∅, ∅)

namespace ExternalCommand

variable {s s' : BackgroundShell} {a : BackgroundAction} {out : List BackgroundEvent}

/-- The command `count` has a child exactly when the shell is past its `fork`. -/
structure Order (s : BackgroundShell) : Prop where
  unborn : ∀ i, s.count < i ∨ i = s.count ∧ (s.shell.point = .ready ∨ s.shell.point = .fork) →
    (s.child i).point = .unborn
  born : s.shell.point = .closeRead ∨ s.shell.point = .addJob ∨ s.shell.point = .write →
    (s.child s.count).point ≠ .unborn

/-- A child that goes on has been born, and stays so. -/
theorem BackgroundChildMove.born {i : Nat} {p : BackgroundChildPoint}
    {p' : PipeProcess BackgroundChildPoint} (h : BackgroundChildMove s i p p' out) :
    p ≠ .unborn ∧ p'.point ≠ .unborn := by
  cases h <;> simp

/-- Every step keeps the order. -/
theorem Steps.order (h : Steps s a s' out) (hs : Order s) : Order s' := by
  obtain ⟨hunborn, hborn⟩ := hs
  cases h with
  | pipe | fork | forkFails | closeRead | addJob | write | writeFails | removeFinishedJobs =>
    constructor <;> grind
  | brokenPipe | kill => constructor <;> grind [killShell]
  | move hmove =>
    have hborn := hmove.born
    constructor <;> grind
  | read | exit => constructor <;> grind [exitChild]

/-! ## Who has which end open -/

/-- A child has no end of the pipe of a later command, and the shell neither; of an earlier pipe
    a child may have what the shell leaves open. -/
structure Tables (s : BackgroundShell) : Prop where
  shell : s.shell.table.Ends s.count (s.shell.point.ends (s.readWritePipes s.count))
  later : ∀ i, s.count < i → s.shell.table.Ends i (∅, ∅)
  child : ∀ i, (s.child i).table.Ends i ((s.child i).point.ends (s.readWritePipes i))
  leaked : ∀ i j, j ≠ i → (s.child j).table.Holds (.writeEnd i) → i < s.count

/-- What is left of two descriptors when one of them is closed. -/
private theorem erase_singleton_of_ne {a b : Int} (h : a ≠ b) :
    ({b} : Finset Int).erase a = {b} :=
  Finset.erase_eq_of_notMem (by simpa using h)

/-- A child that goes on has open what its place in the code says. -/
theorem BackgroundChildMove.ends {i : Nat} {p : BackgroundChildPoint}
    {p' : PipeProcess BackgroundChildPoint} (h : BackgroundChildMove s i p p' out)
    (hp : (s.child i).table.Ends i (p.ends (s.readWritePipes i))) :
    p'.table.Ends i (p'.point.ends (s.readWritePipes i)) := by
  cases h with
  | setpgrp | execute => exact hp
  | closeWrite =>
    have hne := hp.ne (Finset.mem_singleton_self _) (Finset.mem_singleton_self _)
    have hends := hp.close (s.readWritePipes i).2
    rw [BackgroundChildPoint.ends, erase_singleton_of_ne hne.symm, Finset.erase_singleton] at hends
    exact hends

/-- A child that goes on opens nothing. -/
theorem BackgroundChildMove.holds {i : Nat} {p : BackgroundChildPoint}
    {p' : PipeProcess BackgroundChildPoint} (h : BackgroundChildMove s i p p' out)
    {file : OpenFile} (hfile : p'.table.Holds file) : (s.child i).table.Holds file := by
  cases h with
  | setpgrp | execute => exact hfile
  | closeWrite => exact FileTable.holds_of_close hfile

/-- A step of a child that leaves it with no descriptor that it did not have. -/
theorem Tables.of_child (hs : Tables s) {i : Nat} {p : PipeProcess BackgroundChildPoint}
    (hends : p.table.Ends i (p.point.ends (s.readWritePipes i)))
    (hholds : ∀ file, p.table.Holds file → (s.child i).table.Holds file) :
    Tables (setChild s i p) := by
  refine ⟨hs.shell, hs.later, fun j => ?_, fun j k hne hholds' => ?_⟩
  · rw [setChild_child]
    split
    · rename_i hj
      rw [hj]
      exact hends
    · exact hs.child j
  · rw [setChild_child] at hholds'
    split at hholds'
    · rename_i hk
      rw [hk] at hne
      exact hs.leaked j i hne (hholds _ hholds')
    · exact hs.leaked j k hne hholds'

/-- Every step keeps the tables. -/
theorem Steps.tables (h : Steps s a s' out) (ho : Order s) (hs : Tables s) : Tables s' := by
  obtain ⟨hshell, hlater, hchild, hleaked⟩ := hs
  cases h with
  | @pipe fds table hpoint hopen =>
    rw [hpoint] at hshell
    refine ⟨?_, fun i hi => (hlater i hi).openPipe_of_ne hi.ne hopen, fun i => ?_, hleaked⟩
    · simp only [Function.update_self]
      exact hshell.openPipe hopen
    · by_cases hi : i = s.count
      · -- the child of the new command has nothing open, whatever the descriptors
        have hc := hchild i
        rw [ho.unborn i (.inr ⟨hi, .inl hpoint⟩)] at hc
        show (s.child i).table.Ends i ((s.child i).point.ends _)
        rw [ho.unborn i (.inr ⟨hi, .inl hpoint⟩)]
        exact hc
      · simp only [Function.update_of_ne hi]
        exact hchild i
  | fork hpoint =>
    -- The child is born with a copy of the shell's table.
    rw [hpoint] at hshell
    refine ⟨hshell, hlater, fun i => ?_, fun i j hne hholds => ?_⟩
    · rw [setChild_child]
      split
      · rename_i hi
        rw [hi]
        exact hshell
      · exact hchild i
    · rw [setChild_child] at hholds
      split at hholds
      · rename_i hj
        -- It holds the write end of no later command, since the shell has opened none.
        by_contra hlt
        have hends := hlater i (by grind)
        exact hends.holds_write.mp hholds rfl
      · exact hleaked i j hne hholds
  | forkFails | write | writeFails =>
    -- the next command is one of the later ones
    refine ⟨hlater _ (Nat.lt_succ_self _), fun i hi => hlater i (Nat.lt_of_succ_lt hi), hchild,
      fun i j hne hholds => Nat.lt_succ_of_lt (hleaked i j hne hholds)⟩
  | closeRead hpoint =>
    rw [hpoint] at hshell
    have hne := hshell.ne (Finset.mem_singleton_self _) (Finset.mem_singleton_self _)
    refine ⟨?_, fun i hi => ?_, hchild, hleaked⟩
    · have hends := hshell.close (s.readWritePipes s.count).1
      rw [BackgroundShellPoint.ends, Finset.erase_singleton, erase_singleton_of_ne hne] at hends
      exact hends
    · have hends := (hlater i hi).close (s.readWritePipes s.count).1
      rw [Finset.erase_empty] at hends
      exact hends
  | addJob hpoint =>
    rw [hpoint] at hshell
    exact ⟨hshell, hlater, hchild, hleaked⟩
  | brokenPipe | kill => exact ⟨⟨rfl, rfl⟩, fun _ _ => ⟨rfl, rfl⟩, hchild, hleaked⟩
  | removeFinishedJobs => exact ⟨hshell, hlater, hchild, hleaked⟩
  | move hmove =>
    exact Tables.of_child ⟨hshell, hlater, hchild, hleaked⟩ (hmove.ends (hchild _))
      fun _ => hmove.holds
  | @read i _ _ _ hpoint =>
    have hc := hchild i
    rw [hpoint] at hc
    have ht := Tables.of_child (p := ⟨.execute, (s.child i).table⟩)
      ⟨hshell, hlater, hchild, hleaked⟩ hc fun _ h => h
    exact ⟨ht.shell, ht.later, ht.child, ht.leaked⟩
  | @exit i =>
    have hends : (∅ : FileTable).Ends i (∅, ∅) := ⟨rfl, rfl⟩
    exact Tables.of_child ⟨hshell, hlater, hchild, hleaked⟩ hends
      fun _ h => absurd h FileTable.not_holds_empty

/-! ## When the message is sent -/

/-- The message of a command is in its pipe only when the shell is done with the command, and by
    then the job is in the jobs list, unless there is no child any more. -/
structure Sent (capacity : Nat) (s : BackgroundShell) : Prop where
  capacity : ∀ i, (s.pipe i).capacity = capacity
  content : ∀ i, (s.pipe i).content ≠ [] → i < s.count
  written : ∀ i < s.count, (s.child i).point.Waits → (s.pipe i).content ≠ []
  waits : s.shell.point ≠ .killed → ¬ (s.child s.count).point.Goes
  listed : ∀ i, i < s.count ∨ i = s.count ∧ s.shell.point = .write →
    (s.child i).point = .unborn ∨ (s.child i).point = .exited ∨ i ∈ s.jobs

/-- The shell sends the message to the pipe of the command that it is executing. -/
theorem Tables.lookup_write (hs : Tables s) (hpoint : s.shell.point = .write) :
    s.shell.table.lookup (s.readWritePipes s.count).2 = some (.writeEnd s.count) := by
  have hshell := hs.shell
  rw [hpoint] at hshell
  exact FileTable.mem_descriptors.mp (hshell.2 ▸ Finset.mem_singleton_self _)

/-- A child reads from its own pipe. -/
theorem Tables.lookup_read (hs : Tables s) {i : Nat} (hpoint : (s.child i).point = .read) :
    (s.child i).table.lookup (s.readWritePipes i).1 = some (.readEnd i) := by
  have hchild := hs.child i
  rw [hpoint] at hchild
  exact FileTable.mem_descriptors.mp (hchild.1 ▸ Finset.mem_singleton_self _)

/-- As long as the shell has not sent the message, it has the write end open. -/
theorem Tables.held_write (ho : Order s) (hs : Tables s) (halive : s.shell.point ≠ .killed)
    (hborn : (s.child s.count).point ≠ .unborn) : Held s (.writeEnd s.count) := by
  left
  rw [hs.shell.holds_write]
  cases hpoint : s.shell.point with
  | ready => exact absurd (ho.unborn _ (.inr ⟨rfl, .inl hpoint⟩)) hborn
  | fork => exact absurd (ho.unborn _ (.inr ⟨rfl, .inr hpoint⟩)) hborn
  | closeRead | addJob | write => exact Finset.singleton_ne_empty _
  | killed => exact absurd hpoint halive

/-- A child reads the message when there is one, or finds that the shell is dead. -/
theorem Sent.read_cases {capacity : Nat} (ho : Order s) (ht : Tables s) (hs : Sent capacity s)
    {i : Nat} (hpoint : (s.child i).point = .read)
    (h : (s.pipe i).content ≠ [] ∨ ¬ Held s (.writeEnd i)) :
    i < s.count ∨ s.shell.point = .killed := by
  obtain hcontent | hheld := h
  · exact .inl (hs.content i hcontent)
  · by_contra hnot
    obtain ⟨hlt, halive⟩ := not_or.mp hnot
    -- a child that is not unborn is not a later one
    have hi : i = s.count := by
      by_contra hne
      have hunborn := ho.unborn i (.inl (by omega))
      rw [hpoint] at hunborn
      cases hunborn
    subst hi
    exact hheld (Tables.held_write ho ht halive (by simp [hpoint]))

/-- A child that goes on was on its way before, and had not exited. -/
theorem BackgroundChildMove.waits {i : Nat} {p : BackgroundChildPoint}
    {p' : PipeProcess BackgroundChildPoint} (h : BackgroundChildMove s i p p' out) :
    (p'.point.Waits → p.Waits) ∧ (p'.point.Goes → p.Goes) ∧ p ≠ .exited := by
  cases h <;> simp [BackgroundChildPoint.Waits, BackgroundChildPoint.Goes]

/-- Every step keeps what is known about the messages. -/
theorem Steps.sent {capacity : Nat} (h : Steps s a s' out) (ho : Order s) (ht : Tables s)
    (hs : Sent capacity s) : Sent capacity s' := by
  have hread := @Sent.read_cases s capacity ho ht hs
  obtain ⟨hcapacity, hcontent, hwritten, hwaits, hlisted⟩ := hs
  -- These steps write nothing and move no child; the clauses follow from the points alone.
  cases h with
  | pipe | closeRead | addJob =>
    constructor <;> grind
  -- The new child has not read, and nothing is written for it yet.
  | fork | forkFails =>
    obtain ⟨hunborn, -⟩ := ho
    constructor <;> grind [BackgroundChildPoint.Waits, BackgroundChildPoint.Goes]
  -- The message goes into the pipe of the child that waits for it, and into no other.
  | write hpoint hlookup =>
    rw [ht.lookup_write hpoint] at hlookup
    cases hlookup
    obtain ⟨hunborn, -⟩ := ho
    have hmessage : FINISHED_ADDING_PID_TO_JOB_LIST_MSG ≠ [] := by decide
    constructor <;> grind [BackgroundChildPoint.Goes]
  -- The shell holds the write end at this point, so the lookup does not fail.
  | writeFails hpoint hlookup => exact absurd (ht.lookup_write hpoint) (hlookup s.count)
  | brokenPipe | kill =>
    exact ⟨hcapacity, hcontent, hwritten, fun h => absurd rfl h,
      fun i hi => hlisted i (.inl (hi.resolve_right fun h => by cases h.2))⟩
  | removeFinishedJobs => constructor <;> grind
  -- A move of a child that does not read touches no pipe.
  | move hmove =>
    have hmoved := hmove.waits
    have hborn := hmove.born
    constructor <;> grind
  -- What the child reads is the message, or the end after a kill.
  | @read i j bytes pipe hpoint hlookup hbytes =>
    rw [ht.lookup_read hpoint] at hlookup
    cases hlookup
    have hdone : i < s.count ∨ s.shell.point = .killed := by
      refine hread hpoint ?_
      obtain ⟨-, -, hheld, -⟩ | ⟨hcontent, hne, -⟩ := hbytes
      · exact .inr hheld
      · left
        rw [hcontent]
        exact List.append_ne_nil_of_left_ne_nil hne _
    have hpipe : pipe.capacity = (s.pipe i).capacity ∧
        (pipe.content ≠ [] → (s.pipe i).content ≠ []) := by
      obtain ⟨-, -, -, rfl⟩ | ⟨hcontent, hne, hcap⟩ := hbytes
      · exact ⟨rfl, id⟩
      · refine ⟨hcap, fun _ => ?_⟩
        rw [hcontent]
        exact List.append_ne_nil_of_left_ne_nil hne _
    constructor <;> grind [BackgroundChildPoint.Waits]
  | exit => constructor <;> grind [exitChild, BackgroundChildPoint.Waits, BackgroundChildPoint.Goes]

/-! ## Runs -/

/-- What holds in every state that is reached. -/
structure Inv (capacity : Nat) (s : BackgroundShell) : Prop where
  order : Order s
  tables : Tables s
  sent : Sent capacity s

/-- Every step keeps the invariant. -/
theorem Inv.step {capacity : Nat} (h : machine.step s a = .ok (s', out)) (hs : Inv capacity s) :
    Inv capacity s' := by
  obtain ⟨ho, ht, hs⟩ := hs
  have hsteps := step_cases h
  exact ⟨hsteps.order ho, hsteps.tables ho ht, hsteps.sent ho ht hs⟩

/-- The shell has no pipe open. -/
def NoPipes (table : FileTable) : Prop := ∀ i, table.Ends i (∅, ∅)

/-- The invariant holds before the first background command. -/
theorem inv_initial {table : FileTable} (htable : NoPipes table) (capacity : Nat) :
    Inv capacity (initial table capacity) where
  order := ⟨fun _ _ => rfl, fun h => by simp [initial] at h⟩
  tables := ⟨htable 0, fun i _ => htable i, fun _ => ⟨rfl, rfl⟩,
    fun _ _ _ h => absurd h FileTable.not_holds_empty⟩
  sent := ⟨fun _ => rfl, fun _ h => absurd rfl h, fun _ h => absurd h (Nat.not_lt_zero _),
    fun _ h => h, fun _ _ => .inl rfl⟩

/-- The invariant holds in every state that is reached. -/
theorem exec_inv {table : FileTable} {capacity : Nat} (htable : NoPipes table)
    {ls : List BackgroundAction} (h : machine.exec (initial table capacity) ls = .ok (s, out)) :
    Inv capacity s :=
  Machine.exec_invariant_state (inv_initial htable capacity) (fun _ _ _ _ hs h => hs.step h) h

/-- What the events of a run say about the state. -/
structure History (s : BackgroundShell) (out : List BackgroundEvent) : Prop where
  executed : ∀ i, .executed i ∈ out →
    ((s.child i).point = .running ∨ (s.child i).point = .exited) ∧
      (i < s.count ∨ s.shell.point = .killed)
  broken : ∀ i, .brokenPipe i ∈ out →
    s.shell.point = .killed ∧ (s.child i).point = .exited ∧ .executed i ∉ out
  listed : ∀ i, .listed i ∈ out → i ∈ s.jobs ∨ (s.child i).point = .exited

/-- A child whose shell lives goes on only when the shell is done with its command. -/
theorem Inv.goes {capacity : Nat} (hs : Inv capacity s) {i : Nat} (hi : (s.child i).point.Goes) :
    i < s.count ∨ s.shell.point = .killed := by
  by_contra hnot
  obtain ⟨hlt, halive⟩ := not_or.mp hnot
  by_cases heq : i = s.count
  · rw [heq] at hi
    exact hs.sent.waits halive hi
  · rw [hs.order.unborn i (.inl (by omega))] at hi
    exact hi

/-- A child that has not exited has the read end of its pipe open. -/
theorem Tables.held_read (hs : Tables s) {i : Nat} (hi : i ≤ s.count)
    (hborn : (s.child i).point ≠ .unborn) (halive : (s.child i).point ≠ .exited) :
    Held s (.readEnd i) := by
  refine .inr ⟨i, Nat.lt_succ_of_le hi, ?_⟩
  rw [(hs.child i).holds_read]
  cases hpoint : (s.child i).point with
  | unborn => exact absurd hpoint hborn
  | exited => exact absurd hpoint halive
  | setpgrp | closeWrite | read | execute | running => exact Finset.singleton_ne_empty _

/-- Every step keeps what the history says about the state. -/
theorem Steps.history {capacity : Nat} {o : List BackgroundEvent} (h : Steps s a s' o)
    (hs : Inv capacity s) (hh : History s out) : History s' (out ++ o) := by
  have hgoes := @Inv.goes s capacity hs
  -- The history speaks of children only, so a step matters through the point of its child.
  obtain ⟨ho, ht, -⟩ := hs
  have hunborn := ho.unborn
  have hborn := ho.born
  obtain ⟨hexecuted, hbroken, hlisted⟩ := hh
  -- These steps record no event, and the points they change are not those of the history.
  cases h with
  | pipe | fork | forkFails | closeRead | addJob | write | writeFails | kill
  | removeFinishedJobs =>
    constructor <;> grind [killShell]
  | @brokenPipe i hpoint hlookup hreaders =>
    rw [ht.lookup_write hpoint] at hlookup
    cases hlookup
    -- the child holds the read end as long as it lives
    have hexited : (s.child s.count).point = .exited := by
      by_contra halive
      exact hreaders (ht.held_read le_rfl (hborn (.inr (.inr hpoint))) halive)
    constructor <;> grind [killShell]
  | @move i p o hmove =>
    -- Only the `exec` records an event.
    cases hi : (s.child i).point <;> rw [hi] at hmove <;> cases hmove <;> constructor <;>
      grind [BackgroundChildPoint.Goes]
  | read | exit => constructor <;> grind [exitChild]

/-- The history of a run says what its last state looks like. -/
theorem exec_history {table : FileTable} {capacity : Nat} (htable : NoPipes table)
    {ls : List BackgroundAction} (h : machine.exec (initial table capacity) ls = .ok (s, out)) :
    History s out := by
  refine (Machine.exec_invariant (I := fun s out => Inv capacity s ∧ History s out)
    ⟨inv_initial htable capacity, ?_⟩ (fun s out l s' o hs hstep => ?_) h).2
  · constructor <;> simp
  · exact ⟨hs.1.step hstep, (step_cases hstep).history hs.1 hs.2⟩

/-- A child that goes on with its program has its job in the jobs list, as long as the shell
    lives, and a job stays in the list until its child has exited. When the shell is killed by
    `SIGPIPE` at a command, the child of the command has exited before it became its program. -/
theorem child_goes_listed (table : FileTable) (capacity : Nat) (htable : NoPipes table)
    (ls : List BackgroundAction) (s : BackgroundShell) (out : List BackgroundEvent)
    (h : machine.exec (initial table capacity) ls = .ok (s, out)) :
    (∀ i, (s.child i).point.Goes → i ∈ s.jobs ∨ s.shell.point = .killed) ∧
    (∀ i, .listed i ∈ out → i ∈ s.jobs ∨ (s.child i).point = .exited) ∧
    (∀ i, .brokenPipe i ∈ out → (s.child i).point = .exited ∧ .executed i ∉ out) := by
  have hs := exec_inv htable h
  have hh := exec_history htable h
  refine ⟨fun i hi => ?_, hh.listed, fun i hi => (hh.broken i hi).2⟩
  obtain hlt | hkilled := hs.goes hi
  · left
    obtain hunborn | hexited | hmem := hs.sent.listed i (.inl hlt)
    · simp [hunborn, BackgroundChildPoint.Goes] at hi
    · simp [hexited, BackgroundChildPoint.Goes] at hi
    · exact hmem
  · exact .inr hkilled

/-- Two commands: the child of the first one is killed after the other one runs. -/
def twoCommandsRun : List BackgroundAction :=
  [.pipe (3, 4), .fork true, .child 0 true, .shell, .child 0 true, .shell, .shell, .child 0 true,
    .child 0 true, .removeFinishedJobs, .pipe (3, 5), .fork true, .shell, .child 1 true, .shell,
    .killChild 0, .shell, .child 1 true, .child 1 true, .child 1 true, .removeFinishedJobs]

theorem child_goes_listed_twoCommandsRun :
    ∃ s out, machine.exec (initial ∅ 65536) twoCommandsRun = .ok (s, out) ∧
      out = [.listed 0, .executed 0, .listed 1, .executed 1] ∧ s.jobs = [1] ∧
      (∀ i, (s.child i).point.Goes → i ∈ s.jobs ∨ s.shell.point = .killed) ∧
      (∀ i, .listed i ∈ out → i ∈ s.jobs ∨ (s.child i).point = .exited) ∧
      (∀ i, .brokenPipe i ∈ out → (s.child i).point = .exited ∧ .executed i ∉ out) :=
  ⟨_, _, rfl, rfl, rfl,
    child_goes_listed ∅ 65536 (fun _ => ⟨rfl, rfl⟩) twoCommandsRun _ _ rfl⟩

end ExternalCommand

end OsWet
