import OsWet.Spec.QueueHistory
import OsWet.Spec.QueueSafety
import OsWet.Native.Server

/-!
# The dropped array is large enough

`startServer` allocates `droppedConnectionsContents` once, by a formula of its own, and
passes it to every call of `MQPut`. The handlers of `message_queue.c` fill it by other
formulas: one entry for drop-tail and drop-head, one for each selected index under the
random policy. In every run of the server the entries a call writes lie inside the
array, and a call that returns `MQ_DROP` has written all the entries it reports.

- `exec_queue`: what happens to the queue in a run of the server is a run of the queue
- `exec_fits`: the entries written so far fit, along every run of the queue
-/

namespace OsWet

variable {α : Type}

/-- The entries this call has written lie in an array of `dropSize` entries, and a drop it
    reports has no entry that it has not written. -/
structure PutOut.Fits (dropSize : Int) (out : PutOut α) : Prop where
  bound : ∀ i : Nat, out.dropped i ≠ none → (i : Int) < dropSize
  written : out.result = .drop → ∀ i : Nat, (i : Int) < out.droppedAmount → out.dropped i ≠ none

/-- The out-parameters of a thread inside `MQPut`. -/
def Kont.putOut {ν : Type} : Kont ν α → Option (PutOut α)
  | .put _ _ _ out => some out
  | .get => none

/-- The out-parameters of a call of `MQPut` that returned. -/
def Ret.putOut : Ret α → Option (PutOut α)
  | .put _ out => some out
  | .get _ _ => none

/-- What a call has reported so far is the same in the queue without addresses. -/
@[simp] theorem Kont.putOut_forget (k : Kont Ptr α) : k.forget.putOut = k.putOut := by
  cases k <;> rfl

/-- The entries written by `writeAll`, and those that were written before. -/
theorem writeAll_dropped_ne_none (out : PutOut α) (d i : Nat) (contents : List α) :
    (out.writeAll d contents).dropped i ≠ none ↔
      out.dropped i ≠ none ∨ d ≤ i ∧ i < d + contents.length := by
  induction contents generalizing out d with
  | nil =>
    simp only [PutOut.writeAll, List.length_nil]
    exact ⟨.inl, fun h => h.resolve_right (by omega)⟩
  | cons content contents ih =>
    simp only [PutOut.writeAll, ih, PutOut.writeDropped, List.length_cons]
    by_cases hi : i = d
    · subst hi
      rw [Function.update_self]
      simp
    · rw [Function.update_of_ne hi]
      have : d + 1 ≤ i ∧ i < d + 1 + contents.length ↔ d ≤ i ∧ i < d + (contents.length + 1) := by
        omega
      rw [this]

/-- A call starts with nothing written. -/
theorem PutOut.fits_start (dropSize droppedAmount : Int) :
    (PutOut.start droppedAmount : PutOut α).Fits dropSize where
  bound _ h := absurd rfl h
  written h := nomatch h

namespace Queue

/-- A drop of as many messages as the array has entries fits. -/
theorem fits_report {dropSize : Int} {out : PutOut α} {dropped : List (Message α)}
    (h : out.Fits dropSize) (hlen : (dropped.length : Int) = dropSize) :
    (report out dropSize dropped).Fits dropSize where
  bound i hi := by
    rcases (writeAll_dropped_ne_none out 0 i _).mp hi with hold | hnew
    · exact h.bound i hold
    · rw [List.length_map] at hnew
      omega
  written _ i hi := by
    refine (writeAll_dropped_ne_none out 0 i _).mpr (.inr ⟨Nat.zero_le i, ?_⟩)
    have : (i : Int) < dropSize := hi
    rw [List.length_map]
    omega

/-- What a segment writes fits the array that `startServer` allocates for the queue. -/
theorem Move.fits {q : Queue α} {k : Kont Unit α} {g : End α} (h : Move q k g)
    (hk : ∀ out, k.putOut = some out → out.Fits (Server.dropSizeOf q.capacity q.schedPolicy)) :
    (∀ k' out, g.kont = some k' → k'.putOut = some out →
      out.Fits (Server.dropSizeOf q.capacity q.schedPolicy)) ∧
    ∀ r out, End.ret g = some r → r.putOut = some out →
      out.Fits (Server.dropSizeOf q.capacity q.schedPolicy) := by
  -- A segment either returns or goes on; in each case one half has to be shown.
  cases h with
  -- Nothing is dropped: the out-parameters are the ones before.
  | put | putAfterBlock =>
    refine ⟨fun _ _ h => (by cases h), ?_⟩
    rintro _ out ⟨⟩ ⟨⟩
    exact hk _ rfl
  | block | spin =>
    refine ⟨?_, fun _ _ h => by cases h⟩
    rintro _ out ⟨⟩ ⟨⟩
    exact hk _ rfl
  -- One message is dropped, and the buffer has one place.
  | @dropTail message out _ hpol =>
    have hsize : Server.dropSizeOf q.capacity q.schedPolicy = 1 := by
      simp [Server.dropSizeOf, hpol]
    rw [hsize] at hk ⊢
    refine ⟨fun _ _ h => (by cases h), ?_⟩
    rintro _ _ ⟨⟩ ⟨⟩
    have hfits : (report out 1 [message]).Fits 1 := fits_report (hk out rfl) rfl
    exact ⟨hfits.bound, hfits.written⟩
  | @dropHead message m out items _ hpol =>
    have hsize : Server.dropSizeOf q.capacity q.schedPolicy = 1 := by
      simp [Server.dropSizeOf, hpol]
    rw [hsize] at hk ⊢
    refine ⟨?_, fun _ _ h => by cases h⟩
    rintro _ _ ⟨⟩ ⟨⟩
    exact fits_report (hk out rfl) rfl
  | @randomBlock message out =>
    -- Below four places nothing is selected, and the amount to report is zero.
    refine ⟨?_, fun _ _ h => by cases h⟩
    rintro _ _ ⟨⟩ ⟨⟩
    refine ⟨(hk out rfl).bound, fun _ i hi => ?_⟩
    have : (i : Int) < 0 := hi
    omega
  | @dropRandom message out mask _ hpol _ hlen hcount =>
    -- The mask selects as many messages as `queueSize / 4` says.
    have hsize : Server.dropSizeOf q.capacity q.schedPolicy = q.capacity.tdiv 4 := if_pos hpol
    rw [hsize] at hk ⊢
    refine ⟨fun _ _ h => (by cases h), ?_⟩
    rintro _ _ ⟨⟩ ⟨⟩
    exact fits_report (hk out rfl) (by rw [length_gone hlen, hcount])
  -- `MQGet` has no out-parameters.
  | getWait =>
    refine ⟨?_, fun _ _ h => by cases h⟩
    intro _ _ h' h
    obtain ⟨⟩ := h'
    cases h
  | get =>
    refine ⟨fun _ _ h => (by cases h), ?_⟩
    intro _ _ h' h
    obtain ⟨⟩ := h'
    cases h

/-- A call that has not taken the mutex has written nothing. -/
theorem call_fits {q q' : Queue α} {c : Call α} {r : Kont Unit α ⊕ Ret α} (dropSize : Int)
    (h : call c q = .ok (q', r)) :
    (∀ k out, r = .inl k → k.putOut = some out → out.Fits dropSize) ∧
      ∀ ret out, r = .inr ret → ret.putOut = some out → out.Fits dropSize := by
  have hstart := PutOut.fits_start (α := α) dropSize 0
  -- `MQGet` and a null message return without a report; a put starts with none.
  cases c with
  | get =>
    cases h
    refine ⟨?_, fun _ _ h => by cases h⟩
    intro _ _ h' h
    obtain ⟨⟩ := h'
    cases h
  | put message =>
    cases message with
    | none =>
      cases h
      refine ⟨fun _ _ h => (by cases h), ?_⟩
      rintro _ _ ⟨⟩ ⟨⟩
      exact ⟨hstart.bound, fun h => by cases h⟩
    | some message =>
      cases h
      refine ⟨?_, fun _ _ h => by cases h⟩
      rintro _ _ ⟨⟩ ⟨⟩
      exact hstart

variable {Tid : Type} [DecidableEq Tid] [Fintype Tid] {capacity : Int}
  {schedPolicy : MQSchedPolicy} {acts : List (Monitor.Action Tid (List Nat) (Call α))}

/-- What the threads inside `MQPut` have written fits, along every run. -/
theorem exec_fits {s : QState Tid α} {out : List (Tid × Ret α)}
    (h : (monitor α).machine.exec (Monitor.initial (initial capacity schedPolicy)) acts =
      .ok (s, out)) {t : Tid} {k : Kont Unit α} {o : PutOut α}
    (ht : (s.threads t).kont = some k) (ho : k.putOut = some o) :
    o.Fits (Server.dropSizeOf capacity schedPolicy) := by
  obtain ⟨hcapacity, hpol⟩ := exec_params h
  rw [← hcapacity, ← hpol]
  -- The invariant speaks of the parameters in the state, which no segment changes.
  refine Monitor.exec_kont_invariant (P := fun q k => ∀ o, k.putOut = some o →
    o.Fits (Server.dropSizeOf q.capacity q.schedPolicy)) ?_ ?_ h ht o ho
  · intro c q q' r hc
    cases call_eq_ok hc
    exact ⟨fun _ hk => hk, fun k hr o => (call_fits _ hc).1 k o hr⟩
  · intro rands k q g hk hg
    have hmove := segment_eq_ok hg
    obtain ⟨hcap, hpol⟩ := hmove.params
    rw [hcap, hpol]
    exact ⟨fun _ hk' => hk', fun k' hk' o => (hmove.fits hk).1 k' o hk'⟩

/-- What a call of `MQPut` has written when it returns fits, after every run. -/
theorem step_fits {s s' : QState Tid α} {out o : List (Tid × Ret α)}
    {a : Monitor.Action Tid (List Nat) (Call α)}
    (h : (monitor α).machine.exec (Monitor.initial (initial capacity schedPolicy)) acts =
      .ok (s, out)) (hstep : (monitor α).machine.step s a = .ok (s', o)) {t : Tid} {r : Ret α}
    {po : PutOut α} (hr : (t, r) ∈ o) (hpo : r.putOut = some po) :
    po.Fits (Server.dropSizeOf capacity schedPolicy) := by
  -- Only a call that returns at once and a segment that returns report anything.
  cases a with
  | call u c =>
    obtain ⟨-, -, -, ⟨k, -, rfl, -⟩ | ⟨r', hc, rfl, -⟩⟩ := call_cases hstep
    · cases hr
    · cases List.mem_singleton.mp hr
      exact (call_fits _ hc).2 r po rfl hpo
  -- A segment returns what the put has collected, which fits by the invariant.
  | run u rands woken =>
    obtain ⟨k, g, hrun, hmove, -, -, rfl, -⟩ := run_cases hstep
    obtain ⟨hcapacity, hpol⟩ := exec_params h
    obtain ⟨r', hr', heq⟩ := List.mem_map.mp hr
    cases heq
    have hk := Monitor.State.kont_of_runnable hrun
    rw [← hcapacity, ← hpol]
    refine (hmove.fits fun o ho => ?_).2 r po (Option.mem_toList.mp hr') hpo
    rw [hcapacity, hpol]
    exact exec_fits h hk ho
  | spurious u =>
    obtain ⟨-, -, rfl, -⟩ := spurious_cases hstep
    cases hr

end Queue

namespace Server

variable {n : Nat}

/-- The calls that return leave the queue as it is. -/
@[simp] theorem returned_queue (s : Server n) (out : List (ServerTid n × Ret Int)) :
    (s.returned out).queue = s.queue := by
  unfold returned
  split <;> rfl

/-- A step of the queue inside the server is a step of the queue. -/
theorem queueStep_queue {s s' : Server n}
    {a : Monitor.Action (ServerTid n) (List Nat) (Call Int)} (h : s.queueStep a = .ok s') :
    ∃ out, (MessageQueue.monitor Int .succeed).machine.step s.queue a = .ok (s'.queue, out) := by
  simp only [queueStep] at h
  split at h
  · cases h
  · cases h
  · split at h
    · cases h
    · cases h
    · cases h
      exact ⟨_, by simpa using ‹_›⟩

/-- A step without events is the piece of code it runs. -/
private theorem silent_eq_ok {r : Outcome ServerFault (Server n)} {s' : Server n}
    {o : List (ServerEvent n)} (h : silent r = .ok (s', o)) : r = .ok s' := by
  cases r with
  | stuck => cases h
  | fault e => cases h
  | ok s => cases h; rfl

/-- Closing a descriptor is no business of the queue. -/
private theorem closeFd_queue {s s' : Server n} {t : ServerTid n} {fd : Int}
    {o : List (ServerEvent n)} (h : s.closeFd t fd = .ok (s', o)) : s'.queue = s.queue := by
  simp only [closeFd] at h
  split at h
  · cases h; rfl
  · cases h

/-- A step of the server leaves the queue alone or is a step of the queue. -/
theorem step_queue {s s' : Server n} {a : ServerAction n} {o : List (ServerEvent n)}
    (h : (machine n).step s a = .ok (s', o)) : s'.queue = s.queue ∨
      ∃ b out, (MessageQueue.monitor Int .succeed).machine.step s.queue b =
        .ok (s'.queue, out) := by
  -- Only `put`, `get` and the segments reach the queue; every other action leaves it.
  cases a with
  | accept connfd =>
    simp only [machine, accept] at h
    split at h
    · split at h
      · cases h
      · cases h; exact .inl rfl
    · cases h
  | build block now =>
    have h := silent_eq_ok h
    simp only [build] at h
    split at h
    · obtain ⟨metas, -, heq⟩ := Outcome.bind_eq_ok.mp h
      cases heq
      exact .inl rfl
    · cases h
  | put =>
    have h := silent_eq_ok h
    simp only [put] at h
    -- The call is one step of the monitor.
    split at h
    · obtain ⟨out, hstep⟩ := queueStep_queue h
      exact .inr ⟨_, out, hstep⟩
    · cases h
  | closeDropped =>
    simp only [machine, closeDropped] at h
    split at h
    · split at h
      · split at h
        · split at h
          · cases h
          · have hqueue := closeFd_queue h
            -- Closing a connection does not touch the queue.
            exact .inl hqueue
        · cases h
      · cases h; exact .inl rfl
    · cases h
  | get w =>
    have h := silent_eq_ok h
    simp only [get] at h
    split at h
    · obtain ⟨out, hstep⟩ := queueStep_queue h
      exact .inr ⟨_, out, hstep⟩
    · cases h
  | run t rands woken =>
    obtain ⟨out, hstep⟩ := queueStep_queue (silent_eq_ok h)
    exact .inr ⟨_, out, hstep⟩
  | wakeSpuriously t =>
    obtain ⟨out, hstep⟩ := queueStep_queue (silent_eq_ok h)
    exact .inr ⟨_, out, hstep⟩
  | dispatch w now =>
    have h := silent_eq_ok h
    simp only [dispatch] at h
    split at h
    · cases h
    · obtain ⟨block, -, h⟩ := Outcome.bind_eq_ok.mp h
      split at h
      · obtain ⟨metas, -, heq⟩ := Outcome.bind_eq_ok.mp h
        cases heq
        exact .inl rfl
      · obtain ⟨metas, -, heq⟩ := Outcome.bind_eq_ok.mp h
        cases heq
        exact .inl rfl
    · cases h
  | handle w isStatic =>
    have h := silent_eq_ok h
    simp only [handle] at h
    split at h
    · split at h
      · cases h; exact .inl rfl
      · split at h
        · obtain ⟨block, -, h⟩ := Outcome.bind_eq_ok.mp h
          obtain ⟨metas, -, heq⟩ := Outcome.bind_eq_ok.mp h
          cases heq
          exact .inl rfl
        · cases h
    · cases h
  | free w =>
    have h := silent_eq_ok h
    simp only [free] at h
    split at h
    · obtain ⟨metas, -, heq⟩ := Outcome.bind_eq_ok.mp h
      cases heq
      exact .inl rfl
    · cases h
  | close w =>
    simp only [machine, close] at h
    split at h
    · have hqueue := closeFd_queue h
      exact .inl hqueue
    · cases h

/-- What happens to the queue in a run of the server is a run of the queue. -/
theorem exec_queue {queueSize : Int} {schedPolicy : MQSchedPolicy}
    {acts : List (ServerAction n)} {s : Server n} {out : List (ServerEvent n)}
    (h : (machine n).exec (initial n queueSize schedPolicy) acts = .ok (s, out)) :
    ∃ as rets, (MessageQueue.monitor Int .succeed).machine.exec
      (Monitor.initial (MessageQueue.initialMem queueSize schedPolicy)) as =
        .ok (s.queue, rets) := by
  refine Machine.exec_invariant_state (I := fun s : Server n => ∃ as rets,
    (MessageQueue.monitor Int .succeed).machine.exec
      (Monitor.initial (MessageQueue.initialMem queueSize schedPolicy)) as = .ok (s.queue, rets))
    ⟨[], [], rfl⟩ ?_ h
  intro s a s' o h hstep
  obtain ⟨as, rets, hexec⟩ := h
  rcases step_queue hstep with hsame | ⟨b, rets', hqueue⟩
  · exact ⟨as, rets, hsame ▸ hexec⟩
  · exact ⟨as ++ [b], rets ++ rets', Machine.exec_snoc_eq_ok _ |>.mpr
      ⟨_, _, _, hexec, hqueue, rfl⟩⟩

/-- In every run of the server, the next step of the queue goes wrong for no thread, what
    each thread inside `MQPut` has written of the dropped array fits the array that
    `startServer` has allocated, and so does what a returning `MQPut` has written, which is
    everything that it reports as dropped. -/
theorem drop_buffer_fits (queueSize : Int) (schedPolicy : MQSchedPolicy) (hsize : 1 ≤ queueSize)
    (acts : List (ServerAction n)) (s : Server n) (out : List (ServerEvent n))
    (h : (machine n).exec (initial n queueSize schedPolicy) acts = .ok (s, out))
    (a : Monitor.Action (ServerTid n) (List Nat) (Call Int)) :
    (∀ e, (MessageQueue.monitor Int .succeed).machine.step s.queue a ≠ .fault e) ∧
      ∀ queue rets, (MessageQueue.monitor Int .succeed).machine.step s.queue a =
          .ok (queue, rets) →
        (∀ t k o, (queue.threads t).kont = some k → k.putOut = some o →
          o.Fits (dropSizeOf queueSize schedPolicy)) ∧
        ∀ t r o, (t, r) ∈ rets → r.putOut = some o →
          o.Fits (dropSizeOf queueSize schedPolicy) := by
  -- The run of the server is a run of the monitor, and that one of the abstract queue.
  obtain ⟨as, rets, hexec⟩ := exec_queue h
  obtain ⟨t, ht, hR⟩ := MessageQueue.exec_abstract hexec
  have hcapacity := (Queue.exec_params ht).1
  refine ⟨fun e => MessageQueue.step_ne_fault hR (fun _ => by omega) a e, ?_⟩
  intro queue rets' hstep
  obtain ⟨t', hstep', hR'⟩ := MessageQueue.monitor_refines.simulates _ _ _ _ _ hR hstep
  constructor
  · -- The abstract queue has the same threads, with the same out-parameters.
    intro u k o hk ho
    have ht' := (Machine.exec_snoc_eq_ok _).mpr ⟨_, _, _, ht, hstep', rfl⟩
    refine Queue.exec_fits ht' (t := u) (k := k.forget) ?_ (by rwa [Kont.putOut_forget])
    rw [hR'.threads_eq u, Status.kont_map, hk]
    rfl
  · -- What is returned by the step.
    intro u r o hr ho
    exact Queue.step_fits ht hstep' hr ho

/-- Two connections for a queue with one place and no worker: the second one is refused by
    the next segment. -/
def dropTailServerRun : List (ServerAction 0) :=
  let block : MetaData := ⟨⟨0, 0⟩, ⟨0, 0⟩, 0, 0, 0, 0⟩
  [.accept 5, .build block ⟨1, 0⟩, .put, .run none [] none, .accept 6, .build block ⟨2, 0⟩, .put]

/-- A queue of one connection, and a second connection that is dropped. -/
theorem drop_buffer_fits_dropTailServerRun :
    ∃ s out, (machine 0).exec (initial 0 1 .dropTail) dropTailServerRun = .ok (s, out) ∧
      (∀ e, (MessageQueue.monitor Int .succeed).machine.step s.queue (.run none [] none) ≠
        .fault e) ∧
      ∀ queue rets, (MessageQueue.monitor Int .succeed).machine.step s.queue
          (.run none [] none) = .ok (queue, rets) →
        (∀ t k o, (queue.threads t).kont = some k → k.putOut = some o →
          o.Fits (dropSizeOf 1 .dropTail)) ∧
        ∀ t r o, (t, r) ∈ rets → r.putOut = some o → o.Fits (dropSizeOf 1 .dropTail) :=
  ⟨_, _, rfl, drop_buffer_fits 1 .dropTail (by decide) dropTailServerRun _ _ rfl _⟩

end Server

end OsWet
