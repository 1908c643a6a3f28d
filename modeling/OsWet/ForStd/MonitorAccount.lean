import OsWet.ForStd.Finset
import OsWet.ForStd.Monitor

/-!
# Accounts kept by the threads of a monitor

Something that the shared data measures (blocks allocated, tickets handed out) is held in
part by the threads inside: `AccountRule` says how much a continuation holds, and that
every call and every segment only moves amounts between the data and the thread that runs.

A segment that leaves without releasing the mutex may lose an amount. Nothing runs after
it, so `AccountRule.exec` has at most one such loss, in exactly the states in which the
mutex is with a thread that does not run (`State.seized`).
-/

namespace OsWet

variable {Tid σ κ γ χ ι ο ε : Type*}

/-- The thread owns the mutex and goes on with it. -/
def Status.isHolding : Status κ γ → Bool
  | .holding _ => true
  | _ => false

/-- Who holds the mutex does not depend on the continuations. -/
@[simp] theorem Status.isHolding_map {κ' : Type*} (f : κ → κ') (st : Status κ γ) :
    (st.map f).isHolding = st.isHolding := by
  cases st <;> rfl

/-- What a segment loses: `lost` if it leaves with the mutex. -/
def Segment.loss (lost : Int) : Segment σ κ γ ο → Int
  | .escape _ _ => lost
  | _ => 0

namespace Monitor

/-- The mutex is owned by a thread that will not release it. -/
def State.seized (s : State Tid σ κ γ) : Bool :=
  s.lock.any fun t => !(s.threads t).isHolding

/-- What the continuation of a thread holds; nothing for a thread outside. -/
def heldBy (held : κ → Int) : Option κ → Int
  | none => 0
  | some k => held k

@[simp] theorem heldBy_none (held : κ → Int) : heldBy held none = 0 := rfl

@[simp] theorem heldBy_some (held : κ → Int) (k : κ) : heldBy held (some k) = held k := rfl

/-- The continuations that calls and segments leave threads with meet `ok`; and a thread
    with such a continuation changes `amount` by as much as it takes or gives up. -/
structure AccountRule (M : Monitor σ κ γ χ ι ο ε) (ok : κ → Prop) (amount : σ → Int)
    (held : κ → Int) (lost : Int) : Prop where
  call : ∀ i s d k, M.call i s = .ok (d, .inl k) → ok k ∧ amount d = amount s + held k
  refuse : ∀ i s d o, M.call i s = .ok (d, .inr o) → amount d = amount s
  segment : ∀ x k s g, ok k → M.segment x k s = .ok g →
    (∀ k', g.kont = some k' → ok k') ∧
      amount g.data + held k = amount s + heldBy held g.kont + g.loss lost

variable [DecidableEq Tid]

/-- Nothing runs while the mutex is seized. -/
theorem State.seized_of_runnable {s : State Tid σ κ γ} {t : Tid} {k : κ}
    (h : s.runnable t = some k) : s.seized = false := by
  unfold State.runnable at h
  -- The mutex is free, or the thread that runs is holding it.
  split at h <;> grind [State.seized, Status.isHolding]

omit [DecidableEq Tid] in
/-- A mutex that is with a thread that runs is not seized. -/
theorem State.LockHeld.seized_eq {s : State Tid σ κ γ} (h : s.LockHeld) : s.seized = false := by
  unfold State.seized
  cases hlock : s.lock with
  | none => rfl
  | some t =>
    obtain ⟨k, hk⟩ := h t hlock
    simp [hk, Status.isHolding]

/-- A thread that neither held the mutex nor comes to hold it leaves it with who has it. -/
theorem State.seized_setThread {s : State Tid σ κ γ} {t : Tid} {st : Status κ γ} (d : σ)
    (hold : (s.threads t).isHolding = false) (hnew : st.isHolding = false) :
    State.seized ⟨d, s.lock, s.setThread t st⟩ = s.seized := by
  unfold State.seized State.setThread
  cases s.lock with
  | none => rfl
  | some u =>
    by_cases hut : u = t
    · subst hut
      simp [hold, hnew]
    · simp [Function.update_of_ne hut]

variable [Fintype Tid]

/-- What all threads hold together. -/
def total (held : κ → Int) (threads : Tid → Status κ γ) : Int :=
  ∑ t, heldBy held (threads t).kont

/-- The total, when one thread moves to a new status. -/
theorem total_setThread (held : κ → Int) (s : State Tid σ κ γ) (t : Tid) (st : Status κ γ) :
    total held (s.setThread t st) + heldBy held (s.threads t).kont =
      total held s.threads + heldBy held st.kont :=
  sum_update (fun st : Status κ γ => heldBy held st.kont) s.threads t st

/-- A signal moves nothing. -/
theorem total_signal [DecidableEq γ] {held : κ → Int} {c : γ} {woken : Option Tid}
    {threads threads' : Tid → Status κ γ} (h : signal c woken threads = some threads') :
    total held threads' = total held threads := by
  unfold total
  simp only [signal_kont h]

/-- The account of a state: the amount is what it was at the start and what the threads
    hold, and what was lost with the mutex. -/
structure Accounted (ok : κ → Prop) (amount : σ → Int) (held : κ → Int) (lost start : Int)
    (s : State Tid σ κ γ) : Prop where
  ok : ∀ t k, (s.threads t).kont = some k → ok k
  balance : amount s.data = start + total held s.threads + if s.seized then lost else 0

variable [DecidableEq γ] {M : Monitor σ κ γ χ ι ο ε} {ok : κ → Prop} {amount : σ → Int}
  {held : κ → Int} {lost : Int}

/-- One step keeps the account. -/
theorem AccountRule.step (rule : AccountRule M ok amount held lost) {start : Int}
    {s s' : State Tid σ κ γ} {a : Action Tid χ ι} {out : List (Tid × ο)}
    (hs : Accounted ok amount held lost start s) (h : M.machine.step s a = .ok (s', out)) :
    Accounted ok amount held lost start s' := by
  have hbalance := hs.balance
  constructor
  · -- A continuation is old, or comes from a call or a segment, which both keep `ok`.
    intro u k hu
    obtain hold | ⟨i, -, hcall⟩ | ⟨x, woken, k₀, g, -, hrun, hseg, -, hk⟩ := step_kont h hu
    · exact hs.ok u k hold
    · exact (rule.call _ _ _ _ hcall).1
    · exact (rule.segment _ _ _ _ (hs.ok u k₀ (State.kont_of_runnable hrun)) hseg).1 k hk
  · -- A segment moves an amount between the data and the thread that runs it.
    have hmoves : ∀ {t x k g}, s.runnable t = some k → M.segment x k s.data = .ok g →
        ∀ st : Status κ γ, st.kont = g.kont →
          amount g.data = start + total held (s.setThread t st) + g.loss lost := by
      intro t x k g hrun hseg st hst
      have hkont := State.kont_of_runnable hrun
      have htotal := total_setThread held s t st
      have hamount := (rule.segment _ _ _ _ (hs.ok t k hkont) hseg).2
      rw [State.seized_of_runnable hrun] at hbalance
      rw [hkont, hst, heldBy_some] at htotal
      simp only [Bool.false_eq_true, if_false] at hbalance
      omega
    -- One case for each rule of the step.
    cases step_iff.mp h with
    -- The call takes what it holds out of the data.
    | @call t i d k hout hcall =>
      have htotal := total_setThread held s t (.ready k)
      have hamount := (rule.call _ _ _ _ hcall).2
      rw [hout] at htotal
      simp only [Status.kont, heldBy_none, heldBy_some] at htotal
      rw [State.seized_setThread d (by rw [hout]; rfl) rfl]
      show amount d = start + total held (s.setThread t (.ready k)) + _
      omega
    | refuse hout hcall => exact (rule.refuse _ _ _ _ hcall).trans hbalance
    | @again t x woken k k' d hrun hseg =>
      have hmove := hmoves hrun hseg (.holding k') rfl
      simpa [State.seized, State.setThread, Status.isHolding, Segment.data, Segment.loss]
        using hmove
    | @wait t x woken k k' d c hrun hseg =>
      exact hmoves hrun hseg (.waiting c .asleep k') rfl
    | leave hrun hseg hsig =>
      -- Whom the thread wakes holds what it held.
      have hmove := hmoves hrun hseg .outside rfl
      rw [← total_signal hsig] at hmove
      exact hmove
    | @escape t x woken k d o hrun hseg =>
      have hmove := hmoves hrun hseg .outside rfl
      simpa [State.seized, State.setThread, Status.isHolding, Segment.data, Segment.loss]
        using hmove
    -- A thread that wakes holds what it held.
    | @spurious t c k hwait =>
      have htotal := total_setThread held s t (.waiting c .spurious k)
      rw [hwait] at htotal
      simp only [Status.kont] at htotal
      rw [State.seized_setThread s.data (by rw [hwait]; rfl) rfl]
      show amount s.data = start + total held (s.setThread t (.waiting c .spurious k)) + _
      omega

/-- The account of every state that a run reaches. -/
theorem AccountRule.exec (rule : AccountRule M ok amount held lost) {data : σ}
    {acts : List (Action Tid χ ι)} {s : State Tid σ κ γ} {out : List (Tid × ο)}
    (h : M.machine.exec (initial data) acts = .ok (s, out)) :
    Accounted ok amount held lost (amount data) s := by
  refine Machine.exec_invariant_state ?_ (fun s a s' o hs hstep => rule.step hs hstep) h
  exact ⟨fun _ _ hnone => (by cases hnone), by simp [initial, total, State.seized, Status.kont]⟩

end Monitor

end OsWet
