import OsWet.ForStd.Machine

/-!
# Processes that make system calls

A process is given the answers to its calls as a list. It gets as far as it can with them:
it returns with the answers it did not use, it goes wrong, or it waits for the answer to a
call. Loops are unfolded along a measure of their state and of the answers that are left.

## Main rules

- `iterate_eq`: a loop whose body brings the measure down is its body and the loop again
- `Causal.iterate`, `Exact.iterate`: properties of a loop from those of its body
- `Exact.everyState_iff`: answer by answer, a process goes wrong exactly at an answer
  that is fatal
-/

namespace OsWet

universe u

/-- How far a process gets. It is stuck on an answer that its call cannot have. -/
inductive Progress (κ ω ε α : Type u) where
  | waiting (call : κ)
  | stuck
  | fault (e : ε)
  | done (a : α) (rest : List ω)
  deriving DecidableEq, Repr

/-- A process with calls `κ`, answers `ω` and faults `ε`. -/
def Process (κ ω ε α : Type u) : Type u := List ω → Progress κ ω ε α

namespace Process

variable {κ ω ε α β σ : Type u}

instance : Monad (Process κ ω ε) where
  pure a as := .done a as
  bind p f as :=
    match p as with
    | .waiting call => .waiting call
    | .stuck => .stuck
    | .fault e => .fault e
    | .done a rest => f a rest

@[simp] theorem pure_apply (a : α) (as : List ω) :
    (pure a : Process κ ω ε α) as = .done a as := rfl

/-- A sequence: the rest goes on with the answers that the first part has left over. -/
theorem bind_apply (p : Process κ ω ε α) (f : α → Process κ ω ε β) (as : List ω) :
    (p >>= f) as =
      match p as with
      | .waiting call => .waiting call
      | .stuck => .stuck
      | .fault e => .fault e
      | .done a rest => f a rest := rfl

/-- A sequence that is done is a first part that is done and a rest that is done. -/
theorem bind_eq_done {p : Process κ ω ε α} {f : α → Process κ ω ε β} {as rest : List ω} {b : β} :
    (p >>= f) as = .done b rest ↔ ∃ a rest', p as = .done a rest' ∧ f a rest' = .done b rest := by
  rw [bind_apply]
  cases p as <;> simp

/-- A sequence whose first part is done goes on with the rest. -/
theorem bind_of_done {p : Process κ ω ε α} {f : α → Process κ ω ε β} {as rest : List ω} {a : α}
    (h : p as = .done a rest) : (p >>= f) as = f a rest := by
  rw [bind_apply, h]

/-- A sequence waits in its first part or in its rest. -/
theorem bind_eq_waiting {p : Process κ ω ε α} {f : α → Process κ ω ε β} {as : List ω} {call : κ} :
    (p >>= f) as = .waiting call ↔
      p as = .waiting call ∨ ∃ a rest, p as = .done a rest ∧ f a rest = .waiting call := by
  rw [bind_apply]
  cases p as <;> simp

/-- A sequence fails in its first part or in its rest. -/
theorem bind_eq_fault {p : Process κ ω ε α} {f : α → Process κ ω ε β} {as : List ω} {e : ε} :
    (p >>= f) as = .fault e ↔
      p as = .fault e ∨ ∃ a rest, p as = .done a rest ∧ f a rest = .fault e := by
  rw [bind_apply]
  cases p as <;> simp

/-- The process goes wrong. -/
def fault (e : ε) : Process κ ω ε α := fun _ => .fault e

/-- A fault takes no answer. -/
@[simp] theorem fault_apply (e : ε) (as : List ω) :
    (fault e : Process κ ω ε α) as = .fault e := rfl

/-- Make a call and wait for its answer. -/
def ask (allows : κ → ω → Bool) (call : κ) : Process κ ω ε ω
  | [] => .waiting call
  | a :: as => if allows call a then .done a as else .stuck

/-- A call is done when it has an answer that it allows. -/
theorem ask_eq_done {allows : κ → ω → Bool} {call : κ} {as rest : List ω} {a : ω} :
    (ask allows call : Process κ ω ε ω) as = .done a rest ↔
      as = a :: rest ∧ allows call a := by
  cases as with
  | nil => simp [ask]
  | cons a' as =>
    simp only [ask]
    split
    · grind
    · grind

/-- A call waits as long as it has no answer. -/
theorem ask_eq_waiting {allows : κ → ω → Bool} {call call' : κ} {as : List ω} :
    (ask allows call : Process κ ω ε ω) as = .waiting call' ↔ as = [] ∧ call = call' := by
  cases as with
  | nil => simp [ask]
  | cons a as =>
    simp only [ask]
    split <;> simp

/-- A call does not fail, whatever the answer. -/
theorem ask_ne_fault {allows : κ → ω → Bool} {call : κ} {as : List ω} {e : ε} :
    (ask allows call : Process κ ω ε ω) as ≠ .fault e := by
  cases as with
  | nil => simp [ask]
  | cons a as =>
    simp only [ask]
    split <;> simp

/-- The process returns `a` on some answers. -/
def Returns (p : Process κ ω ε α) (a : α) : Prop := ∃ as rest, p as = .done a rest

/-- A call returns an answer that it allows. -/
theorem returns_ask {allows : κ → ω → Bool} {call : κ} {a : ω}
    (h : (ask allows call : Process κ ω ε ω).Returns a) : allows call a := by
  obtain ⟨as, rest, h⟩ := h
  exact (ask_eq_done.mp h).2

/-- What a sequence returns comes from what its first part returns. -/
theorem returns_bind {p : Process κ ω ε α} {f : α → Process κ ω ε β} {b : β}
    (h : (p >>= f).Returns b) : ∃ a, p.Returns a ∧ (f a).Returns b := by
  obtain ⟨as, rest, h⟩ := h
  obtain ⟨a, rest', h₁, h₂⟩ := bind_eq_done.mp h
  exact ⟨a, ⟨as, rest', h₁⟩, ⟨rest', rest, h₂⟩⟩

/-! ## Loops -/

/-- At most `n` rounds of a loop, whose body goes on with a new state or ends the loop. -/
def iterateN (body : σ → Process κ ω ε (σ ⊕ α)) : Nat → σ → Process κ ω ε α
  | 0, _ => fun _ => .stuck
  | n + 1, s => do
    match ← body s with
    | .inl s' => iterateN body n s'
    | .inr a => pure a

/-- A loop with as many rounds as the measure allows. -/
def iterate (μ : σ → List ω → Nat) (body : σ → Process κ ω ε (σ ⊕ α)) (s : σ) :
    Process κ ω ε α :=
  fun as => iterateN body (μ s as + 1) s as

/-- A round that goes on brings the measure down. -/
def Decreases (μ : σ → List ω → Nat) (body : σ → Process κ ω ε (σ ⊕ α)) : Prop :=
  ∀ s as s' rest, body s as = .done (.inl s') rest → μ s' rest < μ s as

section
variable {μ : σ → List ω → Nat} {body : σ → Process κ ω ε (σ ⊕ α)}

/-- One round of the loop, and the rounds that are left. -/
private theorem iterateN_apply (n : Nat) (s : σ) (as : List ω) :
    iterateN body (n + 1) s as =
      match body s as with
      | .waiting call => .waiting call
      | .stuck => .stuck
      | .fault e => .fault e
      | .done (.inl s') rest => iterateN body n s' rest
      | .done (.inr a) rest => .done a rest := by
  show (body s >>= _) as = _
  rw [bind_apply]
  cases body s as with
  | done r rest => cases r <;> rfl
  | _ => rfl

/-- More rounds than the measure asks for change nothing. -/
private theorem iterateN_eq (h : Decreases μ body) {n m : Nat} {s : σ} {as : List ω}
    (hn : μ s as < n) (hm : μ s as < m) : iterateN body n s as = iterateN body m s as := by
  -- The measure bounds the rounds, so neither number of rounds runs out.
  induction n generalizing m s as with
  | zero => omega
  | succ n ih =>
    cases m with
    | zero => omega
    | succ m =>
      rw [iterateN_apply, iterateN_apply]
      cases hbody : body s as with
      | done r rest =>
        cases r with
        | inl s' =>
          have hlt := h s as s' rest hbody
          exact ih (by omega) (by omega)
        | inr a => rfl
      | _ => rfl

/-- A loop is its body, and the loop again. -/
theorem iterate_eq (h : Decreases μ body) (s : σ) :
    iterate μ body s = body s >>= Sum.elim (iterate μ body) pure := by
  funext as
  show iterateN body (μ s as + 1) s as = (body s >>= _) as
  rw [iterateN_apply, bind_apply]
  cases hbody : body s as with
  | done r rest =>
    cases r with
    | inl s' =>
      have hlt := h s as s' rest hbody
      exact iterateN_eq h hlt (Nat.lt_succ_self _)
    | inr a => rfl
  | _ => rfl

/-- The loop goes on from where a round leaves it. -/
theorem iterate_of_inl (h : Decreases μ body) {s s' : σ} {as rest : List ω}
    (hround : body s as = .done (.inl s') rest) : iterate μ body s as = iterate μ body s' rest := by
  rw [iterate_eq h, bind_apply, hround]
  rfl

/-- The loop ends where a round ends it. -/
theorem iterate_of_inr (h : Decreases μ body) {s : σ} {as rest : List ω} {a : α}
    (hround : body s as = .done (.inr a) rest) : iterate μ body s as = .done a rest := by
  rw [iterate_eq h, bind_apply, hround]
  rfl

/-- What holds of every state of a loop and of what is left holds of its result. -/
theorem iterate_induction {P : σ → List ω → Prop} {Q : α → List ω → Prop}
    (h : Decreases μ body)
    (hinl : ∀ s as s' rest, P s as → body s as = .done (.inl s') rest → P s' rest)
    (hinr : ∀ s as a rest, P s as → body s as = .done (.inr a) rest → Q a rest)
    {s : σ} {as rest : List ω} {a : α} (hs : P s as)
    (hrun : iterate μ body s as = .done a rest) : Q a rest := by
  -- The induction is on the measure: the loop is its body and a loop with a smaller one.
  induction hμ : μ s as using Nat.strongRecOn generalizing s as with
  | ind n ih =>
    rw [iterate_eq h, bind_eq_done] at hrun
    obtain ⟨r, rest₁, hbody, hrun⟩ := hrun
    cases r with
    | inl s' =>
      have hlt := h s as s' rest₁ hbody
      exact ih _ (hμ ▸ hlt) (hinl _ _ _ _ hs hbody) hrun rfl
    | inr a' =>
      cases hrun
      exact hinr _ _ _ _ hs hbody

end

/-! ## Answers are used in order -/

/-- When the process returns, it has used up the first answers, and never looked at the
    others. -/
def Causal (p : Process κ ω ε α) : Prop :=
  ∀ as a rest, p as = .done a rest →
    ∃ used, as = used ++ rest ∧ ∀ rest', p (used ++ rest') = .done a rest'

/-- What only returns asks nothing. -/
theorem causal_pure (a : α) : Causal (pure a : Process κ ω ε α) := by
  intro as a' rest h
  cases h
  exact ⟨[], rfl, fun _ => rfl⟩

/-- What fails asks nothing. -/
theorem causal_fault (e : ε) : Causal (fault e : Process κ ω ε α) := by
  intro as a rest h
  cases h

/-- A single call is asked before it is answered. -/
theorem causal_ask (allows : κ → ω → Bool) (call : κ) :
    Causal (ask allows call : Process κ ω ε ω) := by
  intro as a rest h
  obtain ⟨rfl, hallows⟩ := ask_eq_done.mp h
  exact ⟨[a], rfl, fun rest' => ask_eq_done.mpr ⟨rfl, hallows⟩⟩

/-- A sequence of causal parts is causal. -/
theorem Causal.bind {p : Process κ ω ε α} {f : α → Process κ ω ε β} (hp : Causal p)
    (hf : ∀ a, p.Returns a → Causal (f a)) : Causal (p >>= f) := by
  intro as b rest h
  obtain ⟨a, rest₁, h₁, h₂⟩ := bind_eq_done.mp h
  obtain ⟨used₁, rfl, hused₁⟩ := hp _ _ _ h₁
  obtain ⟨used₂, rfl, hused₂⟩ := hf a ⟨_, _, h₁⟩ _ _ _ h₂
  -- Both parts only look at what they use, so the answers behind do not matter.
  refine ⟨used₁ ++ used₂, (List.append_assoc _ _ _).symm, fun rest' => ?_⟩
  rw [List.append_assoc, bind_eq_done]
  exact ⟨a, used₂ ++ rest', hused₁ _, hused₂ _⟩

/-- A loop with a causal body is causal. -/
theorem Causal.iterate {μ : σ → List ω → Nat} {body : σ → Process κ ω ε (σ ⊕ α)}
    (h : Decreases μ body) (hbody : ∀ s, Causal (body s)) (s : σ) :
    Causal (iterate μ body s) := by
  intro as a rest hrun
  induction hμ : μ s as using Nat.strongRecOn generalizing s as with
  | ind n ih =>
    rw [iterate_eq h, bind_eq_done] at hrun
    obtain ⟨r, rest₁, h₁, hrun⟩ := hrun
    obtain ⟨used₁, rfl, hused₁⟩ := hbody s _ _ _ h₁
    cases r with
    | inl s' =>
      have hlt := h _ _ _ _ h₁
      -- The round and the rest of the loop use their answers one after the other.
      obtain ⟨used₂, rfl, hused₂⟩ := ih _ (hμ ▸ hlt) s' _ hrun rfl
      refine ⟨used₁ ++ used₂, (List.append_assoc _ _ _).symm, fun rest' => ?_⟩
      rw [List.append_assoc, iterate_eq h, bind_eq_done]
      exact ⟨_, _, hused₁ _, hused₂ _⟩
    | inr a' =>
      cases hrun
      refine ⟨used₁, rfl, fun rest' => ?_⟩
      rw [iterate_eq h, bind_eq_done]
      exact ⟨_, _, hused₁ _, rfl⟩

/-! ## Which answer is to blame -/

/-- The process goes wrong, or returns a bad value. -/
def FailsOn (bad : α → Prop) (p : Process κ ω ε α) (as : List ω) : Prop :=
  (∃ e, p as = .fault e) ∨ ∃ a rest, p as = .done a rest ∧ bad a

/-- One of the answers is fatal, and the process waited for it. -/
def Blamed (allows : κ → ω → Bool) (fatal : ω → Prop) (p : Process κ ω ε α) (as : List ω) :
    Prop :=
  ∃ pre a post call, as = pre ++ a :: post ∧ p pre = .waiting call ∧ allows call a ∧ fatal a

/-- The process fails exactly when it is given a fatal answer. -/
structure Exact (allows : κ → ω → Bool) (fatal : ω → Prop) (bad : α → Prop)
    (p : Process κ ω ε α) : Prop where
  causal : Causal p
  fails_iff : ∀ as, FailsOn bad p as ↔ Blamed allows fatal p as

/-- The process fails at once. -/
structure Fails (bad : α → Prop) (p : Process κ ω ε α) : Prop where
  causal : Causal p
  fails : ∀ as, FailsOn bad p as

section
variable {allows : κ → ω → Bool} {fatal : ω → Prop} {bad : α → Prop} {bad' : β → Prop}

/-- A process that has failed does not wait. -/
theorem FailsOn.not_waiting {p : Process κ ω ε α} {as : List ω} (h : FailsOn bad p as)
    (call : κ) : p as ≠ .waiting call := by
  intro hw
  obtain ⟨e, he⟩ | ⟨a, rest, ha, -⟩ := h
  · rw [hw] at he
    cases he
  · rw [hw] at ha
    cases ha

/-- A fault fails whatever comes. -/
theorem fails_fault (bad : α → Prop) (e : ε) : Fails bad (fault e : Process κ ω ε α) :=
  ⟨causal_fault e, fun _ => .inl ⟨e, rfl⟩⟩

/-- A bad result is a failure. -/
theorem fails_pure {a : α} (h : bad a) : Fails bad (pure a : Process κ ω ε α) :=
  ⟨causal_pure a, fun as => .inr ⟨a, as, rfl, h⟩⟩

/-- A result that is not bad is exact: it asks nothing, and nothing fails. -/
theorem exact_pure {a : α} (h : ¬ bad a) :
    Exact allows fatal bad (pure a : Process κ ω ε α) := by
  refine ⟨causal_pure a, fun as => iff_of_false ?_ ?_⟩
  · rintro (⟨e, he⟩ | ⟨a', rest, ha, hbad⟩)
    · cases he
    · cases ha
      exact h hbad
  · intro h
    obtain ⟨pre, b, post, call, -, hw, -⟩ := h
    cases hw

/-- A call returns its answer, which is bad when it is fatal. -/
theorem exact_ask (call : κ) :
    Exact allows fatal fatal (ask allows call : Process κ ω ε ω) := by
  refine ⟨causal_ask allows call, fun as => ⟨?_, ?_⟩⟩
  · rintro (⟨e, he⟩ | ⟨a, rest, ha, hfatal⟩)
    · exact absurd he ask_ne_fault
    · obtain ⟨rfl, hallows⟩ := ask_eq_done.mp ha
      exact ⟨[], a, rest, call, rfl, rfl, hallows, hfatal⟩
  · intro h
    obtain ⟨pre, a, post, call', rfl, hw, hallows, hfatal⟩ := h
    obtain ⟨rfl, rfl⟩ := ask_eq_waiting.mp hw
    exact .inr ⟨a, post, ask_eq_done.mpr ⟨rfl, hallows⟩, hfatal⟩

/-- Sequencing, for the answers `as` only. -/
private theorem fails_iff_bind {p : Process κ ω ε α} {f : α → Process κ ω ε β} {as : List ω}
    (hcausal : Causal p) (hp : FailsOn bad p as ↔ Blamed allows fatal p as)
    (hbad : ∀ a, p.Returns a → bad a → Fails bad' (f a))
    (hf : ∀ a rest, ¬ bad a → p as = .done a rest →
      (FailsOn bad' (f a) rest ↔ Blamed allows fatal (f a) rest)) :
    FailsOn bad' (p >>= f) as ↔ Blamed allows fatal (p >>= f) as := by
  -- A fatal answer to a call of `p` is one to a call of the whole.
  have hfirst : Blamed allows fatal p as → Blamed allows fatal (p >>= f) as := by
    intro h
    obtain ⟨pre, a, post, call, has, hw, hallows⟩ := h
    exact ⟨pre, a, post, call, has, bind_eq_waiting.mpr (.inl hw), hallows⟩
  constructor
  · intro h
    have hsplit : (∃ e, p as = .fault e) ∨
        ∃ a rest, p as = .done a rest ∧ FailsOn bad' (f a) rest := by
      obtain ⟨e, he⟩ | ⟨b, rest, hb, hbad⟩ := h
      · obtain he | ⟨a, rest, ha, he⟩ := bind_eq_fault.mp he
        · exact .inl ⟨e, he⟩
        · exact .inr ⟨a, rest, ha, .inl ⟨e, he⟩⟩
      · obtain ⟨a, rest', ha, hb⟩ := bind_eq_done.mp hb
        exact .inr ⟨a, rest', ha, .inr ⟨b, rest, hb, hbad⟩⟩
    obtain ⟨e, he⟩ | ⟨a, rest, ha, hfails⟩ := hsplit
    · exact hfirst (hp.mp (.inl ⟨e, he⟩))
    by_cases hbada : bad a
    · exact hfirst (hp.mp (.inr ⟨a, rest, ha, hbada⟩))
    · obtain ⟨pre, a', post, call, rfl, hw, hallows⟩ := (hf a rest hbada ha).mp hfails
      obtain ⟨used, rfl, hused⟩ := hcausal _ _ _ ha
      refine ⟨used ++ pre, a', post, call, (List.append_assoc _ _ _).symm, ?_, hallows⟩
      exact bind_eq_waiting.mpr (.inr ⟨a, pre, hused pre, hw⟩)
  · intro h
    obtain ⟨pre, a', post, call, rfl, hw, hallows, hfatal⟩ := h
    obtain hp' | ⟨a, rest, ha, hf'⟩ := bind_eq_waiting.mp hw
    · obtain ⟨e, he⟩ | ⟨a, rest, ha, hbada⟩ :=
        hp.mpr ⟨pre, a', post, call, rfl, hp', hallows, hfatal⟩
      · exact .inl ⟨e, bind_eq_fault.mpr (.inl he)⟩
      · obtain ⟨e, he⟩ | ⟨b, rest', hb, hbadb⟩ := (hbad a ⟨_, _, ha⟩ hbada).fails rest
        · exact .inl ⟨e, bind_eq_fault.mpr (.inr ⟨a, rest, ha, he⟩)⟩
        · exact .inr ⟨b, rest', bind_eq_done.mpr ⟨a, rest, ha, hb⟩, hbadb⟩
    · have hgood : ¬ bad a := fun hbada =>
        ((hbad a ⟨_, _, ha⟩ hbada).fails rest).not_waiting call hf'
      -- `p` returns the same on all the answers, and leaves more of them.
      obtain ⟨used, rfl, hused⟩ := hcausal _ _ _ ha
      have hlong : p (used ++ rest ++ a' :: post) = .done a (rest ++ a' :: post) := by
        rw [List.append_assoc]
        exact hused _
      obtain ⟨e, he⟩ | ⟨b, rest', hb, hbadb⟩ := (hf a _ hgood hlong).mpr
        ⟨rest, a', post, call, rfl, hf', hallows, hfatal⟩
      · exact .inl ⟨e, bind_eq_fault.mpr (.inr ⟨a, _, hlong, he⟩)⟩
      · exact .inr ⟨b, rest', bind_eq_done.mpr ⟨a, _, hlong, hb⟩, hbadb⟩

/-- A sequence is exact if its parts are, and bad results of the first part are failures of the
    rest. -/
theorem Exact.bind {p : Process κ ω ε α} {f : α → Process κ ω ε β}
    (hp : Exact allows fatal bad p) (hbad : ∀ a, p.Returns a → bad a → Fails bad' (f a))
    (hf : ∀ a, p.Returns a → ¬ bad a → Exact allows fatal bad' (f a)) :
    Exact allows fatal bad' (p >>= f) := by
  constructor
  · apply hp.causal.bind
    intro a hreturns
    by_cases hbada : bad a
    · exact (hbad a hreturns hbada).causal
    · exact (hf a hreturns hbada).causal
  · intro as
    exact fails_iff_bind hp.causal (hp.fails_iff as) hbad fun a rest hgood ha =>
      (hf a ⟨_, _, ha⟩ hgood).fails_iff rest

/-- Sequencing after a process that returns nothing bad. -/
theorem Exact.andThen {p : Process κ ω ε α} {f : α → Process κ ω ε β}
    (hp : Exact allows fatal (fun _ => False) p)
    (hf : ∀ a, p.Returns a → Exact allows fatal bad' (f a)) :
    Exact allows fatal bad' (p >>= f) :=
  hp.bind (fun _ _ h => h.elim) fun a h _ => hf a h

/-- A call, and what is done with its answer. -/
theorem exact_ask_bind {call : κ} {f : ω → Process κ ω ε β}
    (hbad : ∀ a, allows call a → fatal a → Fails bad' (f a))
    (hf : ∀ a, allows call a → ¬ fatal a → Exact allows fatal bad' (f a)) :
    Exact allows fatal bad' (ask allows call >>= f) :=
  (exact_ask call).bind (fun a h => hbad a (returns_ask h)) fun a h => hf a (returns_ask h)

/-- A round of a loop is bad when it ends the loop with a bad value. -/
def badRound (bad : α → Prop) : σ ⊕ α → Prop
  | .inl _ => False
  | .inr a => bad a

/-- A loop is exact if its body is, with the bad results of a round as failures. -/
theorem Exact.iterate {μ : σ → List ω → Nat} {body : σ → Process κ ω ε (σ ⊕ α)}
    (h : Decreases μ body) (hbody : ∀ s, Exact allows fatal (badRound bad) (body s)) (s : σ) :
    Exact allows fatal bad (iterate μ body s) := by
  refine ⟨Causal.iterate h (fun s => (hbody s).causal) s, fun as => ?_⟩
  induction hμ : μ s as using Nat.strongRecOn generalizing s as with
  | ind n ih =>
    rw [iterate_eq h]
    refine fails_iff_bind (hbody s).causal ((hbody s).fails_iff as) ?_ ?_
    · rintro (s' | a) - hbad
      · exact hbad.elim
      · exact fails_pure hbad
    · rintro (s' | a) rest hgood hrest
      · exact ih _ (hμ ▸ h _ _ _ _ hrest) s' rest rfl
      · have ha : ¬ bad a := hgood
        exact (exact_pure ha).fails_iff rest

end

/-! ## One answer after the other -/

/-- The process as a machine: a state is the list of the answers so far, and a step is the
    answer to the call that the process waits for. -/
def machine (allows : κ → ω → Bool) (p : Process κ ω ε α) : Machine (List ω) ω Empty Empty where
  step as a :=
    match p as with
    | .waiting call => if allows call a then .ok (as ++ [a], []) else .stuck
    | _ => .stuck

/-- A step of the machine gives the process that waits one more answer. -/
theorem machine_step_eq_ok {allows : κ → ω → Bool} {p : Process κ ω ε α} {as as' : List ω}
    {a : ω} {o : List Empty} :
    (machine allows p).step as a = .ok (as', o) ↔
      (∃ call, p as = .waiting call ∧ allows call a) ∧ as' = as ++ [a] ∧ o = [] := by
  unfold machine
  cases hp : p as with
  | waiting call =>
    simp only [hp, Progress.waiting.injEq, exists_eq_left']
    split
    · simp [*, eq_comm]
    · simp [*]
  | _ => simp [hp]

/-- Answer by answer, the process goes wrong exactly when an answer is fatal. -/
theorem Exact.everyState_iff {allows : κ → ω → Bool} {fatal : ω → Prop} {p : Process κ ω ε α}
    (h : Exact allows fatal (fun _ => False) p) (as : List ω) :
    (machine allows p).EveryState (fun as => ∀ e, p as ≠ .fault e) [] as ↔
      (machine allows p).EveryStep (fun _ a => ¬ fatal a) [] as := by
  have hfault : ∀ as, (∃ e, p as = .fault e) ↔ Blamed allows fatal p as := by
    intro as
    rw [← h.fails_iff as]
    simp [FailsOn]
  apply Machine.everyState_iff_everyStep (I := fun as => ¬ Blamed allows fatal p as)
  · intro h
    obtain ⟨pre, a, post, call, hnil, -⟩ := h
    simp at hnil
  · intro as hI e he
    exact hI ((hfault as).mp ⟨e, he⟩)
  · intro as a as' o hI hfatal hstep h
    obtain ⟨pre, a', post, call, heq, hw, hallows, hfatal'⟩ := h
    obtain ⟨-, rfl, -⟩ := machine_step_eq_ok.mp hstep
    -- The fatal answer is an earlier one, or the last.
    obtain rfl | ⟨post', a'', rfl⟩ := post.eq_nil_or_concat
    · obtain ⟨-, hlast⟩ := List.append_inj' heq rfl
      exact hfatal ((List.cons.inj hlast).1 ▸ hfatal')
    · have hconcat : as ++ [a] = (pre ++ a' :: post') ++ [a''] := by simpa using heq
      obtain ⟨rfl, -⟩ := List.append_inj' hconcat rfl
      exact hI ⟨pre, a', post', call, rfl, hw, hallows, hfatal'⟩
  · rintro as a as' o - hfatal hstep hgood
    obtain ⟨⟨call, hw, hallows⟩, rfl, -⟩ := machine_step_eq_ok.mp hstep
    obtain ⟨e, he⟩ := (hfault (as ++ [a])).mpr
      ⟨as, a, [], call, rfl, hw, hallows, not_not.mp hfatal⟩
    exact hgood e he

end Process

end OsWet
