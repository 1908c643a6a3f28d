import OsWet.ForStd.Machine

/-!
# Triples for code that reads and writes a state

`Triple P x Q` is partial correctness of code that carries a state and can go wrong: from a
state with `P`, if `x` returns a value, then value and final state meet `Q`. Code that
gets stuck or faults meets every triple.

The rules follow the code: `Triple.bind` for sequencing, with what holds in between;
`Triple.anything` for a part of which nothing has to be known.
-/

namespace OsWet

variable {σ ε β γ : Type}

/-- If `x` returns from a state with `P`, the value and the new state meet `Q`. -/
def Triple (P : σ → Prop) (x : StateT σ (Outcome ε) β) (Q : β → σ → Prop) : Prop :=
  ∀ s b s', P s → x.run s = .ok (b, s') → Q b s'

namespace Triple

variable {P : σ → Prop} {Q : β → σ → Prop} {R : γ → σ → Prop}

/-- Nothing is promised about the result. -/
theorem anything (x : StateT σ (Outcome ε) β) : Triple P x fun _ _ => True :=
  fun _ _ _ _ _ => trivial

/-- The rule for returning. -/
theorem pure {b : β} (h : ∀ s, P s → Q b s) : Triple P (pure b : StateT σ (Outcome ε) β) Q := by
  intro s b' s' hs hrun
  cases hrun
  exact h s hs

/-- The rule for a sequence, with what holds between its parts. -/
theorem bind {x : StateT σ (Outcome ε) γ} {f : γ → StateT σ (Outcome ε) β} (hx : Triple P x R)
    (hf : ∀ c, Triple (R c) (f c) Q) : Triple P (x >>= f) Q := by
  intro s b s' hs hrun
  rw [StateT.run_bind] at hrun
  obtain ⟨⟨c, s₁⟩, hfirst, hrest⟩ := Outcome.bind_eq_ok.mp hrun
  exact hf c s₁ b s' (hx s c s₁ hs hfirst) hrest

/-- Sequencing where the first part matters only for the value it hands on. -/
theorem bind_const {p : γ → Prop} {x : StateT σ (Outcome ε) γ}
    {f : γ → StateT σ (Outcome ε) β} (hx : Triple P x fun c _ => p c)
    (hf : ∀ c, p c → Triple (fun _ => True) (f c) Q) : Triple P (x >>= f) Q :=
  hx.bind fun c s b s' hc hrun => hf c hc s b s' trivial hrun

/-- Sequencing where nothing has to be known of the first part. -/
theorem bind_any {x : StateT σ (Outcome ε) γ} {f : γ → StateT σ (Outcome ε) β}
    (hf : ∀ c, Triple (fun _ => True) (f c) Q) : Triple P (x >>= f) Q :=
  (anything x).bind hf

/-- Reading the state changes nothing. -/
theorem get : Triple P (MonadState.get : StateT σ (Outcome ε) σ) fun a s => a = s ∧ P s := by
  intro s a s' hs hrun
  cases hrun
  exact ⟨rfl, hs⟩

/-- Sequencing behind a read of the state of which nothing has to be known. -/
theorem get_bind {f : σ → StateT σ (Outcome ε) β} (hf : ∀ a, Triple P (f a) Q) :
    Triple P (MonadState.get >>= f) Q := by
  intro s b s' hs hrun
  exact hf s s b s' hs hrun

/-- A computation that does not look at the state. -/
theorem lift {x : Outcome ε β} (h : ∀ b s, x = .ok b → P s → Q b s) :
    Triple P (monadLift x : StateT σ (Outcome ε) β) Q := by
  intro s b s' hs hrun
  obtain ⟨c, hx, heq⟩ := Outcome.bind_eq_ok.mp hrun
  cases heq
  exact h b s hx hs

/-- The rule of consequence. -/
theorem mono {P' : σ → Prop} {Q' : β → σ → Prop} {x : StateT σ (Outcome ε) β}
    (h : Triple P' x Q') (hpre : ∀ s, P s → P' s) (hpost : ∀ b s, Q' b s → Q b s) :
    Triple P x Q :=
  fun s b s' hs hrun => hpost b s' (h s b s' (hpre s hs) hrun)

/-- A fact that the code before established about its values. -/
theorem given {q : Prop} {x : StateT σ (Outcome ε) β} (h : q → Triple P x Q) :
    Triple (fun s => P s ∧ q) x Q := by
  intro s b s' hs hrun
  obtain ⟨hs, hq⟩ := hs
  exact h hq s b s' hs hrun

/-- A choice that the code makes on a value it has. -/
theorem ite {c : Prop} [Decidable c] {x y : StateT σ (Outcome ε) β} (hx : c → Triple P x Q)
    (hy : ¬ c → Triple P y Q) : Triple P (if c then x else y) Q := by
  by_cases hc : c
  · rw [if_pos hc]
    exact hx hc
  · rw [if_neg hc]
    exact hy hc

end Triple

end OsWet
