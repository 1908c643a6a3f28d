import OsWet.ForStd.Machine

/-!
# Code that comes to an end

`Ends x Q E s` is total correctness of code that carries a state and can go wrong: from `s`
the code either returns, and then value and state meet `Q`, or it goes wrong, and then the
fault meets `E`. It is never stuck.

If `Q` excludes what `E` says, the two postconditions tell exactly when the code goes wrong:
`Ends.fault_iff`.
-/

namespace OsWet

variable {σ ε β γ : Type}

/-- From `s` the code returns with `Q` or goes wrong with `E`. -/
def Ends (x : StateT σ (Outcome ε) β) (Q : β → σ → Prop) (E : ε → Prop) (s : σ) : Prop :=
  (∃ b s', x.run s = .ok (b, s') ∧ Q b s') ∨ ∃ e, x.run s = .fault e ∧ E e

namespace Ends

variable {Q : β → σ → Prop} {E : ε → Prop} {s : σ}

/-- A computation that only returns ends where it starts. -/
theorem pure {b : β} (h : Q b s) : Ends (pure b : StateT σ (Outcome ε) β) Q E s :=
  .inl ⟨b, s, rfl, h⟩

/-- The rule for a sequence: the rest ends well wherever the first part ends. -/
theorem bind {x : StateT σ (Outcome ε) γ} {f : γ → StateT σ (Outcome ε) β}
    (h : Ends x (fun c => Ends (f c) Q E) E s) : Ends (x >>= f) Q E s := by
  unfold Ends
  rw [StateT.run_bind]
  obtain ⟨c, s', hx, hf⟩ | ⟨e, hx, he⟩ := h
  · rw [hx]
    exact hf
  · rw [hx]
    exact .inr ⟨e, rfl, he⟩

/-- A computation that does not look at the state. -/
theorem lift_ok {x : Outcome ε β} {b : β} (hx : x = .ok b) (h : Q b s) :
    Ends (monadLift x : StateT σ (Outcome ε) β) Q E s := by
  subst hx
  exact .inl ⟨b, s, rfl, h⟩

/-- A fault that is allowed. -/
theorem lift_fault {x : Outcome ε β} {e : ε} (hx : x = .fault e) (h : E e) :
    Ends (monadLift x : StateT σ (Outcome ε) β) Q E s := by
  subst hx
  exact .inr ⟨e, rfl, h⟩

/-- Code that ends is not stuck. -/
theorem ne_stuck {x : StateT σ (Outcome ε) β} (h : Ends x Q E s) : x.run s ≠ .stuck := by
  obtain ⟨b, s', hx, -⟩ | ⟨e, hx, -⟩ := h
  · simp [hx]
  · simp [hx]

/-- What a run that returns has reached. -/
theorem of_ok {x : StateT σ (Outcome ε) β} (h : Ends x Q E s) {b : β} {s' : σ}
    (hrun : x.run s = .ok (b, s')) : Q b s' := by
  obtain ⟨b', s'', hx, hQ⟩ | ⟨e, hx, -⟩ := h
  · cases hx.symm.trans hrun
    exact hQ
  · cases hx.symm.trans hrun

/-- When faults exclude each other and what is returned excludes them, the code goes wrong
    exactly as `E` says. -/
theorem fault_iff {x : StateT σ (Outcome ε) β} (h : Ends x Q E s)
    (hret : ∀ b s', Q b s' → ∀ e, ¬ E e) (hone : ∀ e e', E e → E e' → e = e') (e : ε) :
    x.run s = .fault e ↔ E e := by
  obtain ⟨b, s', hx, hQ⟩ | ⟨e', hx, he'⟩ := h
  · rw [hx]
    exact iff_of_false (fun heq => by cases heq) (hret b s' hQ e)
  · rw [hx]
    constructor
    · intro heq
      cases heq
      exact he'
    · intro he
      rw [hone e e' he he']

end Ends

end OsWet
