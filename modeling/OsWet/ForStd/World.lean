import OsWet.ForStd.Process

/-!
# Processes in a world

What a process does to a world that answers its calls. A world is a rule that says which
answer it can give to a call, and what it is like then; it can leave answers open, so one
process can have many runs.

`RunsIn world p w a w'` says that a run of `p` from `w` can return `a` and leave `w'`. The
rules `runsIn_pure`, `runsIn_ask`, `runsIn_bind` and `runsIn_iterate` take a run apart along
the code, `RunsIn.iterate_induction` carries an invariant through a loop, and
`exists_runsIn_iterate` finds a run of it.
-/

namespace OsWet.Process

universe u v

variable {κ ω ε α β σ : Type u} {W : Type v}

/-! ## Exchanges -/

/-- The process makes exactly these calls, gets these answers, and returns `a`. -/
structure Runs (p : Process κ ω ε α) (tr : List (κ × ω)) (a : α) : Prop where
  returns : p (tr.map Prod.snd) = .done a []
  waits : ∀ pre x post, tr = pre ++ x :: post → p (pre.map Prod.snd) = .waiting x.1

/-- What only returns has an empty trace. -/
theorem runs_pure {a b : α} {tr : List (κ × ω)} :
    (pure a : Process κ ω ε α).Runs tr b ↔ tr = [] ∧ a = b := by
  constructor
  · intro h
    have hreturns := h.returns
    simp only [pure_apply, Progress.done.injEq, List.map_eq_nil_iff] at hreturns
    exact hreturns.symm
  · intro h
    obtain ⟨rfl, rfl⟩ := h
    exact ⟨rfl, fun pre x post h => by simp at h⟩

/-- A call has a trace of one answer that it allows. -/
theorem runs_ask {allows : κ → ω → Bool} {call : κ} {a : ω} {tr : List (κ × ω)} :
    (ask allows call : Process κ ω ε ω).Runs tr a ↔ tr = [(call, a)] ∧ allows call a = true := by
  constructor
  · intro h
    obtain ⟨htr, hallows⟩ := ask_eq_done.mp h.returns
    obtain ⟨x, tr', rfl, rfl, htr'⟩ := List.map_eq_cons_iff.mp htr
    obtain rfl := List.map_eq_nil_iff.mp htr'
    -- The call is what the process waits for before the answer.
    obtain ⟨-, rfl⟩ := ask_eq_waiting.mp (h.waits [] x [] rfl)
    exact ⟨rfl, hallows⟩
  · intro h
    obtain ⟨rfl, hallows⟩ := h
    refine ⟨ask_eq_done.mpr ⟨rfl, hallows⟩, fun pre x post h => ?_⟩
    obtain ⟨rfl, rfl, rfl⟩ : pre = [] ∧ x = (call, a) ∧ post = [] := by
      cases pre with
      | nil => simpa [eq_comm] using h
      | cons y pre => simp at h
    exact ask_eq_waiting.mpr ⟨rfl, rfl⟩

/-- More answers stay unused. -/
theorem Causal.append {p : Process κ ω ε α} (hp : Causal p) {as rest : List ω} {a : α}
    (h : p as = .done a rest) (more : List ω) : p (as ++ more) = .done a (rest ++ more) := by
  obtain ⟨used, rfl, hused⟩ := hp _ _ _ h
  rw [List.append_assoc]
  exact hused (rest ++ more)

/-- A run of two parts is a run of the first and a run of the second. -/
theorem runs_bind {p : Process κ ω ε α} (hp : Causal p) {f : α → Process κ ω ε β}
    {tr : List (κ × ω)} {b : β} :
    (p >>= f).Runs tr b ↔ ∃ tr₁ tr₂ a, tr = tr₁ ++ tr₂ ∧ p.Runs tr₁ a ∧ (f a).Runs tr₂ b := by
  constructor
  · intro h
    obtain ⟨a, rest, hfirst, hrest⟩ := bind_eq_done.mp h.returns
    obtain ⟨used, hsplit, hused⟩ := hp _ _ _ hfirst
    obtain ⟨tr₁, tr₂, rfl, rfl, rfl⟩ := List.map_eq_append_iff.mp hsplit
    have hdone : p (tr₁.map Prod.snd) = .done a [] := by simpa using hused []
    refine ⟨tr₁, tr₂, a, rfl, ⟨hdone, ?_⟩, hrest, ?_⟩
    · rintro pre x post rfl
      have hwait := h.waits pre x (post ++ tr₂) (by simp)
      rcases bind_eq_waiting.mp hwait with hp' | ⟨a', rest', hdone', -⟩
      · exact hp'
      · -- If `p` had returned already, it would leave the other answers.
        have hmore := hp.append hdone' (x.2 :: post.map Prod.snd)
        rw [List.map_append, List.map_cons, hmore] at hdone
        simp at hdone
    · rintro pre x post rfl
      have hwait := h.waits (tr₁ ++ pre) x post (by simp)
      rw [List.map_append, bind_apply, hused] at hwait
      exact hwait
  · intro h
    obtain ⟨tr₁, tr₂, a, rfl, hfirst, hrest⟩ := h
    have hdone : ∀ rest, p (tr₁.map Prod.snd ++ rest) = .done a rest := hp.append hfirst.returns
    constructor
    · rw [List.map_append, bind_apply, hdone]
      exact hrest.returns
    · intro pre x post h
      -- The call is one of the first part, or one of the second.
      rcases List.append_eq_append_iff.mp h with ⟨mid, rfl, hmid⟩ | ⟨mid, rfl, hmid⟩
      · rw [List.map_append, bind_apply, hdone]
        exact hrest.waits mid x post hmid
      · cases mid with
        | nil =>
          have hpre : p (pre.map Prod.snd) = .done a [] := by simpa using hdone []
          rw [bind_apply, hpre]
          exact hrest.waits [] x post hmid.symm
        | cons y mid =>
          obtain ⟨rfl, rfl⟩ := List.cons.inj hmid
          exact bind_eq_waiting.mpr (.inl (hfirst.waits pre x mid rfl))

/-! ## Runs in a world -/

variable (world : W → κ → ω → Option W)

/-- What the world is like after an exchange, if it gives these answers. -/
def follow : W → List (κ × ω) → Option W
  | w, [] => some w
  | w, (call, a) :: tr => (world w call a).bind fun w' => follow w' tr

/-- The process, started in the world `w`, can return `a` and leave the world `w'`. -/
def RunsIn (p : Process κ ω ε α) (w : W) (a : α) (w' : W) : Prop :=
  ∃ tr, p.Runs tr a ∧ follow world w tr = some w'

variable {world}

/-- A world follows two traces one after the other. -/
theorem follow_append {w w' : W} {tr₁ tr₂ : List (κ × ω)} :
    follow world w (tr₁ ++ tr₂) = some w' ↔
      ∃ w₁, follow world w tr₁ = some w₁ ∧ follow world w₁ tr₂ = some w' := by
  induction tr₁ generalizing w with
  | nil => simp [follow]
  | cons x tr₁ ih =>
    simp only [List.cons_append, follow, Option.bind_eq_some_iff, ih]
    grind

/-- What only returns leaves the world as it is. -/
theorem runsIn_pure {a b : α} {w w' : W} :
    RunsIn world (pure a : Process κ ω ε α) w b w' ↔ a = b ∧ w = w' := by
  constructor
  · intro h
    obtain ⟨tr, hruns, hfollow⟩ := h
    obtain ⟨rfl, rfl⟩ := runs_pure.mp hruns
    exact ⟨rfl, Option.some.inj hfollow⟩
  · intro h
    obtain ⟨rfl, rfl⟩ := h
    exact ⟨[], runs_pure.mpr ⟨rfl, rfl⟩, rfl⟩

/-- A call changes the world as its answer says. -/
theorem runsIn_ask {allows : κ → ω → Bool} {call : κ} {a : ω} {w w' : W} :
    RunsIn world (ask allows call : Process κ ω ε ω) w a w' ↔
      allows call a = true ∧ world w call a = some w' := by
  constructor
  · intro h
    obtain ⟨tr, hruns, hfollow⟩ := h
    obtain ⟨rfl, hallows⟩ := runs_ask.mp hruns
    refine ⟨hallows, ?_⟩
    simpa [follow] using hfollow
  · intro h
    obtain ⟨hallows, hworld⟩ := h
    refine ⟨[(call, a)], runs_ask.mpr ⟨rfl, hallows⟩, ?_⟩
    simpa [follow] using hworld

/-- A process that fails returns in no world. -/
theorem not_runsIn_fault {e : ε} {a : α} {w w' : W} :
    ¬ RunsIn world (fault e : Process κ ω ε α) w a w' := by
  intro h
  obtain ⟨tr, hruns, -⟩ := h
  have hreturns := hruns.returns
  rw [fault_apply] at hreturns
  cases hreturns

/-- A sequence returns in a world if its parts do, one after the other. -/
theorem runsIn_bind {p : Process κ ω ε α} (hp : Causal p) {f : α → Process κ ω ε β} {b : β}
    {w w' : W} : RunsIn world (p >>= f) w b w' ↔
      ∃ a w₁, RunsIn world p w a w₁ ∧ RunsIn world (f a) w₁ b w' := by
  constructor
  · intro h
    obtain ⟨tr, hruns, hfollow⟩ := h
    obtain ⟨tr₁, tr₂, a, rfl, hruns₁, hruns₂⟩ := (runs_bind hp).mp hruns
    obtain ⟨w₁, hfollow₁, hfollow₂⟩ := follow_append.mp hfollow
    exact ⟨a, w₁, ⟨tr₁, hruns₁, hfollow₁⟩, ⟨tr₂, hruns₂, hfollow₂⟩⟩
  · intro h
    obtain ⟨a, w₁, ⟨tr₁, hruns₁, hfollow₁⟩, ⟨tr₂, hruns₂, hfollow₂⟩⟩ := h
    exact ⟨tr₁ ++ tr₂, (runs_bind hp).mpr ⟨tr₁, tr₂, a, rfl, hruns₁, hruns₂⟩,
      follow_append.mpr ⟨w₁, hfollow₁, hfollow₂⟩⟩

/-- Two parts that return, one after the other. -/
theorem RunsIn.bind {p : Process κ ω ε α} (hp : Causal p) {f : α → Process κ ω ε β} {a : α}
    {b : β} {w w₁ w' : W} (h : RunsIn world p w a w₁) (h' : RunsIn world (f a) w₁ b w') :
    RunsIn world (p >>= f) w b w' :=
  (runsIn_bind hp).mpr ⟨a, w₁, h, h'⟩

/-- A run of one part, after which only a value is returned. -/
theorem RunsIn.thenReturn {p : Process κ ω ε α} (hp : Causal p) {f : α → Process κ ω ε β} {a : α}
    {b : β} {w w' : W} (h : RunsIn world p w a w') (hf : f a = pure b) :
    RunsIn world (p >>= f) w b w' :=
  h.bind hp (hf ▸ runsIn_pure.mpr ⟨rfl, rfl⟩)

/-! ## Loops -/

section Loops

variable {μ : σ → List ω → Nat} {body : σ → Process κ ω ε (σ ⊕ α)}

/-- A run of a loop is a round, and a run of the loop again unless the round ends it. -/
theorem runsIn_iterate (h : Decreases μ body) (hbody : ∀ s, Causal (body s)) {s : σ} {a : α}
    {w w' : W} : RunsIn world (iterate μ body s) w a w' ↔
      ∃ r w₁, RunsIn world (body s) w r w₁ ∧
        RunsIn world (Sum.elim (iterate μ body) pure r) w₁ a w' := by
  rw [iterate_eq h, runsIn_bind (hbody s)]

/-- What every round keeps holds at the end of the loop. -/
theorem RunsIn.iterate_induction {I : σ → W → Prop} {Q : α → W → Prop} (h : Decreases μ body)
    (hbody : ∀ s, Causal (body s))
    (hinl : ∀ s w s' w', I s w → RunsIn world (body s) w (.inl s') w' → I s' w')
    (hinr : ∀ s w a w', I s w → RunsIn world (body s) w (.inr a) w' → Q a w')
    {s : σ} {a : α} {w w' : W} (hs : I s w) (hrun : RunsIn world (iterate μ body s) w a w') :
    Q a w' := by
  obtain ⟨tr, hruns, hfollow⟩ := hrun
  -- The induction is on the measure for the answers that are left.
  induction hμ : μ s (tr.map Prod.snd) using Nat.strongRecOn generalizing s w tr with
  | ind n ih =>
    rw [iterate_eq h] at hruns
    obtain ⟨tr₁, tr₂, r, rfl, hround, hrest⟩ := (runs_bind (hbody s)).mp hruns
    obtain ⟨w₁, hfollow₁, hfollow₂⟩ := follow_append.mp hfollow
    cases r with
    | inl s' =>
      have hdone := (hbody s).append hround.returns (tr₂.map Prod.snd)
      rw [← List.map_append, List.nil_append] at hdone
      have hlt := h _ _ _ _ hdone
      exact ih _ (hμ ▸ hlt) (hinl s w s' w₁ hs ⟨tr₁, hround, hfollow₁⟩) tr₂ hrest hfollow₂ rfl
    | inr a' =>
      obtain ⟨rfl, rfl⟩ := runs_pure.mp hrest
      cases hfollow₂
      exact hinr s w _ _ hs ⟨tr₁, hround, hfollow₁⟩

/-- A loop can end if each of its rounds can end it or come closer to its end. -/
theorem exists_runsIn_iterate {I : σ → W → Prop} {Q : α → W → Prop} (h : Decreases μ body)
    (hbody : ∀ s, Causal (body s)) (m : σ → W → Nat)
    (hround : ∀ s w, I s w →
      (∃ s' w', RunsIn world (body s) w (.inl s') w' ∧ I s' w' ∧ m s' w' < m s w) ∨
        ∃ a w', RunsIn world (body s) w (.inr a) w' ∧ Q a w')
    {s : σ} {w : W} (hs : I s w) : ∃ a w', RunsIn world (iterate μ body s) w a w' ∧ Q a w' := by
  induction hm : m s w using Nat.strongRecOn generalizing s w with
  | ind n ih =>
    rcases hround s w hs with ⟨s', w₁, hrun, hs', hlt⟩ | ⟨a, w', hrun, ha⟩
    · obtain ⟨a, w', hrest, ha⟩ := ih _ (hm ▸ hlt) hs' rfl
      exact ⟨a, w', (runsIn_iterate h hbody).mpr ⟨_, w₁, hrun, hrest⟩, ha⟩
    · exact ⟨a, w', (runsIn_iterate h hbody).mpr ⟨_, w', hrun, runsIn_pure.mpr ⟨rfl, rfl⟩⟩, ha⟩

end Loops

end OsWet.Process
