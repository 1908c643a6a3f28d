import OsWet.ForStd.Ends
import OsWet.ForStd.HeapLive
import OsWet.Native.ServerStart

/-!
# The start of the server

Which allocations the start of the server survives, and what it leaves behind. Two blocks are
used without a look at what `malloc` returned, and the name of the policy is copied to an array
of 7 bytes; apart from that the start touches only what is allocated, writes no array out of its
bounds, and reads no entry that was not written.

- `start_fault_iff`: when the start goes wrong, and how
- `start_outcome`: where it gets otherwise, with which threads, and what is never freed
-/

namespace OsWet.ServerStart

open Text ThreadPool

variable {env : StartEnv} {s s' : StartState} {a : Nat}

/-! ## Memory -/

/-- One block was written, allocated or freed. -/
structure Sets (s s' : StartState) (a : Nat) (v : Option Block) : Prop where
  cell : s'.heap.cell = Function.update s.heap.cell a v
  started : s'.started = s.started

namespace Sets

variable {v w : Option Block} {b : Nat}

/-- What the cell holds afterwards. -/
theorem self (h : Sets s s' a v) : s'.heap.cell a = v := by
  rw [h.cell, Function.update_self]

/-- The other cells are as they were. -/
theorem of_ne (h : Sets s s' a v) (hne : b ≠ a) : s'.heap.cell b = s.heap.cell b := by
  rw [h.cell, Function.update_of_ne hne]

/-- An allocation keeps the other blocks. -/
theorem keeps {block : Block} (h : Sets s s' a v) (hfresh : s.heap.cell a = none)
    (hb : s.heap.cell b = some block) : s'.heap.cell b = some block := by
  rw [h.of_ne, hb]
  rintro rfl
  rw [hfresh] at hb
  cases hb

end Sets

section Rules

variable {E : StartFault → Prop} {block : Block}

/-- A fault that is allowed. -/
theorem ends_fail {β : Type} {Q : β → StartState → Prop} {e : StartFault} (h : E e) :
    Ends (fail e) Q E s :=
  .inr ⟨e, rfl, h⟩

/-- An allocation gives a block that was not there, or the null pointer. -/
theorem ends_malloc {Q : Ptr → StartState → Prop}
    (hok : ∀ a s', env.mallocOk s.mallocs = true → s.heap.cell a = none →
      Sets s s' a (some block) → s'.mallocs = s.mallocs + 1 → Q (some a) s')
    (hnull : ∀ s', env.mallocOk s.mallocs = false → s'.heap.cell = s.heap.cell →
      s'.started = s.started → s'.mallocs = s.mallocs + 1 → Q none s') :
    Ends (malloc env block) Q E s := by
  cases hanswer : env.mallocOk s.mallocs with
  | true =>
    refine .inl ⟨some s.heap.next, _, ?_, hok s.heap.next
      ⟨(s.heap.alloc block).2, s.mallocs + 1, s.started⟩ hanswer (s.heap.fresh _ le_rfl)
      ⟨rfl, rfl⟩ rfl⟩
    simp [malloc, hanswer]
    rfl
  | false =>
    refine .inl ⟨none, _, ?_, hnull ⟨s.heap, s.mallocs + 1, s.started⟩ hanswer rfl rfl rfl⟩
    simp [malloc, hanswer]
    rfl

/-- Reading a block that is there. -/
theorem ends_loadBlock {Q : Block → StartState → Prop} (ha : s.heap.cell a = some block)
    (h : Q block s) : Ends (loadBlock (some a)) Q E s :=
  .inl ⟨block, s, by simp [loadBlock, Heap.load_eq_ok ha, onMemory], h⟩

/-- Writing a block that is there. -/
theorem ends_store {Q : Unit → StartState → Prop} {block' : Block}
    (ha : s.heap.cell a = some block)
    (h : ∀ s', Sets s s' a (some block') → s'.mallocs = s.mallocs → Q () s') :
    Ends (storeBlock (some a) block') Q E s := by
  refine .inl ⟨(), _, ?_, h ⟨s.heap.setCell a (some block') (Heap.lt_next ha), s.mallocs, s.started⟩
    ⟨rfl, rfl⟩ rfl⟩
  simp [storeBlock, Heap.store_eq_ok ha, onMemory]

/-- Freeing a block that is there. -/
theorem ends_free {Q : Unit → StartState → Prop} (ha : s.heap.cell a = some block)
    (h : ∀ s', Sets s s' a none → s'.mallocs = s.mallocs → Q () s') :
    Ends (free (some a)) Q E s := by
  refine .inl ⟨(), _, ?_, h ⟨s.heap.setCell a none (Heap.lt_next ha), s.mallocs, s.started⟩
    ⟨rfl, rfl⟩ rfl⟩
  simp [free, Heap.free_eq_ok ha, onMemory]

/-- Reading the thread pool. -/
theorem ends_loadPool {Q : ThreadPool → StartState → Prop} {pool : ThreadPool}
    (ha : s.heap.cell a = some (.pool pool)) (h : Q pool s) : Ends (loadPool (some a)) Q E s :=
  .bind (ends_loadBlock ha (.pure h))

/-- Writing an entry of an array. -/
theorem ends_writeArray {Q : Unit → StartState → Prop} {length i : Nat}
    {entries : Nat → Option Entry} {entry : Option Entry}
    (ha : s.heap.cell a = some (.array length entries)) (hi : i < length)
    (h : ∀ s', Sets s s' a (some (.array length (Function.update entries i entry))) →
      s'.mallocs = s.mallocs → Q () s') :
    Ends (writeArray (some a) i entry) Q E s := by
  apply Ends.bind
  apply ends_loadBlock ha
  simp only [hi, if_true]
  exact ends_store ha h

/-- Reading an entry that was written. -/
theorem ends_readArray {Q : Entry → StartState → Prop} {length i : Nat}
    {entries : Nat → Option Entry} {entry : Entry}
    (ha : s.heap.cell a = some (.array length entries)) (hi : i < length)
    (hentry : entries i = some entry) (h : Q entry s) : Ends (readArray (some a) i) Q E s := by
  apply Ends.bind
  apply ends_loadBlock ha
  simp only [hi, if_true, hentry]
  exact .pure h

/-- Reading an entry of the array of functions. -/
theorem ends_readFunction {Q : ThreadFunction → StartState → Prop} {length i : Nat}
    {entries : Nat → Option Entry} {f : ThreadFunction}
    (ha : s.heap.cell a = some (.array length entries)) (hi : i < length)
    (hentry : entries i = some (.function f)) (h : Q f s) :
    Ends (readFunction (some a) i) Q E s :=
  .bind (ends_readArray ha hi hentry (.pure h))

/-- Reading an entry of the array of arguments. -/
theorem ends_readArg {Q : Ptr → StartState → Prop} {length i : Nat}
    {entries : Nat → Option Entry} {arg : Ptr}
    (ha : s.heap.cell a = some (.array length entries)) (hi : i < length)
    (hentry : entries i = some (.arg arg)) (h : Q arg s) : Ends (readArg (some a) i) Q E s :=
  .bind (ends_readArray ha hi hentry (.pure h))

/-- A thread is started, or not, and the memory stays as it is. -/
theorem ends_pthreadCreate {Q : Option Entry → StartState → Prop} {i : Nat} {f : ThreadFunction}
    {args : Ptr} (h : ∀ entry s', s'.heap = s.heap → s'.started =
      s.started ++ (if (env.pthreadCreate i).isSome then [(f, args)] else []) → Q entry s') :
    Ends (pthreadCreate env i f args) Q E s := by
  unfold pthreadCreate
  cases hanswer : env.pthreadCreate i with
  | none => exact .pure (h none s rfl (by simp [hanswer]))
  | some tid =>
    exact .inl ⟨some (.thread tid), { s with started := s.started ++ [(f, args)] }, rfl,
      h _ _ rfl (by simp [hanswer])⟩

/-- The counter of a loop goes up, or is too large for an `int`. -/
theorem ends_next {Q : Nat → StartState → Prop} {i : Nat} (hlt : i < INT_MAX → Q (i + 1) s)
    (hmax : ¬ i < INT_MAX → E .overflow) : Ends (next i) Q E s := by
  unfold next
  split
  · exact .pure (hlt ‹_›)
  · exact ends_fail (hmax ‹_›)

end Rules

/-! ## The thread pool -/

/-- The addresses of the blocks of a pool. -/
structure PoolAt where
  tp : Nat
  functions : Nat
  args : Nat
  threads : Nat

/-- The pool, with the arguments of the threads that were added to it. -/
structure IsPool (s : StartState) (p : PoolAt) (capacity : Nat) (params : List Nat) : Prop where
  pool : s.heap.cell p.tp =
    some (.pool ⟨capacity, params.length, some p.functions, some p.args, some p.threads⟩)
  functions : ∃ entries, s.heap.cell p.functions = some (.array capacity entries) ∧
    ∀ i < params.length, entries i = some (.function .workerThreadJob)
  args : ∃ entries, s.heap.cell p.args = some (.array capacity entries) ∧
    ∀ i q, params[i]? = some q → entries i = some (.arg (some q))
  threads : ∃ entries, s.heap.cell p.threads = some (.array capacity entries)
  distinct : p.functions ≠ p.args ∧ p.functions ≠ p.threads ∧ p.args ≠ p.threads
  le : params.length ≤ capacity

/-- Blocks of different contents are at different addresses. -/
theorem ne_of_cell {b : Nat} {v w : Option Block} (ha : s.heap.cell a = v)
    (hb : s.heap.cell b = w) (hne : v ≠ w) : a ≠ b := by
  rintro rfl
  exact hne (ha.symm.trans hb)

/-- The four allocations of `ThreadPoolCreate` succeed. -/
def poolOk (env : StartEnv) (mallocs : Nat) : Bool :=
  env.mallocOk mallocs && env.mallocOk (mallocs + 1) && env.mallocOk (mallocs + 2) &&
    env.mallocOk (mallocs + 3)

/-- A pool was created, in four new blocks. -/
structure Created (s s' : StartState) (p : PoolAt) (capacity : Nat) : Prop where
  isPool : IsPool s' p capacity []
  fresh : s.heap.cell p.tp = none ∧ s.heap.cell p.functions = none ∧
    s.heap.cell p.args = none ∧ s.heap.cell p.threads = none
  others : ∀ b, b ≠ p.tp → b ≠ p.functions → b ≠ p.args → b ≠ p.threads →
    s'.heap.cell b = s.heap.cell b
  started : s'.started = s.started

/-- A memory in which some blocks that were not there before are gone again. -/
theorem eq_of_freed {cell cell' : Nat → Option Block} (l : List Nat)
    (hnone : ∀ b ∈ l, cell' b = none ∧ cell b = none) (hother : ∀ b ∉ l, cell' b = cell b) :
    cell' = cell := by
  funext b
  by_cases hb : b ∈ l
  · rw [(hnone b hb).1, (hnone b hb).2]
  · exact hother b hb

/-- Without the fourth block all others are given back. -/
theorem ends_threadPoolCreate {capacity : Nat} {Q : Ptr → StartState → Prop}
    {E : StartFault → Prop}
    (hok : ∀ p s', poolOk env s.mallocs = true → Created s s' p capacity →
      s'.mallocs = s.mallocs + 4 → Q (some p.tp) s')
    (hnull : ∀ s', poolOk env s.mallocs = false → s'.heap.cell = s.heap.cell →
      s'.started = s.started → Q none s') :
    Ends (threadPoolCreate env capacity) Q E s := by
  -- Each `malloc` has two ends: the failing one gives back what there is, the other goes on.
  apply Ends.bind
  apply ends_malloc
  case hnull =>
    intro s₁ hanswer hcell hstarted _
    exact .pure (hnull s₁ (by simp [poolOk, hanswer]) hcell hstarted)
  intro tp s₁ hanswer₁ hfresh₁ h₁ hmallocs₁
  apply Ends.bind
  apply ends_malloc
  case hnull =>
    intro s₂ hanswer hcell hstarted _
    rw [hmallocs₁] at hanswer
    apply Ends.bind
    apply ends_free (by rw [hcell, h₁.self])
    intro s₃ h₃ _
    -- The pool was not there before, so freeing it restores the heap.
    refine .pure (hnull s₃ (by simp [poolOk, hanswer]) ?_ ?_)
    · rw [h₃.cell, hcell, h₁.cell, Function.update_idem, ← hfresh₁, Function.update_eq_self]
    · rw [h₃.started, hstarted, h₁.started]
  -- What the second block is known by: it is new, and the first one is still there.
  intro functions s₂ hanswer₂ hfresh₂ h₂ hmallocs₂
  rw [hmallocs₁] at hanswer₂
  have htp₂ := h₂.keeps hfresh₂ h₁.self
  have hne₂ : functions ≠ tp := ne_of_cell hfresh₂ h₁.self (by simp)
  have hold₂ : s.heap.cell functions = none := by rw [← h₁.of_ne hne₂, hfresh₂]
  apply Ends.bind
  apply ends_malloc
  case hnull =>
    intro s₃ hanswer hcell hstarted _
    rw [hmallocs₂, hmallocs₁] at hanswer
    apply Ends.bind
    apply ends_free (by rw [hcell, h₂.self])
    intro s₄ h₄ _
    apply Ends.bind
    apply ends_free (by rw [h₄.of_ne hne₂.symm, hcell, htp₂])
    intro s₅ h₅ _
    -- Both blocks were not there before; every other cell has never been written.
    refine .pure (hnull s₅ (by simp [poolOk, hanswer]) ?_ ?_)
    · apply eq_of_freed [tp, functions]
      · simp [h₅.self, h₅.of_ne hne₂, h₄.self, hfresh₁, hold₂]
      · intro b hb
        simp only [List.mem_cons, List.not_mem_nil, or_false, not_or] at hb
        rw [h₅.of_ne hb.1, h₄.of_ne hb.2, hcell, h₂.of_ne hb.2, h₁.of_ne hb.1]
    · rw [h₅.started, h₄.started, hstarted, h₂.started, h₁.started]
  intro threads s₃ hanswer₃ hfresh₃ h₃ hmallocs₃
  rw [hmallocs₂, hmallocs₁] at hanswer₃
  have htp₃ := h₃.keeps hfresh₃ htp₂
  have hfunctions₃ := h₃.keeps hfresh₃ h₂.self
  have hne₃ : threads ≠ tp := ne_of_cell hfresh₃ htp₂ (by simp)
  have hne₃' : threads ≠ functions := ne_of_cell hfresh₃ h₂.self (by simp)
  have hold₃ : s.heap.cell threads = none := by
    rw [← h₁.of_ne hne₃, ← h₂.of_ne hne₃', hfresh₃]
  apply Ends.bind
  apply ends_malloc
  case hnull =>
    intro s₄ hanswer hcell hstarted _
    rw [hmallocs₃, hmallocs₂, hmallocs₁] at hanswer
    apply Ends.bind
    apply ends_free (by rw [hcell, hfunctions₃])
    intro s₅ h₅ _
    apply Ends.bind
    apply ends_free (by rw [h₅.of_ne hne₃', hcell, h₃.self])
    intro s₆ h₆ _
    apply Ends.bind
    apply ends_free (by rw [h₆.of_ne hne₃.symm, h₅.of_ne hne₂.symm, hcell, htp₃])
    intro s₇ h₇ _
    -- The same with three blocks.
    refine .pure (hnull s₇ (by simp [poolOk, hanswer]) ?_ ?_)
    · apply eq_of_freed [tp, functions, threads]
      · simp [h₇.self, h₇.of_ne hne₂, h₇.of_ne hne₃, h₆.self, h₆.of_ne hne₃'.symm, h₅.self,
          hfresh₁, hold₂, hold₃]
      · intro b hb
        simp only [List.mem_cons, List.not_mem_nil, or_false, not_or] at hb
        rw [h₇.of_ne hb.1, h₆.of_ne hb.2.2, h₅.of_ne hb.2.1, hcell, h₃.of_ne hb.2.2,
          h₂.of_ne hb.2.1, h₁.of_ne hb.1]
    · rw [h₇.started, h₆.started, h₅.started, hstarted, h₃.started, h₂.started, h₁.started]
  intro args s₄ hanswer₄ hfresh₄ h₄ hmallocs₄
  rw [hmallocs₃, hmallocs₂, hmallocs₁] at hanswer₄
  have htp₄ := h₄.keeps hfresh₄ htp₃
  have hne₄ : args ≠ tp := ne_of_cell hfresh₄ htp₃ (by simp)
  have hne₄' : args ≠ functions := ne_of_cell hfresh₄ hfunctions₃ (by simp)
  have hne₄'' : args ≠ threads := ne_of_cell hfresh₄ h₃.self (by simp)
  have hold₄ : s.heap.cell args = none := by
    rw [← h₁.of_ne hne₄, ← h₂.of_ne hne₄', ← h₃.of_ne hne₄'', hfresh₄]
  -- All four blocks are there; the last store writes the record that points at them.
  apply Ends.bind
  apply ends_store htp₄
  intro s₅ h₅ hmallocs₅
  refine .pure (hok ⟨tp, functions, args, threads⟩ s₅ ?_ ?_ ?_)
  · simp [poolOk, hanswer₁, hanswer₂, hanswer₃, hanswer₄]
  · refine ⟨⟨h₅.self, ?_, ?_, ?_, ⟨hne₄'.symm, hne₃'.symm, hne₄''⟩, Nat.zero_le _⟩,
      ⟨hfresh₁, hold₂, hold₄, hold₃⟩, ?_, ?_⟩
    · -- Nothing has been added, so nothing has to be said about the arrays' contents.
      refine ⟨indeterminate, ?_, fun i hi => absurd hi (Nat.not_lt_zero i)⟩
      rw [h₅.of_ne hne₂, h₄.keeps hfresh₄ hfunctions₃]
    · refine ⟨indeterminate, ?_, fun i q hq => by simp at hq⟩
      rw [h₅.of_ne hne₄, h₄.self]
    · exact ⟨indeterminate, by rw [h₅.of_ne hne₃, h₄.keeps hfresh₄ h₃.self]⟩
    · -- A block that is none of the four is as before.
      intro b htp hfunctions hargs hthreads
      rw [h₅.of_ne htp, h₄.of_ne hargs, h₃.of_ne hthreads, h₂.of_ne hfunctions, h₁.of_ne htp]
    · rw [h₅.started, h₄.started, h₃.started, h₂.started, h₁.started]
  · rw [hmallocs₅, hmallocs₄, hmallocs₃, hmallocs₂, hmallocs₁]

/-- The blocks that are there stay as they are. -/
def Kept (s s' : StartState) : Prop :=
  ∀ a block, s.heap.cell a = some block → s'.heap.cell a = some block

/-- A new block changes no other. -/
theorem Sets.kept {block : Block} (h : Sets s s' a (some block))
    (hfresh : s.heap.cell a = none) : Kept s s' :=
  fun _ _ hb => h.keeps hfresh hb

section Pool

variable {p : PoolAt} {capacity : Nat} {params : List Nat} {E : StartFault → Prop}

/-- A thread pool is one as long as its blocks are there. -/
theorem IsPool.kept (h : IsPool s p capacity params) (hkept : Kept s s') :
    IsPool s' p capacity params where
  pool := hkept _ _ h.pool
  functions := h.functions.imp fun _ hf => ⟨hkept _ _ hf.1, hf.2⟩
  args := h.args.imp fun _ ha => ⟨hkept _ _ ha.1, ha.2⟩
  threads := h.threads.imp fun _ ht => hkept _ _ ht
  distinct := h.distinct
  le := h.le

/-- The record of the pool is in none of its arrays. -/
theorem IsPool.tp_ne (h : IsPool s p capacity params) :
    p.tp ≠ p.functions ∧ p.tp ≠ p.args ∧ p.tp ≠ p.threads := by
  obtain ⟨entries, hfunctions, -⟩ := h.functions
  obtain ⟨entries', hargs, -⟩ := h.args
  obtain ⟨entries'', hthreads⟩ := h.threads
  exact ⟨ne_of_cell h.pool hfunctions (by simp), ne_of_cell h.pool hargs (by simp),
    ne_of_cell h.pool hthreads (by simp)⟩

/-- Freeing the pool leaves the array of the arguments. -/
theorem ends_threadPoolFree {Q : Unit → StartState → Prop} (h : IsPool s p capacity params)
    (hQ : ∀ s', (∀ b ∈ [p.tp, p.functions, p.threads], s'.heap.cell b = none) →
      (∀ b ∉ [p.tp, p.functions, p.threads], s'.heap.cell b = s.heap.cell b) →
      s'.started = s.started → Q () s') :
    Ends (threadPoolFree (some p.tp)) Q E s := by
  obtain ⟨entries, hfunctions, -⟩ := h.functions
  obtain ⟨entries', hthreads⟩ := h.threads
  obtain ⟨hne, -, hne'⟩ := h.tp_ne
  have hne'' := h.distinct.2.1
  apply Ends.bind
  apply ends_loadPool h.pool
  apply Ends.bind
  apply ends_free hfunctions
  intro s₁ h₁ _
  apply Ends.bind
  apply ends_free (by rw [h₁.of_ne hne''.symm, hthreads])
  intro s₂ h₂ _
  apply ends_free (by rw [h₂.of_ne hne', h₁.of_ne hne, h.pool])
  intro s₃ h₃ _
  apply hQ
  · -- The three freed blocks are gone; every other block is as before.
    simp [h₃.self, h₃.of_ne hne.symm, h₃.of_ne hne'.symm, h₂.self, h₂.of_ne hne'', h₁.self]
  · intro b hb
    simp only [List.mem_cons, List.not_mem_nil, or_false, not_or] at hb
    rw [h₃.of_ne hb.1, h₂.of_ne hb.2.2, h₁.of_ne hb.2.1]
  · rw [h₃.started, h₂.started, h₁.started]

/-- A thread that is added stands behind the others. -/
theorem ends_tpAddThread {Q : Int → StartState → Prop} {q : Nat}
    (h : IsPool s p capacity params) (hroom : params.length < capacity)
    (hQ : ∀ s', IsPool s' p capacity (params ++ [q]) →
      (∀ b ∉ [p.tp, p.functions, p.args], s'.heap.cell b = s.heap.cell b) →
      s'.started = s.started → s'.mallocs = s.mallocs → Q params.length s') :
    Ends (tpAddThread (some p.tp) .workerThreadJob (some q)) Q E s := by
  obtain ⟨functions, hfunctions, hadded⟩ := h.functions
  obtain ⟨args, hargs, hgiven⟩ := h.args
  obtain ⟨threads, hthreads⟩ := h.threads
  obtain ⟨hne, hne', hne''⟩ := h.tp_ne
  obtain ⟨hdistinct, hdistinct', hdistinct''⟩ := h.distinct
  apply Ends.bind
  apply ends_loadPool h.pool
  -- The count is written first, so that its old value is the index.
  apply Ends.bind
  apply ends_store h.pool
  intro s₁ h₁ hmallocs₁
  apply Ends.bind
  apply ends_writeArray (by rw [h₁.of_ne hne.symm, hfunctions]) hroom
  intro s₂ h₂ hmallocs₂
  apply Ends.bind
  apply ends_writeArray (by rw [h₂.of_ne hdistinct.symm, h₁.of_ne hne'.symm, hargs]) hroom
  intro s₃ h₃ hmallocs₃
  -- Count, functions, arguments, threads: each store leaves the other three blocks.
  refine .pure (hQ s₃ ⟨?_, ?_, ?_, ?_, h.distinct, ?_⟩ ?_ ?_ ?_)
  · rw [h₃.of_ne hne', h₂.of_ne hne, h₁.self, List.length_append]
    rfl
  · refine ⟨_, by rw [h₃.of_ne hdistinct, h₂.self], fun i hi => ?_⟩
    rw [List.length_append, List.length_singleton] at hi
    -- The new entry is the last one, the others are as before.
    by_cases hlast : i = params.length
    · rw [hlast, Function.update_self]
    · rw [Function.update_of_ne hlast]
      exact hadded i (by omega)
  · refine ⟨_, h₃.self, fun i r hr => ?_⟩
    by_cases hlast : i = params.length
    · subst hlast
      rw [List.getElem?_concat_length] at hr
      rw [Function.update_self, ← Option.some.inj hr]
    · rw [Function.update_of_ne hlast]
      have hi := (List.getElem?_eq_some_iff.mp hr).1
      rw [List.length_append, List.length_singleton] at hi
      rw [List.getElem?_append_left (by omega)] at hr
      exact hgiven i r hr
  · refine ⟨threads, ?_⟩
    rw [h₃.of_ne hdistinct''.symm, h₂.of_ne hdistinct'.symm, h₁.of_ne hne''.symm, hthreads]
  · rw [List.length_append, List.length_singleton]
    omega
  · -- No other block is written.
    intro b hb
    simp only [List.mem_cons, List.not_mem_nil, or_false, not_or] at hb
    rw [h₃.of_ne hb.2.2, h₂.of_ne hb.2.1, h₁.of_ne hb.1]
  · rw [h₃.started, h₂.started, h₁.started]
  · rw [hmallocs₃, hmallocs₂, hmallocs₁]

end Pool

/-! ## The workers -/

/-- The pool with its workers: the queue, and what each worker is given. -/
structure Ready (s : StartState) (p : PoolAt) (capacity queue : Nat) (mq : MessageQueue)
    (params : List Nat) : Prop extends IsPool s p capacity params where
  holdsQueue : s.heap.cell queue = some (.queue mq)
  given : ∀ i q : Nat, params[i]? = some q → s.heap.cell q = some (.params ⟨some queue, i⟩)

/-- How many of the next allocations succeed in a row. -/
def workerCount (mallocOk : Nat → Bool) (mallocs : Nat) : Nat → Nat
  | 0 => 0
  | n + 1 => if mallocOk mallocs then workerCount mallocOk (mallocs + 1) n + 1 else 0

section Workers

variable {p : PoolAt} {capacity queue : Nat} {mq : MessageQueue} {params : List Nat}
  {E : StartFault → Prop}

/-- The structures are ready as long as their blocks are there. -/
theorem Ready.kept (h : Ready s p capacity queue mq params) (hkept : Kept s s') :
    Ready s' p capacity queue mq params where
  toIsPool := h.toIsPool.kept hkept
  holdsQueue := hkept _ _ h.holdsQueue
  given i q hq := hkept _ _ (h.given i q hq)

/-- A worker that is added is given its place. -/
theorem Ready.add (h : Ready s p capacity queue mq params) {q : Nat}
    (hq : s.heap.cell q = some (.params ⟨some queue, params.length⟩))
    (hpool : IsPool s' p capacity (params ++ [q]))
    (hothers : ∀ b ∉ [p.tp, p.functions, p.args], s'.heap.cell b = s.heap.cell b) :
    Ready s' p capacity queue mq (params ++ [q]) where
  toIsPool := hpool
  holdsQueue := by
    -- The new parameters are none of the blocks of the pool either.
    rw [hothers, h.holdsQueue]
    -- The queue is neither the pool nor one of its arrays.
    obtain ⟨functions, hfunctions, -⟩ := h.functions
    obtain ⟨args, hargs, -⟩ := h.args
    simp [ne_of_cell h.holdsQueue h.pool (by simp), ne_of_cell h.holdsQueue hfunctions (by simp),
      ne_of_cell h.holdsQueue hargs (by simp)]
  given i r hr := by
    obtain ⟨functions, hfunctions, -⟩ := h.functions
    obtain ⟨args, hargs, -⟩ := h.args
    -- The last parameters are the new ones; earlier ones were known before.
    have hcell : s.heap.cell r = some (.params ⟨some queue, i⟩) := by
      by_cases hlast : i = params.length
      · subst hlast
        rw [List.getElem?_concat_length] at hr
        rw [← Option.some.inj hr, hq]
      · have hi := (List.getElem?_eq_some_iff.mp hr).1
        rw [List.length_append, List.length_singleton] at hi
        rw [List.getElem?_append_left (by omega)] at hr
        exact h.given i r hr
    rw [hothers, hcell]
    simp [ne_of_cell hcell h.pool (by simp), ne_of_cell hcell hfunctions (by simp),
      ne_of_cell hcell hargs (by simp)]

/-- The loop of `initWorkerThreads` adds a worker for each allocation that succeeds, up to the
    first one that does not. -/
theorem ends_initWorkerLoop {fuel : Nat} {Q : Unit → StartState → Prop}
    (h : Ready s p capacity queue mq params) (hfuel : capacity < fuel + params.length)
    (hmax : params.length ≤ INT_MAX)
    (hQ : ∀ s' params', params'.length =
        params.length + workerCount env.mallocOk s.mallocs (capacity - params.length) →
      params'.length ≤ INT_MAX → Ready s' p capacity queue mq params' →
      s'.started = s.started → Q () s')
    (hE : INT_MAX < params.length +
      workerCount env.mallocOk s.mallocs (capacity - params.length) → E .overflow) :
    Ends (initWorkerLoop env (some p.tp) (some queue) fuel params.length) Q E s := by
  -- By induction on the fuel, which is more than the free places of the pool.
  induction fuel generalizing s params with
  | zero =>
    have hle := h.le
    omega
  | succ fuel ih =>
    apply Ends.bind
    apply Ends.bind
    apply ends_loadPool h.pool
    apply Ends.pure
    by_cases hroom : params.length < capacity
    · -- There is a free place: the count of workers unfolds once.
      obtain ⟨n, hn⟩ : ∃ n, capacity - params.length = n + 1 :=
        ⟨capacity - params.length - 1, by omega⟩
      rw [hn, workerCount] at hQ hE
      rw [if_pos hroom]
      apply Ends.bind
      apply ends_malloc
      -- No memory for the parameters: the loop stops with the workers it has.
      case hnull =>
        intro s₁ hanswer hcell hstarted _
        rw [hanswer] at hQ
        have hkept : Kept s s₁ := fun b block hb => by rw [hcell, hb]
        exact .pure (hQ s₁ params rfl hmax (h.kept hkept) hstarted)
      intro q s₁ hanswer hfresh h₁ hmallocs₁
      rw [hanswer] at hQ hE
      have hready₁ := h.kept (h₁.kept hfresh)
      apply Ends.bind
      apply ends_tpAddThread hready₁.toIsPool hroom
      intro s₂ hpool₂ hothers₂ hstarted₂ hmallocs₂
      have hready₂ := hready₁.add h₁.self hpool₂ hothers₂
      have hlength : (params ++ [q]).length = params.length + 1 := by simp
      have hrest : capacity - (params ++ [q]).length = n := by omega
      apply Ends.bind
      apply ends_next
      · intro hlt
        rw [← hlength]
        -- The rest of the loop is about one worker more and one free place less.
        refine ih hready₂ (by omega) (by omega) ?_ ?_
        · intro s' params' hcount hle hready hstarted
          rw [hrest, hmallocs₂, hmallocs₁, hlength] at hcount
          refine hQ s' params' ?_ hle hready ?_
          · rw [if_pos rfl, hcount]
            omega
          · rw [hstarted, hstarted₂, h₁.started]
        · rw [hrest, hmallocs₂, hmallocs₁, hlength]
          intro hover
          apply hE
          rw [if_pos rfl]
          omega
      · -- One worker too many for the array of statistics.
        intro hlast
        apply hE
        rw [if_pos rfl]
        omega
    · -- The pool is full.
      rw [if_neg hroom]
      have hn : capacity - params.length = 0 := by omega
      rw [hn, workerCount] at hQ
      exact .pure (hQ s params rfl hmax h rfl)

/-- Writing to the array of the threads keeps everything else. -/
theorem Ready.setThread (h : Ready s p capacity queue mq params) {entries : Nat → Option Entry}
    (hself : s'.heap.cell p.threads = some (.array capacity entries))
    (hothers : ∀ b, b ≠ p.threads → s'.heap.cell b = s.heap.cell b) :
    Ready s' p capacity queue mq params := by
  obtain ⟨functions, hfunctions, hadded⟩ := h.functions
  obtain ⟨args, hargs, hgiven⟩ := h.args
  obtain ⟨threads, hthreads⟩ := h.threads
  obtain ⟨-, hne, hne'⟩ := h.distinct
  refine ⟨⟨?_, ?_, ?_, ⟨entries, hself⟩, h.distinct, h.le⟩, ?_, fun i q hq => ?_⟩
  · rw [hothers _ h.tp_ne.2.2, h.pool]
  · exact ⟨functions, by rw [hothers _ hne, hfunctions], hadded⟩
  · exact ⟨args, by rw [hothers _ hne', hargs], hgiven⟩
  · rw [hothers _ (ne_of_cell h.holdsQueue hthreads (by simp)), h.holdsQueue]
  · rw [hothers _ (ne_of_cell (h.given i q hq) hthreads (by simp)), h.given i q hq]

/-- The threads that are started from the place `i` on. -/
def startedFrom (env : StartEnv) (params : List Nat) (i : Nat) : List (ThreadFunction × Ptr) :=
  ((List.range' i (params.length - i)).filter fun j => (env.pthreadCreate j).isSome).map
    fun j => (.workerThreadJob, params[j]?)

/-- The loop of `TPSignalStartAll` starts the threads in the order in which they were added. -/
theorem ends_signalStartLoop {fuel i : Nat} {Q : Unit → StartState → Prop}
    (h : Ready s p capacity queue mq params) (hi : i ≤ params.length)
    (hfuel : params.length < fuel + i) (hmax : params.length ≤ INT_MAX)
    (hQ : ∀ s', Ready s' p capacity queue mq params →
      s'.started = s.started ++ startedFrom env params i → Q () s') :
    Ends (signalStartLoop env (some p.tp) fuel i) Q E s := by
  -- By induction on the fuel, which is more than the workers that are not started.
  induction fuel generalizing s i with
  | zero => omega
  | succ fuel ih =>
    apply Ends.bind
    apply ends_loadPool h.pool
    by_cases hroom : i < params.length
    · obtain ⟨functions, hfunctions, hadded⟩ := h.functions
      obtain ⟨args, hargs, hgiven⟩ := h.args
      obtain ⟨threads, hthreads⟩ := h.threads
      have hcapacity : i < capacity := lt_of_lt_of_le hroom h.le
      -- Function and argument of this worker were written when it was added.
      rw [if_pos hroom]
      apply Ends.bind
      apply ends_readFunction hfunctions hcapacity (hadded i hroom)
      apply Ends.bind
      apply ends_readArg hargs hcapacity
        (hgiven i params[i] (List.getElem?_eq_getElem hroom))
      apply Ends.bind
      apply ends_pthreadCreate
      intro entry s₁ hheap hstarted₁
      apply Ends.bind
      apply ends_writeArray (by rw [hheap, hthreads]) hcapacity
      intro s₂ h₂ _
      -- Writing its thread into the pool leaves what the next round reads.
      have hready₂ := h.setThread h₂.self fun b hb => by rw [h₂.of_ne hb, hheap]
      apply Ends.bind
      apply ends_next
      · intro _
        apply ih hready₂ hroom (by omega)
        intro s' hready hstarted
        apply hQ s' hready
        -- What is started is this worker, if its function is there, and then the rest.
        obtain ⟨n, hn⟩ : ∃ n, params.length - i = n + 1 := ⟨params.length - i - 1, by omega⟩
        have hrest : params.length - (i + 1) = n := by omega
        rw [hstarted, h₂.started, hstarted₁, List.append_assoc, startedFrom, startedFrom, hn, hrest,
          List.range'_succ, List.filter_cons]
        rw [← List.getElem?_eq_getElem hroom]
        split
        · rfl
        · rfl
      · intro hlast
        omega
    · -- All threads have been started.
      rw [if_neg hroom]
      have hn : params.length - i = 0 := by omega
      exact .pure (hQ s h (by simp [startedFrom, hn]))

end Workers

/-! ## The queue -/

/-- The queue is created in a new block, if there is memory and the policy is known. -/
theorem ends_initMQ {queueSize : Int} {schedAlgo : Text} {Q : Ptr → StartState → Prop}
    {E : StartFault → Prop}
    (hok : ∀ q s', env.mallocOk s.mallocs = true →
      MessageQueue.stringToPolicy (String.ofList schedAlgo) ≠ .invalid → s.heap.cell q = none →
      Sets s s' q (some (.queue (MessageQueue.create queueSize
        (MessageQueue.stringToPolicy (String.ofList schedAlgo))))) →
      s'.mallocs = s.mallocs + 1 → Q (some q) s')
    (hnull : ∀ s', (env.mallocOk s.mallocs = false ∧ queueSize ≠ 0 ∨
        env.mallocOk s.mallocs = true ∧
          MessageQueue.stringToPolicy (String.ofList schedAlgo) = .invalid) →
      s'.heap.cell = s.heap.cell → s'.started = s.started → Q none s')
    (hE : env.mallocOk s.mallocs = false → queueSize = 0 → E (.memory .nullPointer)) :
    Ends (initMQ env queueSize schedAlgo) Q E s := by
  apply Ends.bind
  apply ends_malloc
  case hnull =>
    intro s₁ hanswer hcell hstarted _
    apply Ends.bind
    by_cases hzero : queueSize = 0
    · -- The check for null is passed over, and the fields are written.
      refine .lift_fault ?_ (hE hanswer hzero)
      simp [MessageQueue.mqCreate, hzero, onMemory]
    · apply Ends.lift_ok (b := none)
      · simp [MessageQueue.mqCreate, hzero, onMemory]
      · apply Ends.bind
        refine .inl ⟨(), s₁, rfl, .pure (hnull s₁ (.inl ⟨hanswer, hzero⟩) hcell hstarted)⟩
  -- The block for the queue, and then the policy, which is only looked at when there is one.
  intro q s₁ hanswer hfresh h₁ hmallocs₁
  apply Ends.bind
  by_cases hinvalid : MessageQueue.stringToPolicy (String.ofList schedAlgo) = .invalid
  · apply Ends.lift_ok (b := none)
    · simp [MessageQueue.mqCreate, hinvalid, onMemory]
    · apply Ends.bind
      -- An unknown policy gives the block back.
      apply ends_free h₁.self
      intro s₂ h₂ _
      refine .pure (hnull s₂ (.inr ⟨hanswer, hinvalid⟩) ?_ ?_)
      · rw [h₂.cell, h₁.cell, Function.update_idem, ← hfresh, Function.update_eq_self]
      · rw [h₂.started, h₁.started]
  · apply Ends.lift_ok (b := some (MessageQueue.create queueSize
      (MessageQueue.stringToPolicy (String.ofList schedAlgo))))
    · simp [MessageQueue.mqCreate, hinvalid, onMemory]
    · apply Ends.bind
      -- The fields are written.
      apply ends_store h₁.self
      intro s₂ h₂ hmallocs₂
      refine .pure (hok q s₂ hanswer hinvalid hfresh ⟨?_, ?_⟩ ?_)
      · rw [h₂.cell, h₁.cell, Function.update_idem]
      · rw [h₂.started, h₁.started]
      · rw [hmallocs₂, hmallocs₁]

/-! ## The whole start -/

section Start

variable (env : StartEnv) (argv : List Text)

/-- The name of the policy on the command line. -/
def policyName : Text := argv.getD 4 []

/-- The policy with that name. -/
def policy : MQSchedPolicy := MessageQueue.stringToPolicy (String.ofList (policyName argv))

/-- The size of the queue on the command line. -/
def queueSize : Int := atoi (argv.getD 3 [])

/-- The number of threads that the pool has room for. -/
def poolSize : Nat := (atoi (argv.getD 2 []) % 4294967296).toNat

/-- The number of workers: the first six allocations are for the name of the policy, the pool and
    the queue. -/
def workers : Nat := workerCount env.mallocOk 6 (poolSize argv)

/-- When the start goes wrong, and how. -/
def GoesWrong : StartFault → Prop
  | .memory .nullPointer => 5 ≤ argv.length ∧
    (env.mallocOk 0 = false ∨ (policyName argv).length < SCHED_ALG_MAX_SIZE ∧
      poolOk env 1 = true ∧ env.mallocOk 5 = false ∧ queueSize argv = 0)
  | .memory .outOfBounds => 5 ≤ argv.length ∧ env.mallocOk 0 = true ∧
    SCHED_ALG_MAX_SIZE ≤ (policyName argv).length
  | .overflow => 5 ≤ argv.length ∧ env.mallocOk 0 = true ∧
    (policyName argv).length < SCHED_ALG_MAX_SIZE ∧ poolOk env 1 = true ∧
    env.mallocOk 5 = true ∧ policy argv ≠ .invalid ∧ INT_MAX < workers env argv
  | .memory .danglingPointer | .wrongBlock | .indeterminate => False

/-- The server at its accept loop. -/
structure Serves (queue : Nat) (dropSize : Int) (s : StartState) : Prop where
  known : policy argv ≠ .invalid
  created : ∃ mq, s.heap.cell queue = some (.queue mq) ∧ (⟨.empty, [], mq⟩ : QueueMem Int) =
    (Server.initial (workers env argv) (queueSize argv) (policy argv)).queue.data
  size : dropSize =
    (Server.initial (workers env argv) (queueSize argv) (policy argv)).dropSize
  -- The workers have the ids from 0 on and all the same queue; a thread that could not be
  -- created is missing.
  threads : s.started.map (fun t => (t.1, s.heap.load t.2)) =
    ((List.range (workers env argv)).filter fun i => (env.pthreadCreate i).isSome).map
      fun i => (.workerThreadJob, .ok (.params ⟨some queue, i⟩))

/-- Where the start gets, and what it leaves. -/
inductive StartsAs : Result → StartState → Prop
  | usage {s : StartState} (hargc : argv.length < 5) (hstarted : s.started = []) :
    StartsAs (.exited 1 (usage argv)) s
  -- The name of the policy is never freed.
  | noPool {s : StartState} {a : Nat} (hpool : poolOk env 1 = false) (hstarted : s.started = [])
    (hlive : s.heap.live = {a}) (hname : s.heap.cell a = some (.schedAlgo (policyName argv))) :
    StartsAs (.returned 0) s
  -- `ThreadPoolFree` leaves the array of the arguments behind.
  | noQueue {s : StartState} {a args : Nat} {entries : Nat → Option Entry}
    (hpool : poolOk env 1 = true)
    (hqueue : env.mallocOk 5 = false ∧ queueSize argv ≠ 0 ∨ policy argv = .invalid)
    (hstarted : s.started = []) (hne : a ≠ args) (hlive : s.heap.live = {a, args})
    (hname : s.heap.cell a = some (.schedAlgo (policyName argv)))
    (hargs : s.heap.cell args = some (.array (poolSize argv) entries)) : StartsAs (.returned 0) s
  | noListen {s : StartState} (hlisten : env.openListenfd (atoi (argv.getD 1 [])) = none) :
    StartsAs (.exited 0 (text "Open_listenfd error")) s
  | serving {s : StartState} {listenfd : Int} {queue : Nat} {dropped : Ptr} {dropSize : Int}
    (hlisten : env.openListenfd (atoi (argv.getD 1 [])) = some listenfd)
    (hserves : Serves env argv queue dropSize s) :
    StartsAs (.serving listenfd (some queue) dropped dropSize) s

end Start

variable {argv : List Text}

/-- At most one thing goes wrong. -/
theorem GoesWrong.unique {e e' : StartFault} (h : GoesWrong env argv e)
    (h' : GoesWrong env argv e') : e = e' := by
  unfold GoesWrong at h h'
  grind

/-- What goes wrong, if anything does: the name of the policy, the queue, or the workers. -/
theorem GoesWrong.cause {e : StartFault} (h : GoesWrong env argv e) : 5 ≤ argv.length ∧
    (env.mallocOk 0 = false ∨ SCHED_ALG_MAX_SIZE ≤ (policyName argv).length ∨
      poolOk env 1 = true ∧ (env.mallocOk 5 = false ∧ queueSize argv = 0 ∨
        env.mallocOk 5 = true ∧ policy argv ≠ .invalid ∧ INT_MAX < workers env argv)) := by
  unfold GoesWrong at h
  grind

/-- The blocks of a memory, when it is known which there are. -/
theorem live_eq {S : Finset Nat} (h : ∀ b, s.heap.cell b ≠ none ↔ b ∈ S) : s.heap.live = S := by
  ext b
  rw [Heap.mem_live, h]

/-- The data structures are there, or nothing of them but the array of the arguments. -/
theorem ends_initServerDataStructures {Q : Option (Ptr × Ptr) → StartState → Prop}
    {E : StartFault → Prop} (hmallocs : s.mallocs = 1)
    (hok : ∀ p queue s', poolOk env 1 = true → env.mallocOk 5 = true → policy argv ≠ .invalid →
      Ready s' p (poolSize argv) queue (MessageQueue.create (queueSize argv) (policy argv)) [] →
      s'.mallocs = 6 → s'.started = s.started → Q (some (some p.tp, some queue)) s')
    (hnoPool : ∀ s', poolOk env 1 = false → s'.heap.cell = s.heap.cell →
      s'.started = s.started → Q none s')
    (hnoQueue : ∀ s' args, poolOk env 1 = true →
      (env.mallocOk 5 = false ∧ queueSize argv ≠ 0 ∨
        env.mallocOk 5 = true ∧ policy argv = .invalid) →
      s.heap.cell args = none →
      (∃ entries, s'.heap.cell args = some (.array (poolSize argv) entries)) →
      (∀ b, b ≠ args → s'.heap.cell b = s.heap.cell b) → s'.started = s.started → Q none s')
    (hE : poolOk env 1 = true → env.mallocOk 5 = false → queueSize argv = 0 →
      E (.memory .nullPointer)) :
    Ends (initServerDataStructures env (atoi (argv.getD 2 [])) (policyName argv)
      (queueSize argv)) Q E s := by
  apply Ends.bind
  apply ends_threadPoolCreate
  case hnull =>
    intro s₁ hanswer hcell hstarted
    rw [hmallocs] at hanswer
    exact .pure (hnoPool s₁ hanswer hcell hstarted)
  intro p s₁ hanswer hcreated hmallocs₁
  rw [hmallocs] at hanswer hmallocs₁
  apply Ends.bind
  apply ends_initMQ
  · -- Both are there.
    intro queue s₂ hanswer₂ hpolicy hfresh h₂ hmallocs₂
    rw [hmallocs₁] at hanswer₂ hmallocs₂
    refine .pure (hok p queue s₂ hanswer hanswer₂ hpolicy ?_ hmallocs₂ ?_)
    · exact ⟨hcreated.isPool.kept (h₂.kept hfresh), h₂.self, fun i q hq => by simp at hq⟩
    · rw [h₂.started, hcreated.started]
  · -- The pool is there and the queue is not: the pool is given back, its arguments are not.
    intro s₂ hno hcell hstarted
    rw [hmallocs₁] at hno
    have hpool₂ : IsPool s₂ p (poolSize argv) [] :=
      hcreated.isPool.kept fun b block hb => by rw [hcell, hb]
    obtain ⟨hne, -, -⟩ := hpool₂.tp_ne
    obtain ⟨args, hargs, -⟩ := hpool₂.args
    obtain ⟨htp, hfunctions, hfresh, hthreads⟩ := hcreated.fresh
    apply Ends.bind
    apply ends_threadPoolFree hpool₂
    intro s₃ hfreed hothers hstarted₃
    have hnotin : p.args ∉ [p.tp, p.functions, p.threads] := by
      simp [hpool₂.tp_ne.2.1.symm, hpool₂.distinct.1.symm, hpool₂.distinct.2.2]
    refine .pure (hnoQueue s₃ p.args hanswer hno hfresh ⟨_, (hothers _ hnotin).trans hargs⟩ ?_ ?_)
    · -- What was freed was not there before.
      intro b hb
      by_cases hpool : b ∈ [p.tp, p.functions, p.threads]
      · rw [hfreed b hpool]
        simp only [List.mem_cons, List.not_mem_nil, or_false] at hpool
        obtain rfl | rfl | rfl := hpool
        · exact htp.symm
        · exact hfunctions.symm
        · exact hthreads.symm
      · rw [hothers b hpool, hcell]
        simp only [List.mem_cons, List.not_mem_nil, or_false, not_or] at hpool
        exact hcreated.others b hpool.1 hpool.2.1 hb hpool.2.2
    · rw [hstarted₃, hstarted, hcreated.started]
  · -- The queue of size 0 has written through the null pointer.
    intro hno hzero
    rw [hmallocs₁] at hno
    exact hE hanswer hno hzero

/-- What the threads were given, read from the memory. -/
theorem Ready.started_eq {p : PoolAt} {capacity queue : Nat} {mq : MessageQueue}
    {params : List Nat} (h : Ready s p capacity queue mq params) :
    (startedFrom env params 0).map (fun t => (t.1, s.heap.load t.2)) =
      ((List.range params.length).filter fun i => (env.pthreadCreate i).isSome).map
        fun i => (.workerThreadJob, .ok (.params ⟨some queue, i⟩)) := by
  rw [startedFrom, List.map_map, Nat.sub_zero, ← List.range_eq_range']
  apply List.map_congr_left
  intro i hi
  have hlt : i < params.length := List.mem_range.mp (List.mem_filter.mp hi).1
  have hcell := h.given i params[i] (List.getElem?_eq_getElem hlt)
  simp only [Function.comp_apply, List.getElem?_eq_getElem hlt, Heap.load_eq_ok hcell]

/-- What holds where the start gets: the outcome, and that nothing has gone wrong. -/
def Gets (env : StartEnv) (argv : List Text) (r : Result) (s : StartState) : Prop :=
  StartsAs env argv r s ∧ ∀ e, ¬ GoesWrong env argv e

/-- From the copied name of the policy on. -/
theorem ends_startServer (hargc : 5 ≤ argv.length) (h0 : env.mallocOk 0 = true)
    (hname : (policyName argv).length < SCHED_ALG_MAX_SIZE) (hmallocs : s.mallocs = 1)
    (hstarted : s.started = []) (hcell : s.heap.cell a = some (.schedAlgo (policyName argv)))
    (hnone : ∀ b, b ≠ a → s.heap.cell b = none) :
    Ends (startServer env (atoi (argv.getD 1 [])) (atoi (argv.getD 2 [])) (queueSize argv)
      (policyName argv)) (Gets env argv) (GoesWrong env argv) s := by
  apply Ends.bind
  apply ends_initServerDataStructures hmallocs
  -- No pool: only the name of the policy is left.
  case hnoPool =>
    intro s₁ hpool hsame hstarted₁
    have hname₁ : s₁.heap.cell a = some (.schedAlgo (policyName argv)) := by rw [hsame, hcell]
    have hlive : s₁.heap.live = {a} := by
      apply live_eq
      intro b
      by_cases hb : b = a
      · simp [hb, hname₁]
      · simp [hb, hsame, hnone b hb]
    refine .pure ⟨.noPool hpool (hstarted₁.trans hstarted) hlive hname₁, fun e he => ?_⟩
    have hcause := he.cause
    -- Nothing goes wrong afterwards, since the server ends here.
    grind
  case hnoQueue =>
    intro s₁ args hpool hno hfresh hargs hothers hstarted₁
    obtain ⟨entries, hargs⟩ := hargs
    -- The array of the arguments was not there before, so it is another block than the name.
    have hne : a ≠ args := fun h => by rw [h, hfresh] at hcell; cases hcell
    have hname₁ : s₁.heap.cell a = some (.schedAlgo (policyName argv)) := by
      rw [hothers a hne, hcell]
    have hlive : s₁.heap.live = {a, args} := by
      apply live_eq
      intro b
      by_cases hb : b = args
      · simp [hb, hargs]
      · by_cases hba : b = a
        · simp [hba, hname₁]
        · rw [hothers b hb, hnone b hba]
          simp [hb, hba]
    refine .pure ⟨.noQueue hpool (hno.imp_right And.right) (hstarted₁.trans hstarted) hne hlive
      hname₁ hargs, fun e he => ?_⟩
    have hcause := he.cause
    grind
  -- The null pointer inside `mqCreate`.
  case hE =>
    intro hpool hno hzero
    exact ⟨hargc, .inr ⟨hname, hpool, hno, hzero⟩⟩
  intro p queue s₁ hpool hqueue hknown hready hmallocs₁ hstarted₁
  have hcount : workerCount env.mallocOk s₁.mallocs (poolSize argv) = workers env argv := by
    rw [hmallocs₁, workers]
  -- From here on only the workers can be too many.
  apply Ends.bind
  apply ends_initWorkerLoop hready (Nat.lt_succ_self (poolSize argv)) (Nat.zero_le _)
  case hE =>
    intro hover
    rw [List.length_nil, Nat.zero_add, Nat.sub_zero, hcount] at hover
    exact ⟨hargc, h0, hname, hpool, hqueue, hknown, hover⟩
  intro s₂ params hlength hmax hready₂ hstarted₂
  rw [List.length_nil, Nat.zero_add, Nat.sub_zero, hcount] at hlength
  -- With a pool and a queue, and no worker too many, no cause is left.
  have hnot : ∀ e, ¬ GoesWrong env argv e := by
    intro e he
    have hcause := he.cause
    grind
  apply Ends.bind
  apply ends_signalStartLoop hready₂ (Nat.zero_le _) (Nat.lt_succ_of_le hready₂.le) hmax
  intro s₃ hready₃ hstarted₃
  -- A port that cannot be opened ends the server; otherwise it serves.
  cases hlisten : env.openListenfd (atoi (argv.getD 1 [])) with
  | none => exact .pure ⟨.noListen hlisten, hnot⟩
  | some listenfd =>
    -- What is left of the start keeps the queue and the workers.
    have hserves : ∀ s₄, Kept s₃ s₄ → s₄.started = s₃.started →
        Serves env argv queue (Server.dropSizeOf (queueSize argv) (policy argv)) s₄ := by
      intro s₄ hkept hsame
      have hready₄ := hready₃.kept hkept
      refine ⟨hknown, ⟨_, hready₄.holdsQueue, rfl⟩, rfl, ?_⟩
      rw [hsame, hstarted₃, hstarted₂, hstarted₁, hstarted, List.nil_append,
        hready₄.started_eq, hlength]
    -- `dropped_buffer` may be null here: nothing looks at it before a drop.
    apply Ends.bind
    apply ends_malloc
    · intro dropped s₄ _ hfresh h₄ _
      exact .pure ⟨.serving hlisten (hserves s₄ (h₄.kept hfresh) h₄.started), hnot⟩
    · intro s₄ _ hsame hstarted₄ _
      have hkept : Kept s₃ s₄ := fun b block hb => by rw [hsame, hb]
      exact .pure ⟨.serving hlisten (hserves s₄ hkept hstarted₄), hnot⟩

/-- The start, from the first allocation on. -/
theorem ends_main (env : StartEnv) (argv : List Text) :
    Ends (main env argv) (Gets env argv) (GoesWrong env argv) initial := by
  apply Ends.bind
  apply ends_malloc
  case hnull =>
    intro s₁ hanswer _ hstarted _
    apply Ends.bind
    -- The usage message comes first, whatever the `malloc` said.
    by_cases hargc : argv.length < 5
    · rw [getargs, if_pos hargc]
      exact .pure (.pure ⟨.usage hargc hstarted, fun e he => absurd he.cause.1 (by omega)⟩)
    · -- `strcpy` does not look at the pointer.
      rw [getargs, if_neg hargc]
      exact .inr ⟨.memory .nullPointer, rfl, Nat.le_of_not_lt hargc, .inl hanswer⟩
  intro a s₁ h0 hfresh h₁ hmallocs₁
  apply Ends.bind
  by_cases hargc : argv.length < 5
  · rw [getargs, if_pos hargc]
    exact .pure (.pure ⟨.usage hargc h₁.started, fun e he => absurd he.cause.1 (by omega)⟩)
  · rw [getargs, if_neg hargc]
    apply Ends.bind
    apply Ends.bind
    apply ends_loadBlock h₁.self
    -- A name that fits is copied, a longer one is written past its block.
    by_cases hname : (policyName argv).length < SCHED_ALG_MAX_SIZE
    · rw [policyName] at hname
      simp only [if_pos hname]
      apply ends_store h₁.self
      intro s₂ h₂ hmallocs₂
      refine .pure (ends_startServer (a := a) (Nat.le_of_not_lt hargc) h0 hname ?_ ?_ ?_ ?_)
      · rw [hmallocs₂, hmallocs₁]
        rfl
      · rw [h₂.started, h₁.started]
        rfl
      · rw [h₂.self, policyName]
      · intro b hb
        rw [h₂.of_ne hb, h₁.of_ne hb]
        rfl
    · have hlong := hname
      rw [policyName] at hname
      simp only [if_neg hname]
      exact ends_fail ⟨Nat.le_of_not_lt hargc, h0, Nat.le_of_not_lt hlong⟩

/-- The start goes wrong exactly when the name of the policy does not fit or got no memory,
    when there is no memory for a queue of size 0, or when there are more workers than an `int`
    counts. It reads and writes nothing else that it must not. -/
theorem start_fault_iff (env : StartEnv) (argv : List Text) (e : StartFault) :
    (main env argv).run initial = .fault e ↔ GoesWrong env argv e :=
  (ends_main env argv).fault_iff (fun _ _ h => h.2) (fun _ _ h h' => h.unique h') e

/-- The start is never stuck, and where it does not go wrong it gets to one of the outcomes. -/
theorem start_outcome (env : StartEnv) (argv : List Text) :
    (main env argv).run initial ≠ .stuck ∧
      ∀ r s, (main env argv).run initial = .ok (r, s) → StartsAs env argv r s :=
  ⟨(ends_main env argv).ne_stuck, fun _ _ hrun => ((ends_main env argv).of_ok hrun).1⟩

/-- There is memory for everything, and the second thread cannot be created. -/
def noSecondThread : StartEnv where
  mallocOk _ := true
  pthreadCreate i := if i = 1 then none else some (100 + i)
  openListenfd _ := some 3

/-- Three threads, and a queue of two connections. -/
def threeThreads : List Text :=
  [text "server", text "8000", text "3", text "2", text "dh"]

theorem start_outcome_noSecondThread :
    ∃ s, (main noSecondThread threeThreads).run initial =
        .ok (.serving 3 (some 5) (some 9) 1, s) ∧
      s.started = [(.workerThreadJob, some 6), (.workerThreadJob, some 8)] ∧
      StartsAs noSecondThread threeThreads (.serving 3 (some 5) (some 9) 1) s := by
  -- The kernel runs the start; what is compared leaves the memory out.
  have hvalue : ((main noSecondThread threeThreads).run initial >>= fun x =>
      Outcome.ok (x.1, x.2.started)) = .ok (.serving 3 (some 5) (some 9) 1,
        [(.workerThreadJob, some 6), (.workerThreadJob, some 8)]) := by
    decide +kernel
  obtain ⟨⟨r, s⟩, hrun, heq⟩ := Outcome.bind_eq_ok.mp hvalue
  simp only [Outcome.ok.injEq, Prod.mk.injEq] at heq
  obtain ⟨rfl, hstarted⟩ := heq
  exact ⟨s, hrun, hstarted, (start_outcome noSecondThread threeThreads).2 _ s hrun⟩

end OsWet.ServerStart
