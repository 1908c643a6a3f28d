import OsWet.Native.Server
import OsWet.Native.Worker

/-!
# What a request returns to its worker

`requestHandle` returns -1, 0 or 1 and counts the request in the metadata when it is served.
This is what the step `handle` of the server does with the metadata of the message, and together
with the step `dispatch` it makes an iteration of the worker.
-/

namespace OsWet

/-- What returns a value returns that value. -/
private theorem returns_thenReturn {α β : Type} {p : ServerProcess α} {b b' : β}
    (h : (p >>= fun _ => pure b).Returns b') : b' = b := by
  obtain ⟨_, -, _, _, h⟩ := Process.returns_bind h
  cases h
  rfl

/-- What a request returns and how it changes the metadata. -/
inductive Handled (metaData : MetaData) : Int × MetaData → Prop
  | invalid : Handled metaData (HW3_INVALID_VALUE, metaData)
  | static :
    Handled metaData
      (1, { metaData with numStaticRequests := metaData.numStaticRequests + 1 })
  | dynamic :
    Handled metaData
      (0, { metaData with numDynamicRequests := metaData.numDynamicRequests + 1 })

/-- Serving counts one request at most. -/
theorem requestServe_returns {fd : Int} {metaData : MetaData} {parsed : ParsedURI} {sbuf : Stat}
    {r : Int × MetaData} (h : (requestServe fd metaData parsed sbuf).Returns r) :
    Handled metaData r := by
  unfold requestServe at h
  split at h
  · split at h
    · exact returns_thenReturn h ▸ .invalid
    · exact returns_thenReturn h ▸ .static
  · split at h
    · exact returns_thenReturn h ▸ .invalid
    · exact returns_thenReturn h ▸ .dynamic

/-- So does handling. -/
theorem requestHandle_returns {fd : Int} {metaData : MetaData} {buffers : Buffers}
    {r : Int × MetaData} (h : (requestHandle fd metaData buffers).Returns r) :
    Handled metaData r := by
  obtain ⟨⟨buf, rio⟩, -, h⟩ := Process.returns_bind h
  dsimp only at h
  split at h
  · obtain ⟨_, -, h⟩ := Process.returns_bind h
    obtain ⟨sbuf, -, h⟩ := Process.returns_bind h
    cases sbuf with
    | none => exact returns_thenReturn h ▸ .invalid
    | some sbuf => exact requestServe_returns h
  · exact returns_thenReturn h ▸ .invalid

/-- The counters of the worker. -/
def Worker.counts (worker : Worker) : ThreadCounts :=
  ⟨worker.jobCount, worker.staticCount, worker.dynamicCount⟩

namespace Server

variable {n : Nat}

/-- The step `dispatch` counts the job and fills in the metadata block. -/
theorem dispatch_counts {s : Server n} {w : Fin n} {message : Message Int} {metaData : MetaData}
    (hpoint : (s.workers w).point = .got .success (some message))
    (hcell : s.metas.cell message.metaData = some metaData) (now : Timeval) :
    ∃ s', s.dispatch w now = .ok s' ∧ (s'.workers w).point = .dispatched message ∧
      (s'.workers w).counts = (s.workers w).counts.countJob ∧
      s'.metas.cell message.metaData =
        some ((s.workers w).counts.countJob.fillIn w now metaData) := by
  have hload := Heap.load_eq_ok hcell
  have hstore := Heap.store_eq_ok hcell
  unfold dispatch
  simp only [hpoint, hload, hstore, onMetas, Outcome.ok_bind, if_true]
  refine ⟨_, rfl, ?_, ?_, ?_⟩
  · simp [setWorker]
  · simp [setWorker, Worker.counts, ThreadCounts.countJob]
  · exact Heap.setCell_cell_self _ _ _ (Heap.lt_next hcell)

/-- The step `handle` does with the metadata block and the counters what the worker does with
    the result of the request. -/
theorem handle_of_returns {s : Server n} {w : Fin n} {message : Message Int}
    {metaData metaData' : MetaData} {fd rc : Int} {buffers : Buffers}
    (hpoint : (s.workers w).point = .dispatched message)
    (hcell : s.metas.cell message.metaData = some metaData)
    (h : (requestHandle fd metaData buffers).Returns (rc, metaData')) :
    ∃ s', s.handle w rc = .ok s' ∧ s'.metas.cell message.metaData = some metaData' ∧
      (s'.workers w).counts = (s.workers w).counts.update rc := by
  have hload := Heap.load_eq_ok hcell
  have hstore := Heap.store_eq_ok hcell
  unfold handle
  simp only [hpoint]
  -- The three results are the three branches of the step.
  cases requestHandle_returns h with
  | invalid => exact ⟨_, rfl, hcell, by simp [setWorker, Worker.counts, ThreadCounts.update]⟩
  | static =>
    rw [if_neg (by decide), if_pos (by decide)]
    simp only [hload, hstore, onMetas, Outcome.ok_bind, if_true]
    refine ⟨_, rfl, Heap.setCell_cell_self _ _ _ (Heap.lt_next hcell), ?_⟩
    simp [setWorker, Worker.counts, ThreadCounts.update, HW3_INVALID_VALUE]
  | dynamic =>
    rw [if_neg (by decide), if_pos (by decide)]
    simp only [hload, hstore, onMetas, Outcome.ok_bind]
    refine ⟨_, rfl, Heap.setCell_cell_self _ _ _ (Heap.lt_next hcell), ?_⟩
    simp [setWorker, Worker.counts, ThreadCounts.update, HW3_INVALID_VALUE]

/-- The steps `dispatch` and `handle` of the server do what an iteration of the worker does with
    the metadata block and the counters. -/
theorem round_of_steps {s : Server n} {w : Fin n} {message : Message Int}
    {metaData metaData' : MetaData} {now : Timeval} {rc : Int} {buffers : Buffers}
    {counts : ThreadCounts} (hpoint : (s.workers w).point = .got .success (some message))
    (hcell : s.metas.cell message.metaData = some metaData)
    (h : (workerThreadJobRound w (s.workers w).counts message.content metaData now buffers).Returns
      (rc, metaData', counts)) :
    ∃ s₁ s₂, s.dispatch w now = .ok s₁ ∧ s₁.handle w rc = .ok s₂ ∧
      s₂.metas.cell message.metaData = some metaData' ∧ (s₂.workers w).counts = counts := by
  obtain ⟨⟨rc', metaData₁⟩, hhandle, hrest⟩ := Process.returns_bind h
  obtain ⟨rfl, rfl, rfl⟩ := by simpa using returns_thenReturn hrest
  obtain ⟨s₁, hdispatch, hpoint₁, hcounts₁, hcell₁⟩ := dispatch_counts hpoint hcell now
  obtain ⟨s₂, hstep, hcell₂, hcounts₂⟩ := handle_of_returns hpoint₁ hcell₁ hhandle
  rw [hcounts₁] at hcounts₂
  exact ⟨s₁, s₂, hdispatch, hstep, hcell₂, hcounts₂⟩

end Server

end OsWet
