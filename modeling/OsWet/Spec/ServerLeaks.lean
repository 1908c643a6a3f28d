import OsWet.Spec.ServerStep

/-!
# No metadata block is leaked

Every `MessageMetaData` block that is allocated is in somebody's hands: those of the accept
loop, of the queue or of a worker. With the invariant this makes the live blocks the ones in
these hands, each of them in one place. Every allocation succeeds here: a worker whose copy of
a message gets no memory loses the block of that message.
-/

namespace OsWet

namespace Server

variable {n : Nat} {s s' : Server n} {t t' : Queue.QState (ServerTid n) Int}

/-- Every live block is in the hands of somebody. -/
def Accounted (s : Server n) (t : Queue.QState (ServerTid n) Int) : Prop :=
  ∀ b, s.metas.cell b ≠ none → b ∈ s.allMetas t

/-- What is live after a list of blocks has been freed was live before and not in the list. -/
theorem freeMetas_live {frees : List Nat} {metas metas' : Heap MetaData}
    (h : freeMetas frees metas = .ok metas') {b : Nat} (hb : metas'.cell b ≠ none) :
    metas.cell b ≠ none ∧ b ∉ frees := by
  induction frees generalizing metas with
  | nil =>
    cases h
    exact ⟨hb, List.not_mem_nil⟩
  | cons a frees ih =>
    simp only [freeMetas] at h
    obtain ⟨metas₁, hfree, h⟩ := Outcome.bind_eq_ok.mp h
    obtain ⟨hgone, hsame⟩ := Heap.free_cell hfree
    obtain ⟨hb₁, hnot⟩ := ih h
    -- The first block is gone after it was freed.
    have hba : b ≠ a := fun heq => hb₁ (heq ▸ hgone)
    exact ⟨hsame b hba ▸ hb₁, by simp [hba, hnot]⟩

/-- A step outside the queue moves at most the block of its own thread. -/
theorem Outside.accounted {a : ServerAction n} (h : Outside s a s') (hs : s.Accounted t) :
    s'.Accounted t := by
  intro b hb
  cases h with
  | main next queue workers live =>
    rw [allMetas, workers, add_assoc]
    -- A block that is live was in somebody's hands before, or is new in those of the loop.
    rcases live (t.threads none).kont b hb with hmem | ⟨hlive, hnot⟩
    · exact Multiset.mem_add.mpr (.inl hmem)
    · have hmem := hs b hlive
      rw [allMetas, add_assoc, Multiset.mem_add] at hmem
      exact Multiset.mem_add.mpr (.inr (hmem.resolve_left hnot))
  | @worker w worker next queue main workers live =>
    have hsum := sum_update Worker.metas s.workers w worker
    -- Exchanging one worker exchanges its blocks in the sum.
    have hall : s'.allMetas t + (s.workers w).metas = s.allMetas t + worker.metas := by
      rw [allMetas, allMetas, main, workers, add_assoc, hsum]
      abel
    rcases live b hb with hmem | ⟨hlive, hnot⟩
    · refine Multiset.mem_add.mpr (.inr (Multiset.mem_sum.mpr ⟨w, Finset.mem_univ w, ?_⟩))
      rw [workers, Function.update_self]
      exact hmem
    · have hmem : b ∈ s.allMetas t + worker.metas := Multiset.mem_add.mpr (.inl (hs b hlive))
      rw [← hall, Multiset.mem_add] at hmem
      exact hmem.resolve_right hnot

/-- A step that frees the blocks that leave all hands. -/
private theorem Accounted.of_frees (hs : s.Accounted t) (frees : List Nat)
    (hfree : freeMetas frees s.metas = .ok s'.metas)
    (hall : s.allMetas t = s'.allMetas t' + (frees : Multiset Nat)) : s'.Accounted t' := by
  intro b hb
  obtain ⟨hlive, hnot⟩ := freeMetas_live hfree hb
  have hmem := hs b hlive
  rw [hall, Multiset.mem_add] at hmem
  exact hmem.resolve_right fun hb => hnot (Multiset.mem_coe.mp hb)

/-- A segment of the queue frees the blocks of the messages that it drops. -/
theorem QueueRun.accounted {i : ServerTid n} {k : Kont Unit Int} {g : Queue.End Int}
    (h : QueueRun s t i k g s' t') (hinv : Inv s t) (hs : s.Accounted t) : s'.Accounted t' := by
  obtain ⟨queue, frees, metas, hfrees, hmetas, hafter⟩ := h.after
  obtain ⟨frees', hfrees', haccount⟩ := h.move.metas_eq
  cases List.append_cancel_left (hfrees.symm.trans hfrees')
  have hk := Monitor.State.kont_of_runnable h.runnable
  -- The return of the call does not touch the blocks.
  have hsame : s'.metas = metas := by
    rw [hafter]
    unfold returned
    split <;> rfl
  refine hs.of_frees frees (hsame ▸ hmetas) ?_
  cases i with
  | none =>
    obtain ⟨hmain, hworkers, -, -⟩ := h.main_cases hinv
    have hnone : (t'.threads none).kont = g.kont := by rw [h.kont, Function.update_self]
    -- What the segment leaves to the accept loop is in its hands.
    have hmine : s'.main.metas (t'.threads none).kont = Queue.End.metas g := by
      obtain ⟨-, -, -, point, message, out, -, ⟨point', out', hret, hkont, hmain'⟩ |
        ⟨out', hret, hkont, hmain'⟩⟩ := h.main_cases hinv
      · rw [hmain', hnone, hkont, Queue.End.metas, hret, hkont]
        rfl
      · rw [hmain', Queue.End.metas, hret]
        split <;> rfl
    rw [allMetas, allMetas, hworkers, hmine, hmain, hk, h.data, MainPoint.metas,
      add_comm (kontMetas (some k)), haccount]
    abel
  | some w =>
    obtain ⟨hpoint, rfl, hmain, -, hheap, hgo⟩ := h.worker_cases hinv
    have hnone : (t'.threads none).kont = (t.threads none).kont := by
      rw [h.kont, Function.update_of_ne (Option.some_ne_none w).symm]
    have hget : kontMetas (some (Kont.get : Kont Unit Int)) = 0 := rfl
    rw [hget, add_zero] at haccount
    -- What is freed was dropped from the queue, which only the accept loop does.
    rw [allMetas, allMetas, hmain, hnone, h.data, haccount]
    rcases hgo with ⟨hret, hkont, hworkers⟩ | ⟨m, hret, hkont, -, hworkers⟩
    · -- The worker sleeps with nothing in its hands.
      have hend : Queue.End.metas g = 0 := by
        rw [Queue.End.metas, hret, hkont]
        rfl
      rw [hworkers, hend]
      abel
    · -- The block of the message goes from the queue to the worker.
      have hend : Queue.End.metas g = {m.metaData} := by
        rw [Queue.End.metas, hret]
        rfl
      have hsum := sum_update Worker.metas s.workers w
        { s.workers w with point := .got .success (some m) }
      have hold : (s.workers w).metas = 0 := by simp [Worker.metas, hpoint]
      rw [hold, add_zero] at hsum
      rw [hworkers, hsum, hend]
      show _ = _ + (_ + ({m.metaData} : Multiset Nat)) + _
      abel

/-- Every step keeps the live blocks in somebody's hands. -/
theorem Steps.accounted {a : ServerAction n} (h : Steps s t a s' t') (hinv : Inv s t)
    (hs : s.Accounted t) : s'.Accounted t' := by
  cases h with
  | outside h => exact h.accounted hs
  -- A call begins with the message of the accept loop in its hands.
  | @put message out s' t' hmain hwork hcall =>
    obtain ⟨queue, rfl⟩ := hcall.after
    refine hs.of_frees [] rfl ?_
    rw [allMetas, allMetas, hcall.data, hmain, hcall.kont, Function.update_self]
    exact (add_zero _).symm
  | @get w s' t' hpoint hcall =>
    obtain ⟨queue, rfl⟩ := hcall.after
    refine hs.of_frees [] rfl ?_
    rw [allMetas, allMetas, hcall.data, hcall.kont,
      Function.update_of_ne (Option.some_ne_none w).symm]
    -- A worker that enters `MQGet` has no message.
    have hmine : ({ s.workers w with point := .getting } : Worker).metas = (s.workers w).metas := by
      simp [Worker.metas, hpoint]
    have hsum := sum_metas_of_eq hmine
    exact (congrArg _ hsum.symm).trans (add_zero _).symm
  | run hrun => exact hrun.accounted hinv hs
  | wake hwake =>
    obtain ⟨queue, rfl⟩ := hwake.after
    refine hs.of_frees [] rfl ?_
    rw [allMetas, allMetas, hwake.data, hwake.kont]
    exact (add_zero _).symm

/-! ## Runs -/

/-- The blocks in the hands of a thread, and those in the queue. -/
def heldMetas (s : Server n) : ServerTid n → Multiset Nat
  | none => s.main.metas (s.queue.threads none).kont
  | some w => (s.workers w).metas

/-- The blocks of the messages in the queue. -/
def queuedMetas (s : Server n) : Multiset Nat :=
  ((MessageQueue.messages s.queue.data).map Message.metaData : Multiset Nat)

/-- What a call of the queue holds is the same with and without addresses. -/
theorem kontMetas_forget (k : Option (Kont Ptr Int)) :
    kontMetas (k.map Kont.forget) = kontMetas k := by
  rcases k with _ | ⟨_ | _⟩ <;> rfl

/-- What the abstract queue and the threads hold is what is held in memory. -/
theorem Inv.allMetas_eq (h : Inv s t) : s.allMetas t = s.queuedMetas + ∑ i, s.heldMetas i := by
  obtain ⟨l, hrep⟩ := h.corr.1
  have hqueued : s.queuedMetas = t.data.metas := by
    rw [queuedMetas, hrep.list.messages_eq, hrep.items]
    rfl
  have hkont : (t.threads none).kont = (s.queue.threads none).kont.map Kont.forget := by
    rw [h.corr.threads_eq, Status.kont_map]
  have hmain : s.heldMetas none = s.main.metas (t.threads none).kont := by
    rw [hkont, heldMetas]
    cases s.main with
    | putting => exact (kontMetas_forget _).symm
    | _ => rfl
  rw [Fintype.sum_option, hqueued, hmain, allMetas]
  show _ = t.data.metas + (_ + ∑ w, (s.workers w).metas)
  abel

/-- In every state that is reached each live block is in somebody's hands. -/
theorem exec_accounted {queueSize : Int} {schedPolicy : MQSchedPolicy} (hsize : 1 ≤ queueSize)
    {acts : List (ServerAction n)} {out : List (ServerEvent n)}
    (h : (machine n).exec (initial n queueSize schedPolicy) acts = .ok (s, out)) :
    ∃ t, Inv s t ∧ s.Accounted t := by
  refine Machine.exec_invariant_state (I := fun s => ∃ t, Inv s t ∧ s.Accounted t)
    ⟨_, inv_initial schedPolicy hsize, fun b hb => absurd rfl hb⟩ ?_ h
  intro s a s' o ⟨t, hinv, hs⟩ hstep
  obtain ⟨t', hsteps, hinv'⟩ := hinv.step_cases hstep
  exact ⟨t', hinv', hsteps.accounted hinv hs⟩

/-- In every run of the server, the live metadata blocks are the ones in the hands of the
    accept loop, of the queue and of the workers, each of them in one place. -/
theorem server_no_leak (queueSize : Int) (schedPolicy : MQSchedPolicy) (hsize : 1 ≤ queueSize)
    (acts : List (ServerAction n)) (s : Server n) (out : List (ServerEvent n))
    (h : (machine n).exec (initial n queueSize schedPolicy) acts = .ok (s, out)) :
    (s.queuedMetas + ∑ i, s.heldMetas i).Nodup ∧
      ∀ b, s.metas.cell b ≠ none ↔ b ∈ s.queuedMetas + ∑ i, s.heldMetas i := by
  obtain ⟨t, hinv, hs⟩ := exec_accounted hsize h
  rw [← hinv.allMetas_eq]
  refine ⟨hinv.metas_nodup, fun b => ⟨hs b, fun hmem hnone => ?_⟩⟩
  obtain ⟨block, hblock⟩ := hinv.metas_live b hmem
  rw [hnone] at hblock
  cases hblock

/-- Two connections, the first of them dropped: the block of the second is left, and the worker
    has it. -/
theorem server_no_leak_dropHeadServerRun :
    ∃ s out, (machine 1).exec (initial 1 1 .dropHead) (dropHeadServerRun.take 15) = .ok (s, out) ∧
      s.metas.cell 0 = none ∧ s.heldMetas (some 0) = {1} ∧
      (s.queuedMetas + ∑ i, s.heldMetas i).Nodup ∧
      ∀ b, s.metas.cell b ≠ none ↔ b ∈ s.queuedMetas + ∑ i, s.heldMetas i :=
  ⟨_, _, rfl, rfl, rfl, server_no_leak 1 .dropHead (by decide) (dropHeadServerRun.take 15) _ _ rfl⟩

end Server

end OsWet
