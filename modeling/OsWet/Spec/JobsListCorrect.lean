import OsWet.Native.JobsList
import Mathlib.Order.Bounds.Basic

/-!
# The operations of the jobs list

What each operation does to the entries, for every list, and what it does to the ids when
they were in order: strictly increasing, with `maxJobId` the largest of them.
-/

namespace OsWet.JobsList

/-! ## What the operations do to the entries -/

/-- There is a place for `jobId` in the list: before the first entry, or behind an entry
    with a smaller id whose successor, if any, has a larger one. -/
def HasSlot (jobs : List JobEntry) (jobId : Int) : Prop :=
  (∀ job ∈ jobs.head?, jobId < job.jobId) ∨
    ∃ pre job post, jobs = pre ++ job :: post ∧ job.jobId < jobId ∧
      ∀ next ∈ post.head?, jobId < next.jobId

/-- A list has a place for every id that it does not have. -/
theorem hasSlot_of_not_mem {jobs : List JobEntry} {jobId : Int}
    (hid : ∀ job ∈ jobs, job.jobId ≠ jobId) : HasSlot jobs jobId := by
  -- Behind an entry with a smaller id there is a place, at the latest at the end.
  have hbehind : ∀ (rest : List JobEntry) (job : JobEntry), job.jobId < jobId →
      (∀ x ∈ rest, x.jobId ≠ jobId) →
      ∃ pre last post, job :: rest = pre ++ last :: post ∧ last.jobId < jobId ∧
        ∀ next ∈ post.head?, jobId < next.jobId := by
    intro rest
    induction rest with
    | nil => exact fun job hlt _ => ⟨[], job, [], rfl, hlt, by simp⟩
    | cons next rest ih =>
      intro job hlt hrest
      -- Either the next entry is smaller too, or the place is in front of it.
      rcases lt_or_gt_of_ne (hrest next List.mem_cons_self) with hnext | hnext
      · obtain ⟨pre, last, post, heq, hlast, hpost⟩ :=
          ih next hnext fun x hx => hrest x (List.mem_cons_of_mem _ hx)
        exact ⟨job :: pre, last, post, by rw [heq]; rfl, hlast, hpost⟩
      · exact ⟨[], job, next :: rest, rfl, hlt, by simpa using hnext⟩
  cases jobs with
  | nil => exact .inl (by simp)
  | cons job jobs =>
    rcases lt_or_gt_of_ne (hid job List.mem_cons_self) with hlt | hgt
    · exact .inr (hbehind jobs job hlt fun x hx => hid x (List.mem_cons_of_mem _ hx))
    · exact .inl (by simpa using hgt)

/-- What an entry that the loop passes does to `maxJobId`. -/
def bump (jobId maxJobId : Int) : Int := if maxJobId ≤ jobId then jobId else maxJobId

/-- An id that is counted twice counts once. -/
theorem bump_bump (jobId maxJobId : Int) :
    bump jobId (bump jobId maxJobId) = bump jobId maxJobId := by
  unfold bump
  by_cases h : maxJobId ≤ jobId <;> simp [h]

/-- The loop of `addJob` puts the entry into the first place there is for it. -/
theorem insertLoop_cases (newJob : JobEntry) (jobs : List JobEntry) (maxJobId : Int) :
    (∃ pre job post, jobs = pre ++ job :: post ∧ job.jobId < newJob.jobId ∧
      (∀ next ∈ post.head?, newJob.jobId < next.jobId) ∧
      insertLoop newJob jobs maxJobId = (pre ++ job :: newJob :: post,
        if pre = [] then maxJobId else bump newJob.jobId maxJobId)) ∨
    ((¬ ∃ pre job post, jobs = pre ++ job :: post ∧ job.jobId < newJob.jobId ∧
      ∀ next ∈ post.head?, newJob.jobId < next.jobId) ∧
      insertLoop newJob jobs maxJobId = (jobs,
        if jobs = [] then maxJobId else bump newJob.jobId maxJobId)) := by
  induction jobs generalizing maxJobId with
  | nil =>
    refine .inr ⟨?_, rfl⟩
    intro h'
    obtain ⟨pre, job, post, h, -⟩ := h'
    exact absurd h (by simp)
  | cons job jobs ih =>
    rw [insertLoop]
    -- The loop stops at the first entry that has the place behind it.
    by_cases hstop : (∀ next ∈ jobs.head?, newJob.jobId < next.jobId) ∧ job.jobId < newJob.jobId
    · rw [if_pos hstop]
      exact .inl ⟨[], job, jobs, rfl, hstop.2, hstop.1, rfl⟩
    · rw [if_neg hstop]
      -- The entry is passed, and `maxJobId` has seen the new id.
      rcases ih (bump newJob.jobId maxJobId) with
        ⟨pre, job', post, rfl, hlt, hnext, hrun⟩ | ⟨hnone, hrun⟩
      · refine .inl ⟨job :: pre, job', post, rfl, hlt, hnext, ?_⟩
        rw [show (if maxJobId ≤ newJob.jobId then newJob.jobId else maxJobId) =
          bump newJob.jobId maxJobId from rfl, hrun, bump_bump]
        simp
      · refine .inr ⟨?_, ?_⟩
        · intro h
          obtain ⟨pre, job', post, heq, hlt, hnext⟩ := h
          cases pre with
          | nil =>
            obtain ⟨rfl, rfl⟩ := List.cons.inj heq
            exact hstop ⟨hnext, hlt⟩
          | cons x pre =>
            obtain ⟨rfl, rfl⟩ := List.cons.inj heq
            exact hnone ⟨pre, job', post, rfl, hlt, hnext⟩
        · rw [show (if maxJobId ≤ newJob.jobId then newJob.jobId else maxJobId) =
            bump newJob.jobId maxJobId from rfl, hrun, bump_bump]
          simp

/-- `addJob(jobId, ..)` either finds a place for the entry or leaves the entries alone.
    What it does to `maxJobId` depends on how many entries stand before the place. -/
theorem addJobWithId_cases (l : JobsList) (now jobId pid : Int) (command : Text)
    (isStopped : Bool) :
    (HasSlot l.jobs jobId ∧ ∃ pre post, l.jobs = pre ++ post ∧
      (∀ job ∈ pre.getLast?, job.jobId < jobId) ∧ (∀ next ∈ post.head?, jobId < next.jobId) ∧
      l.addJobWithId now jobId pid command isStopped =
        ⟨pre ++ ⟨now, pid, jobId, command, isStopped⟩ :: post,
          if pre.length ≤ 1 then l.maxJobId else bump jobId l.maxJobId⟩) ∨
    (¬ HasSlot l.jobs jobId ∧ l.jobs ≠ [] ∧
      l.addJobWithId now jobId pid command isStopped = ⟨l.jobs, bump jobId l.maxJobId⟩) := by
  unfold addJobWithId
  -- The code looks at the front first, and leaves `maxJobId` alone there.
  by_cases hfront : ∀ job ∈ l.jobs.head?, jobId < job.jobId
  · rw [if_pos hfront]
    exact .inl ⟨.inl hfront, [], l.jobs, rfl, by simp, hfront, rfl⟩
  · rw [if_neg hfront]
    have hne : l.jobs ≠ [] := by
      intro hnil
      apply hfront
      rw [hnil]
      simp
    rcases insertLoop_cases ⟨now, pid, jobId, command, isStopped⟩ l.jobs l.maxJobId with
      ⟨pre, job, post, hjobs, hlt, hnext, hrun⟩ | ⟨hnone, hrun⟩
    · refine .inl ⟨.inr ⟨pre, job, post, hjobs, hlt, hnext⟩, pre ++ [job], post, by simp [hjobs],
        by simpa using hlt, hnext, ?_⟩
      simp [hrun]
    · refine .inr ⟨?_, hne, ?_⟩
      · rintro (h | h)
        · exact hfront h
        · exact hnone h
      · simp [hrun, hne]

/-- The removal loops erase the first entry that meets the test. Here the loop has passed
    `passed`, where no entry does. -/
theorem removeLoop_cases (l : JobsList) (test : JobEntry → Bool) (passed : List JobEntry)
    {rest : List JobEntry} (hjobs : l.jobs = passed ++ rest)
    (hpassed : ∀ x ∈ passed, test x = false) :
    ((∀ job ∈ l.jobs, test job = false) ∧ l.removeLoop test rest passed.length = l) ∨
      ∃ pre job post, l.jobs = pre ++ job :: post ∧ (∀ x ∈ pre, test x = false) ∧
        test job = true ∧ l.removeLoop test rest passed.length = l.eraseJob pre.length job := by
  -- The index of the loop is the number of entries it has passed.
  induction rest generalizing passed with
  | nil =>
    refine .inl ⟨?_, rfl⟩
    rw [hjobs, List.append_nil]
    exact hpassed
  | cons job rest ih =>
    rw [removeLoop]
    cases htest : test job with
    | true => exact .inr ⟨passed, job, rest, hjobs, hpassed, htest, rfl⟩
    | false =>
      have h := ih (passed ++ [job]) (by rw [hjobs, List.append_assoc]; rfl) (by
        intro x hx
        rcases List.mem_append.mp hx with hx | hx
        · exact hpassed x hx
        · rw [List.mem_singleton.mp hx, htest])
      rwa [List.length_append, List.length_singleton] at h

/-- What `removeJobById` and `removeJobByPid` erase. -/
theorem removeJobByPid_cases (l : JobsList) (pid : Int) :
    ((∀ job ∈ l.jobs, job.pid ≠ pid) ∧ l.removeJobByPid pid = l) ∨
      ∃ pre job post, l.jobs = pre ++ job :: post ∧ (∀ x ∈ pre, x.pid ≠ pid) ∧ job.pid = pid ∧
        l.removeJobByPid pid = l.eraseJob pre.length job := by
  unfold removeJobByPid
  simpa using removeLoop_cases l (fun job => job.pid = pid) [] rfl (by simp)

/-- The job that is removed is the first one with the id. -/
theorem removeJobById_cases (l : JobsList) (jobId : Int) :
    ((∀ job ∈ l.jobs, job.jobId ≠ jobId) ∧ l.removeJobById jobId = l) ∨
      ∃ pre job post, l.jobs = pre ++ job :: post ∧ (∀ x ∈ pre, x.jobId ≠ jobId) ∧
        job.jobId = jobId ∧ l.removeJobById jobId = l.eraseJob pre.length job := by
  unfold removeJobById
  simpa using removeLoop_cases l (fun job => job.jobId = jobId) [] rfl (by simp)

/-- `eraseJob` on the entry at its index. -/
theorem eraseJob_jobs {l : JobsList} {pre post : List JobEntry} {job : JobEntry}
    (hjobs : l.jobs = pre ++ job :: post) :
    (l.eraseJob pre.length job).jobs = pre ++ post := by
  show l.jobs.eraseIdx pre.length = pre ++ post
  rw [hjobs, List.eraseIdx_append_of_length_le le_rfl, Nat.sub_self]
  rfl

/-! ## Ids in order -/

/-- The id of the last entry, 0 for an empty list. -/
def lastId (jobs : List JobEntry) : Int := jobs.getLast?.elim 0 JobEntry.jobId

/-- The largest `int`. -/
def INT_MAX : Int := 2 ^ 31 - 1

/-- The ids are positive and strictly increasing, with an `int` above them all, and
    `maxJobId` is the last of them. -/
structure IdsInOrder (l : JobsList) : Prop where
  increasing : (l.jobs.map JobEntry.jobId).Pairwise (· < ·)
  max : l.maxJobId = lastId l.jobs
  bounds : ∀ job ∈ l.jobs, 0 < job.jobId ∧ job.jobId < INT_MAX

/-- The last id of a list that gets one more job. -/
theorem lastId_concat (jobs : List JobEntry) (job : JobEntry) :
    lastId (jobs ++ [job]) = job.jobId := by
  rw [lastId, List.getLast?_concat]
  rfl

/-- The last id does not depend on what stands in front. -/
theorem lastId_append_cons (pre : List JobEntry) (job : JobEntry) (post : List JobEntry) :
    lastId (pre ++ job :: post) = lastId (job :: post) := by
  rw [lastId, List.getLast?_append_of_ne_nil _ (List.cons_ne_nil job post)]
  rfl

/-- The last id is the largest. -/
theorem le_lastId {jobs : List JobEntry} (h : (jobs.map JobEntry.jobId).Pairwise (· < ·)) :
    ∀ job ∈ jobs, job.jobId ≤ lastId jobs := by
  cases jobs using List.reverseRecOn with
  | nil => exact fun _ h => absurd h List.not_mem_nil
  | append_singleton jobs last =>
    intro job hjob
    rw [List.map_append, List.pairwise_append] at h
    rw [lastId_concat]
    rcases List.mem_append.mp hjob with hjob | hjob
    · exact (h.2.2 _ (List.mem_map_of_mem hjob) last.jobId (by simp)).le
    · rw [List.mem_singleton.mp hjob]

/-- A list without jobs is in order. -/
theorem idsInOrder_empty : IdsInOrder empty where
  increasing := by simp [empty]
  max := rfl
  bounds := by simp [empty]

/-- Erasing an entry leaves the last id in `maxJobId`. -/
theorem eraseJob_maxJobId {l : JobsList} {pre post : List JobEntry} {job : JobEntry}
    (hjobs : l.jobs = pre ++ job :: post)
    (hincreasing : ((pre ++ job :: post).map JobEntry.jobId).Pairwise (· < ·))
    (hmax : l.maxJobId = lastId (pre ++ job :: post)) :
    (l.eraseJob pre.length job).maxJobId = lastId (pre ++ post) := by
  show (if job.jobId = l.maxJobId then _ else l.maxJobId) = _
  cases post using List.reverseRecOn with
  | nil =>
    -- The last entry goes: the one before it becomes the largest.
    rw [lastId_concat] at hmax
    rw [if_pos hmax.symm, hjobs, List.append_nil]
    cases pre using List.reverseRecOn with
    | nil => rfl
    | append_singleton pre last => simp [lastId_concat]
  | append_singleton post last =>
    -- An entry before the last one goes, and the last one stays the largest.
    have hlast : l.maxJobId = last.jobId := by
      rw [hmax, ← List.cons_append, ← List.append_assoc, lastId_concat]
    have hlt : job.jobId < last.jobId := by
      rw [List.map_append, List.map_cons] at hincreasing
      have htail := (List.pairwise_append.mp hincreasing).2.1
      exact List.rel_of_pairwise_cons htail (by simp)
    rw [if_neg (by omega), ← List.append_assoc, lastId_concat, hlast]

/-- Taking one job out keeps the ids increasing. -/
theorem increasing_erase {pre post : List JobEntry} {job : JobEntry}
    (h : ((pre ++ job :: post).map JobEntry.jobId).Pairwise (· < ·)) :
    ((pre ++ post).map JobEntry.jobId).Pairwise (· < ·) :=
  h.sublist ((List.Sublist.append_left (List.sublist_cons_self _ _) _).map _)

/-- Erasing an entry keeps the ids in order. -/
theorem IdsInOrder.eraseJob {l : JobsList} (h : IdsInOrder l) {pre post : List JobEntry}
    {job : JobEntry} (hjobs : l.jobs = pre ++ job :: post) :
    IdsInOrder (l.eraseJob pre.length job) := by
  have herase := eraseJob_jobs hjobs
  have hincreasing := h.increasing
  have hmax := h.max
  rw [hjobs] at hincreasing hmax
  refine ⟨?_, ?_, ?_⟩
  · rw [herase]
    exact increasing_erase hincreasing
  · rw [herase]
    exact eraseJob_maxJobId hjobs hincreasing hmax
  · intro x hx
    rw [herase] at hx
    apply h.bounds
    rw [hjobs]
    simp only [List.mem_append, List.mem_cons] at hx ⊢
    tauto

/-- Taking a job off the list by its pid keeps the ids in order. -/
theorem IdsInOrder.removeJobByPid {l : JobsList} (h : IdsInOrder l) (pid : Int) :
    IdsInOrder (l.removeJobByPid pid) := by
  rcases removeJobByPid_cases l pid with ⟨-, heq⟩ | ⟨pre, job, post, hjobs, -, -, heq⟩
  · rwa [heq]
  · rw [heq]
    exact h.eraseJob hjobs

/-- So does taking it off by its id. -/
theorem IdsInOrder.removeJobById {l : JobsList} (h : IdsInOrder l) (jobId : Int) :
    IdsInOrder (l.removeJobById jobId) := by
  rcases removeJobById_cases l jobId with ⟨-, heq⟩ | ⟨pre, job, post, hjobs, -, -, heq⟩
  · rwa [heq]
  · rw [heq]
    exact h.eraseJob hjobs

/-- So does taking off the jobs that have finished. -/
theorem IdsInOrder.removeFinishedJobs {κ : Type} {l : JobsList} (h : IdsInOrder l)
    (waitpid : κ → Int → Int × κ) (procs : κ) :
    IdsInOrder (l.removeFinishedJobs waitpid procs).1 := by
  have hfold : ∀ (finished : List JobEntry) (l : JobsList), IdsInOrder l →
      IdsInOrder (finished.foldl (fun l job => l.removeJobById job.jobId) l) := by
    intro finished
    induction finished with
    | nil => exact fun _ hl => hl
    | cons job finished ih => exact fun _ hl => ih _ (hl.removeJobById job.jobId)
  exact hfold _ l h

/-- The largest id is not negative. -/
theorem IdsInOrder.max_nonneg {l : JobsList} (h : IdsInOrder l) : 0 ≤ l.maxJobId := by
  rw [h.max, lastId]
  cases hlast : l.jobs.getLast? with
  | none => exact le_rfl
  | some job => exact (h.bounds job (List.mem_of_getLast? hlast)).1.le

/-- Below the largest `int`, adding one does not wrap around. -/
theorem increment_eq {x : Int} (hnonneg : 0 ≤ x) (hx : x < INT_MAX) : increment x = x + 1 := by
  unfold increment INT_MAX at *
  apply Int.bmod_eq_of_le <;> omega

/-- An id that stands between its neighbours is in order with all entries. -/
theorem increasing_insert {pre : List JobEntry} (post : List JobEntry) {newJob : JobEntry}
    (h : ((pre ++ post).map JobEntry.jobId).Pairwise (· < ·))
    (hpre : ∀ job ∈ pre.getLast?, job.jobId < newJob.jobId)
    (hpost : ∀ next ∈ post.head?, newJob.jobId < next.jobId) :
    ((pre ++ newJob :: post).map JobEntry.jobId).Pairwise (· < ·) := by
  rw [List.map_append, List.pairwise_append] at h
  obtain ⟨hpreInc, hpostInc, hcross⟩ := h
  -- The neighbour in front is the largest of those in front.
  have hbefore : ∀ job ∈ pre, job.jobId < newJob.jobId := by
    intro job hjob
    have hle := le_lastId hpreInc job hjob
    obtain ⟨last, hlast⟩ := List.getLast?_isSome.mpr (List.ne_nil_of_mem hjob) |>
      Option.isSome_iff_exists.mp
    rw [lastId, hlast] at hle
    exact lt_of_le_of_lt hle (hpre last hlast)
  -- The neighbour behind is the smallest of those behind.
  have hafter : ∀ job ∈ post, newJob.jobId < job.jobId := by
    cases post with
    | nil => exact fun _ h => absurd h List.not_mem_nil
    | cons next post =>
      intro job hjob
      have hnext := hpost next rfl
      rcases List.mem_cons.mp hjob with rfl | hjob
      · exact hnext
      · exact hnext.trans (List.rel_of_pairwise_cons hpostInc (List.mem_map_of_mem hjob))
  rw [List.map_append, List.map_cons, List.pairwise_append, List.pairwise_cons]
  refine ⟨hpreInc, ⟨?_, hpostInc⟩, ?_⟩
  · intro id hid
    obtain ⟨job, hjob, rfl⟩ := List.mem_map.mp hid
    exact hafter job hjob
  · intro id hid id' hid'
    obtain ⟨job, hjob, rfl⟩ := List.mem_map.mp hid
    rcases List.mem_cons.mp hid' with rfl | hid'
    · exact hbefore job hjob
    · exact hcross _ hid _ hid'

/-- A new job gets the next id. -/
theorem IdsInOrder.addJob {l : JobsList} (h : IdsInOrder l)
    (hmax : l.maxJobId + 1 < INT_MAX) (now pid : Int) (command : Text) (isStopped : Bool) :
    IdsInOrder (l.addJob now pid command isStopped) := by
  have hincrement := increment_eq h.max_nonneg (by omega)
  have hnonneg := h.max_nonneg
  refine ⟨?_, ?_, ?_⟩
  · apply increasing_insert [] (by simpa using h.increasing) _ (by simp)
    intro job hjob
    have hle := le_lastId h.increasing job (List.mem_of_getLast? hjob)
    rw [← h.max] at hle
    show job.jobId < increment l.maxJobId
    omega
  · exact (lastId_concat l.jobs ⟨now, pid, increment l.maxJobId, command, isStopped⟩).symm
  · intro job hjob
    rcases List.mem_append.mp hjob with hjob | hjob
    · exact h.bounds job hjob
    · rw [List.mem_singleton.mp hjob]
      show 0 < increment l.maxJobId ∧ increment l.maxJobId < INT_MAX
      omega

/-- A list with jobs has a last id. -/
theorem exists_lastId {jobs : List JobEntry} (h : jobs ≠ []) :
    ∃ job ∈ jobs, lastId jobs = job.jobId := by
  refine ⟨jobs.getLast h, List.getLast_mem h, ?_⟩
  rw [lastId, List.getLast?_eq_some_getLast h]
  rfl

/-- With the ids in order, the entries before one have smaller ids, and those behind it have
    larger ones. -/
theorem increasing_around {pre post : List JobEntry} {newJob : JobEntry}
    (h : ((pre ++ newJob :: post).map JobEntry.jobId).Pairwise (· < ·)) :
    (∀ job ∈ pre, job.jobId < newJob.jobId) ∧ ∀ job ∈ post, newJob.jobId < job.jobId := by
  rw [List.map_append, List.map_cons, List.pairwise_append, List.pairwise_cons] at h
  obtain ⟨-, ⟨hafter, -⟩, hbefore⟩ := h
  exact ⟨fun job hjob => hbefore _ (List.mem_map_of_mem hjob) _ List.mem_cons_self,
    fun job hjob => hafter _ (List.mem_map_of_mem hjob)⟩

/-- What `addJob(jobId, ..)` does to `maxJobId` makes it the last id, unless the entry comes to the
    end with at most one in front. -/
theorem maxJobId_insert {pre post : List JobEntry} {newJob : JobEntry}
    (h : ((pre ++ newJob :: post).map JobEntry.jobId).Pairwise (· < ·))
    (hplace : post ≠ [] ∨ 1 < pre.length) :
    (if pre.length ≤ 1 then lastId (pre ++ post) else bump newJob.jobId (lastId (pre ++ post))) =
      lastId (pre ++ newJob :: post) := by
  obtain ⟨hbefore, hafter⟩ := increasing_around h
  cases post with
  | nil =>
    -- The new id is the largest.
    have hlen : 1 < pre.length := hplace.resolve_left fun hne => hne rfl
    have hne : pre ≠ [] := List.ne_nil_of_length_pos (by omega)
    obtain ⟨last, hlast, hid⟩ := exists_lastId hne
    have hlt := hbefore last hlast
    rw [List.append_nil, hid, if_neg (Nat.not_le.mpr hlen), lastId_concat]
    exact if_pos hlt.le
  | cons next post =>
    -- The last entry stays the last.
    have hlast : lastId (pre ++ newJob :: next :: post) = lastId (pre ++ next :: post) := by
      rw [List.append_cons, lastId_append_cons, lastId_append_cons]
    obtain ⟨last, hmem, hid⟩ := exists_lastId (List.cons_ne_nil next post)
    have hlt := hafter last hmem
    have hbump : bump newJob.jobId (lastId (next :: post)) = lastId (next :: post) := by
      rw [hid]
      exact if_neg (by omega)
    rw [hlast, lastId_append_cons, hbump, ite_self]

/-- A job that comes back when at most one other job is listed, with a smaller id. -/
def ShortReturn (jobs : List JobEntry) (jobId : Int) : Prop :=
  jobs.length ≤ 1 ∧ ∀ job ∈ jobs, job.jobId < jobId

/-- A job comes back to its place, and `maxJobId` is right again unless it was a short
    return. -/
theorem IdsInOrder.addJobWithId {l : JobsList} (h : IdsInOrder l) {jobId : Int}
    (hid : 0 < jobId ∧ jobId < INT_MAX) (hshort : ¬ ShortReturn l.jobs jobId) (now pid : Int)
    (command : Text) (isStopped : Bool) :
    IdsInOrder (l.addJobWithId now jobId pid command isStopped) := by
  rcases addJobWithId_cases l now jobId pid command isStopped with
    ⟨-, pre, post, hjobs, hpre, hpost, heq⟩ | ⟨hslot, hne, heq⟩
  · rw [heq]
    have hincreasing := h.increasing
    rw [hjobs] at hincreasing
    refine ⟨increasing_insert post hincreasing hpre hpost, ?_, ?_⟩
    · show (if pre.length ≤ 1 then l.maxJobId else bump jobId l.maxJobId) = _
      have hnew := @increasing_insert pre post ⟨now, pid, jobId, command, isStopped⟩
        hincreasing hpre hpost
      rw [h.max, hjobs]
      apply maxJobId_insert hnew
      -- Otherwise it would be a short return.
      by_contra hlast
      rw [not_or, not_not, not_lt] at hlast
      obtain ⟨rfl, hlen⟩ := hlast
      rw [List.append_nil] at hincreasing hjobs
      refine hshort ⟨hjobs ▸ hlen, fun job hjob => ?_⟩
      rw [hjobs] at hjob
      have hle := le_lastId hincreasing job hjob
      cases hlast : pre.getLast? with
      | none => simp_all
      | some last =>
        rw [lastId, hlast] at hle
        exact lt_of_le_of_lt hle (hpre last hlast)
    · intro job hjob
      rcases List.mem_append.mp hjob with hjob | hjob
      · exact h.bounds job (hjobs ▸ List.mem_append.mpr (.inl hjob))
      · rcases List.mem_cons.mp hjob with rfl | hjob
        · exact hid
        · exact h.bounds job (hjobs ▸ List.mem_append.mpr (.inr hjob))
  · -- Without a place for it, the id is in the list, and so not above the largest.
    rw [heq]
    have hle : jobId ≤ l.maxJobId := by
      by_contra hlt
      refine hslot (hasSlot_of_not_mem fun job hjob => ?_)
      have := le_lastId h.increasing job hjob
      rw [← h.max] at this
      omega
    refine ⟨h.increasing, ?_, h.bounds⟩
    show bump jobId l.maxJobId = _
    rw [← h.max, bump]
    split <;> omega

/-- What the ids promise to the user: they are distinct and strictly increasing,
    `maxJobId` is the largest of them (0 for an empty list), and the id of the next new job
    is above them all. -/
structure IdsSound (l : JobsList) : Prop where
  increasing : (l.jobs.map JobEntry.jobId).Pairwise (· < ·)
  distinct : (l.jobs.map JobEntry.jobId).Nodup
  empty : l.jobs = [] → l.maxJobId = 0
  largest : l.jobs ≠ [] → IsGreatest {jobId | ∃ job ∈ l.jobs, job.jobId = jobId} l.maxJobId
  next_greater : ∀ job ∈ l.jobs, job.jobId < increment l.maxJobId

/-- A list in order gives ids as it should. -/
theorem IdsInOrder.sound {l : JobsList} (h : IdsInOrder l) : IdsSound l where
  increasing := h.increasing
  distinct := h.increasing.imp ne_of_lt
  empty hnil := by
    rw [h.max, hnil]
    rfl
  largest hne := by
    have hlast : l.jobs.getLast? = some (l.jobs.getLast hne) := List.getLast?_eq_some_getLast hne
    refine ⟨⟨l.jobs.getLast hne, List.getLast_mem hne, ?_⟩, ?_⟩
    · rw [h.max, lastId, hlast]
      rfl
    · intro _ h
      obtain ⟨job, hjob, rfl⟩ := h
      rw [h.max]
      exact le_lastId h.increasing job hjob
  next_greater job hjob := by
    -- The largest id is an `int` below the last one, so the next id does not wrap.
    have hle := le_lastId h.increasing job hjob
    rw [← h.max] at hle
    have hmax : l.maxJobId < INT_MAX := by
      rw [h.max, lastId]
      cases hlast : l.jobs.getLast? with
      | none => decide
      | some last => exact (h.bounds last (List.mem_of_getLast? hlast)).2
    rw [increment_eq h.max_nonneg hmax]
    omega

end OsWet.JobsList
