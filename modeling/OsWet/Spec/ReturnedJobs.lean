import OsWet.Spec.SmashJobs

/-!
# A job that is taken off the list and comes back

`fg` takes a job off the list and `SIGTSTP` puts it back; `bg` does both at once, and twice when
the signal cannot be sent. With the ids in order the job comes back to the place where it was. Its
start time does not come back, and `maxJobId` not always.

## Main results

- `addJobWithId_keeps_place`: the place of a job that comes back
- `bg_restores_iff`: when a `bg` that fails leaves everything as it was
-/

namespace OsWet.JobsList

open Text

/-! ## The place of an id -/

/-- The ids tell where an entry belongs. -/
theorem addJobWithId_at {l : JobsList} {pre post : List JobEntry} (hjobs : l.jobs = pre ++ post)
    {now jobId pid : Int} {command : Text} {isStopped : Bool}
    (hbefore : ∀ job ∈ pre, job.jobId < jobId) (hafter : ∀ job ∈ post, jobId < job.jobId) :
    l.addJobWithId now jobId pid command isStopped =
      ⟨pre ++ ⟨now, pid, jobId, command, isStopped⟩ :: post,
        if pre.length ≤ 1 then l.maxJobId else bump jobId l.maxJobId⟩ := by
  -- The id is new, so there is a place for it.
  have hslot : HasSlot l.jobs jobId := by
    apply hasSlot_of_not_mem
    intro job hjob
    rw [hjobs] at hjob
    -- It is neither before nor behind the place.
    rcases List.mem_append.mp hjob with hjob | hjob
    · exact (hbefore job hjob).ne
    · exact (hafter job hjob).ne'
  rcases addJobWithId_cases l now jobId pid command isStopped with
    ⟨-, pre', post', hjobs', hlast, hnext, heq⟩ | ⟨hno, -⟩
  · -- A later or an earlier place has a neighbour on the wrong side.
    rw [hjobs] at hjobs'
    -- The two ways to cut the list differ by some middle part, which has to be empty.
    rcases List.append_eq_append_iff.mp hjobs' with ⟨mid, rfl, rfl⟩ | ⟨mid, rfl, rfl⟩
    · cases mid using List.reverseRecOn with
      | nil => simpa using heq
      | append_singleton mid last =>
        have hlt := hlast last (by simp)
        have hgt := hafter last (by simp)
        omega
    · cases mid with
      | nil => simpa using heq
      | cons next mid =>
        have hlt := hnext next rfl
        have hgt := hbefore next (by simp)
        omega
  · exact absurd hslot hno

/-- The job with a pid that no other job has is the one that is removed. -/
theorem removeJobByPid_at {l : JobsList} {pre post : List JobEntry} {job : JobEntry}
    (hjobs : l.jobs = pre ++ job :: post) (hpids : l.pids.Nodup) :
    l.removeJobByPid job.pid = l.eraseJob pre.length job := by
  rcases removeJobByPid_cases l job.pid with
    ⟨hnone, -⟩ | ⟨pre', job', post', hjobs', hfirst, hpid, heq⟩
  · exact absurd rfl (hnone job (by simp [hjobs]))
  · rw [heq]
    have hsplit := hjobs.symm.trans hjobs'
    rw [pids, hjobs, List.map_append, List.map_cons, List.nodup_middle, List.nodup_cons,
      List.mem_append, not_or] at hpids
    obtain ⟨⟨hpre, hpost⟩, -⟩ := hpids
    -- The first entry with this pid is the job, since no pid stands twice.
    rcases List.append_eq_append_iff.mp hsplit with ⟨mid, rfl, hmid⟩ | ⟨mid, rfl, hmid⟩
    · cases mid with
      | nil =>
        obtain ⟨rfl, -⟩ := List.cons.inj hmid
        simp
      | cons x mid =>
        obtain ⟨rfl, -⟩ := List.cons.inj hmid
        exact absurd rfl (hfirst job (by simp))
    · cases mid with
      | nil =>
        obtain ⟨rfl, -⟩ := List.cons.inj hmid
        simp
      | cons x mid =>
        obtain ⟨rfl, -⟩ := List.cons.inj hmid
        -- An entry before the job would have the same pid.
        exact absurd (List.mem_map_of_mem (by simp)) (hpid ▸ hpre)

/-- What tells a job from another: everything but when it started and whether it is stopped. -/
def identity (job : JobEntry) : Int × Int × Text := (job.jobId, job.pid, job.command)

/-- A new id gets a place between the others, and they stay as they are. -/
theorem addJobWithId_new {l : JobsList} (hids : (l.jobs.map JobEntry.jobId).Pairwise (· < ·))
    {now jobId pid : Int} {command : Text} {isStopped : Bool}
    (hnew : ∀ job ∈ l.jobs, job.jobId ≠ jobId) :
    ∃ pre post, l.jobs = pre ++ post ∧ (l.addJobWithId now jobId pid command isStopped).jobs =
      pre ++ ⟨now, pid, jobId, command, isStopped⟩ :: post ∧
        ((l.addJobWithId now jobId pid command isStopped).jobs.map JobEntry.jobId).Pairwise
          (· < ·) := by
  rcases addJobWithId_cases l now jobId pid command isStopped with
    ⟨-, pre, post, hjobs, hlast, hnext, heq⟩ | ⟨hno, -⟩
  · rw [hjobs] at hids
    refine ⟨pre, post, hjobs, by rw [heq], ?_⟩
    rw [heq]
    exact increasing_insert post hids hlast hnext
  · exact absurd (hasSlot_of_not_mem hnew) hno

/-- A job that is removed and added again with its id comes back to its place. -/
theorem addJobWithId_removeJobByPid {l : JobsList} {pre post : List JobEntry} {job : JobEntry}
    (hjobs : l.jobs = pre ++ job :: post)
    (hids : (l.jobs.map JobEntry.jobId).Pairwise (· < ·)) (hpids : l.pids.Nodup)
    (now : Int) (isStopped : Bool) :
    (l.removeJobByPid job.pid).addJobWithId now job.jobId job.pid job.command isStopped =
      ⟨pre ++ ⟨now, job.pid, job.jobId, job.command, isStopped⟩ :: post,
        if pre.length ≤ 1 then (l.eraseJob pre.length job).maxJobId
        else bump job.jobId (l.eraseJob pre.length job).maxJobId⟩ := by
  rw [hjobs] at hids
  obtain ⟨hbefore, hafter⟩ := increasing_around hids
  rw [removeJobByPid_at hjobs hpids]
  exact addJobWithId_at (eraseJob_jobs hjobs) hbefore hafter

/-- With the ids in order and the pids distinct, an entry with a new id is inserted once, in order
    with the others, which stay as they are; and a listed job that is removed and added again
    comes back to its place. -/
theorem addJobWithId_keeps_place {l : JobsList}
    (hids : (l.jobs.map JobEntry.jobId).Pairwise (· < ·)) (hpids : l.pids.Nodup) :
    (∀ now jobId pid command isStopped, (∀ job ∈ l.jobs, job.jobId ≠ jobId) →
      let l' := l.addJobWithId now jobId pid command isStopped
      let newJob : JobEntry := ⟨now, pid, jobId, command, isStopped⟩
      (l'.jobs.map JobEntry.jobId).Pairwise (· < ·) ∧ l.jobs.Sublist l'.jobs ∧
        l'.jobs.Perm (newJob :: l.jobs) ∧ l'.jobs.count newJob = 1) ∧
    ∀ job ∈ l.jobs, ∀ now isStopped,
      ((l.removeJobByPid job.pid).addJobWithId now job.jobId job.pid job.command
        isStopped).jobs.map identity = l.jobs.map identity := by
  constructor
  · -- Adding an entry with a new id.
    intro now jobId pid command isStopped hnew
    obtain ⟨pre, post, hjobs, heq, hincreasing⟩ := @addJobWithId_new l hids now jobId pid command
      isStopped hnew
    have hperm : (pre ++ ⟨now, pid, jobId, command, isStopped⟩ :: post).Perm
        (⟨now, pid, jobId, command, isStopped⟩ :: l.jobs) := by
      rw [hjobs]
      exact List.perm_middle
    refine ⟨hincreasing, ?_, ?_, ?_⟩
    · -- The old entries are still there, in their order.
      rw [heq, hjobs]
      exact List.Sublist.append_left (List.sublist_cons_self _ _) _
    · rw [heq]
      exact hperm
    · -- The old entries have other ids.
      have hnot : (⟨now, pid, jobId, command, isStopped⟩ : JobEntry) ∉ l.jobs :=
        fun hmem => hnew _ hmem rfl
      rw [heq, hperm.count_eq, List.count_cons_self, List.count_eq_zero.mpr hnot]
  · -- Removing a job and adding it again.
    intro job hjob now isStopped
    obtain ⟨pre, post, hjobs⟩ := List.append_of_mem hjob
    rw [addJobWithId_removeJobByPid hjobs hids hpids, hjobs, List.map_append, List.map_append]
    rfl

/-- Two jobs, one of them stopped. -/
def twoJobs : JobsList :=
  ⟨[⟨0, 100, 1, text "sleep 9", true⟩, ⟨3, 200, 2, text "cat", true⟩], 2⟩

/-- A job that comes back to a list of two. -/
theorem addJobWithId_keeps_place_twoJobs :
    (∀ now jobId pid command isStopped, (∀ job ∈ twoJobs.jobs, job.jobId ≠ jobId) →
      let l' := twoJobs.addJobWithId now jobId pid command isStopped
      let newJob : JobEntry := ⟨now, pid, jobId, command, isStopped⟩
      (l'.jobs.map JobEntry.jobId).Pairwise (· < ·) ∧ twoJobs.jobs.Sublist l'.jobs ∧
        l'.jobs.Perm (newJob :: twoJobs.jobs) ∧ l'.jobs.count newJob = 1) ∧
    ∀ job ∈ twoJobs.jobs, ∀ now isStopped,
      ((twoJobs.removeJobByPid job.pid).addJobWithId now job.jobId job.pid job.command
        isStopped).jobs.map identity = twoJobs.jobs.map identity :=
  addJobWithId_keeps_place (by decide) (by decide)

/-! ## A `bg` that fails -/

/-- `maxJobId` after an entry has come back: the last id, or what it was without the entry when
    that comes to the end with at most one in front. -/
def IsMaxAfterReturn (maxJobId : Int) (pre : List JobEntry) (job : JobEntry)
    (post : List JobEntry) : Prop :=
  if post = [] ∧ pre.length ≤ 1 then maxJobId = lastId pre
  else maxJobId = lastId (pre ++ job :: post)

/-- Erasing an entry leaves the last id in `maxJobId`, even after a return that has not. -/
theorem eraseJob_maxJobId_of_return {l : JobsList} {pre post : List JobEntry} {job : JobEntry}
    (hjobs : l.jobs = pre ++ job :: post)
    (hids : ((pre ++ job :: post).map JobEntry.jobId).Pairwise (· < ·))
    (hmax : IsMaxAfterReturn l.maxJobId pre job post) :
    (l.eraseJob pre.length job).maxJobId = lastId (pre ++ post) := by
  unfold IsMaxAfterReturn at hmax
  split at hmax
  -- The job is the last entry and at most one is before it.
  case isTrue hshort =>
    obtain ⟨rfl, hlen⟩ := hshort
    show (if job.jobId = l.maxJobId then _ else l.maxJobId) = _
    rw [hjobs, List.append_nil]
    match pre with
    | [] =>
      rw [hmax]
      exact ite_self _
    | [first] =>
      -- That one has a smaller id.
      have hlt := (increasing_around hids).1 first List.mem_cons_self
      have hfirst : lastId [first] = first.jobId := rfl
      rw [hmax, hfirst, if_neg (by omega)]
    | first :: second :: pre => simp at hlen
  case isFalse => exact eraseJob_maxJobId hjobs hids hmax

/-- The return of an entry to a list whose last id is in `maxJobId`. -/
theorem isMaxAfterReturn_of_insert {pre post : List JobEntry} {job : JobEntry} {maxJobId : Int}
    (hids : ((pre ++ job :: post).map JobEntry.jobId).Pairwise (· < ·))
    (hmax : maxJobId = lastId (pre ++ post)) : IsMaxAfterReturn
      (if pre.length ≤ 1 then maxJobId else bump job.jobId maxJobId) pre job post := by
  unfold IsMaxAfterReturn
  split
  case isTrue hshort =>
    obtain ⟨rfl, hlen⟩ := hshort
    rw [if_pos hlen, hmax, List.append_nil]
  case isFalse hlong =>
    rw [hmax]
    apply maxJobId_insert hids
    rwa [not_and_or, Nat.not_le] at hlong

/-- The jobs list after a `bg` that fails. -/
theorem takenBack_eq {l : JobsList} {pre post : List JobEntry} {job : JobEntry}
    (hjobs : l.jobs = pre ++ job :: post)
    (hids : (l.jobs.map JobEntry.jobId).Pairwise (· < ·)) (hpids : l.pids.Nodup)
    (hmax : l.maxJobId = lastId l.jobs) (now now' : Int) :
    (Smash.takenBack l job now now').jobs =
        pre ++ ⟨now', job.pid, job.jobId, job.command, true⟩ :: post ∧
      IsMaxAfterReturn (Smash.takenBack l job now now').maxJobId pre job post := by
  -- The entry in the list while the job counts as running.
  let running : JobEntry := ⟨now, job.pid, job.jobId, job.command, false⟩
  have hmax' := hmax
  rw [hjobs] at hmax'
  have hids' := hids
  rw [hjobs] at hids'
  -- The list has the same ids while the job counts as running.
  have hsame : (pre ++ running :: post).map JobEntry.jobId =
      (pre ++ job :: post).map JobEntry.jobId := by
    simp [running]
  have hrunningIds : ((pre ++ running :: post).map JobEntry.jobId).Pairwise (· < ·) :=
    hsame ▸ hids'
  -- `bg` takes the job out and puts it in as running.
  have hresumed := addJobWithId_removeJobByPid hjobs hids hpids now false
  have hresumedMax := isMaxAfterReturn_of_insert hrunningIds
    (eraseJob_maxJobId hjobs hids' hmax')
  rw [← Smash.resumed] at hresumed
  have hresumedJobs : (Smash.resumed l job now).jobs = pre ++ running :: post := by rw [hresumed]
  have hresumedPids : (Smash.resumed l job now).pids.Nodup := by
    rw [pids, hresumedJobs]
    rw [pids, hjobs] at hpids
    simpa [running] using hpids
  -- It takes it out again and puts it back as stopped.
  have hback := addJobWithId_removeJobByPid hresumedJobs (hresumedJobs ▸ hrunningIds) hresumedPids
    now' true
  have herased : ((Smash.resumed l job now).eraseJob pre.length running).maxJobId =
      lastId (pre ++ post) := by
    apply eraseJob_maxJobId_of_return hresumedJobs hrunningIds
    rw [hresumed]
    exact hresumedMax
  rw [Smash.takenBack, hback]
  exact ⟨rfl, isMaxAfterReturn_of_insert hids' herased⟩

/-- Lists are the same if their jobs and their largest ids are. -/
theorem eq_iff {l l' : JobsList} : l = l' ↔ l.jobs = l'.jobs ∧ l.maxJobId = l'.maxJobId := by
  cases l
  cases l'
  simp

/-- When `maxJobId` after a return is the last id. -/
theorem isMaxAfterReturn_iff {pre post : List JobEntry} {job : JobEntry} {maxJobId : Int}
    (hids : ((pre ++ job :: post).map JobEntry.jobId).Pairwise (· < ·))
    (h : IsMaxAfterReturn maxJobId pre job post) :
    maxJobId = lastId (pre ++ job :: post) ↔
      (pre ++ job :: post).getLast? ≠ some job ∨ 2 < (pre ++ job :: post).length ∨
        (pre ++ job :: post).length = 1 ∧ job.jobId = 0 := by
  obtain ⟨hbefore, hafter⟩ := increasing_around hids
  unfold IsMaxAfterReturn at h
  split at h
  -- Here `eraseJob` has left a maximum that is not the largest id.
  case isTrue hshort =>
    obtain ⟨rfl, hlen⟩ := hshort
    rw [h, lastId_concat]
    match pre with
    | [] => simp [lastId, eq_comm]
    | [first] =>
      have hlt := hbefore first List.mem_cons_self
      have hfirst : lastId [first] = first.jobId := rfl
      simp [hfirst]
      omega
    | first :: second :: pre => simp at hlen
  -- Here it has not, and one of the two conditions holds.
  case isFalse hlong =>
    refine iff_of_true h ?_
    by_cases hpost : post = []
    · right
      left
      have hlen : 1 < pre.length := by
        by_contra hle
        exact hlong ⟨hpost, Nat.not_lt.mp hle⟩
      rw [List.length_append, List.length_cons]
      omega
    · -- The last entry has a larger id.
      left
      intro hlast
      rw [List.getLast?_append_of_ne_nil _ (List.cons_ne_nil job post)] at hlast
      obtain ⟨next, post', rfl⟩ := List.exists_cons_of_ne_nil hpost
      rw [List.getLast?_cons_cons] at hlast
      exact Int.lt_irrefl _ (hafter job (List.mem_of_getLast? hlast))

/-- When the signal cannot be sent, the jobs list and `maxJobId` are as before exactly when the
    clock shows the start time of the job again, and the job is not the last one of at most two.
    The exception is a list with only the id 0, which is what `maxJobId` is without jobs. -/
theorem bg_restores_iff {l : JobsList} {children : Children} {args : List Text}
    {permitted : Bool} {job : JobEntry}
    (hids : (l.jobs.map JobEntry.jobId).Pairwise (· < ·)) (hpids : l.pids.Nodup)
    (hmax : l.maxJobId = lastId l.jobs) (hargs : ForegroundCommand.areParamsValid args = true)
    (hjob : BackgroundCommand.getJob l args = .ok job) (hstopped : job.isStopped = true)
    (hkill : (children.kill job.pid Children.SIGCONT permitted).1 = false) (now now' : Int) :
    (BackgroundCommand.execute l children args permitted now now').1 = l ↔
      now' = job.startTime ∧ (l.jobs.getLast? ≠ some job ∨ 2 < l.jobs.length ∨
        l.jobs.length = 1 ∧ job.jobId = 0) := by
  -- The failing signal leads to the second half of `bg`.
  have hexecute : (BackgroundCommand.execute l children args permitted now now').1 =
      Smash.takenBack l job now now' := by
    rcases hsent : children.kill job.pid Children.SIGCONT permitted with ⟨ok, children'⟩
    rw [hsent] at hkill
    obtain rfl : ok = false := hkill
    simp only [BackgroundCommand.execute, hargs, hjob, hstopped, hsent]
    rfl
  obtain ⟨pre, post, hjobs⟩ := List.append_of_mem (Smash.bg_getJob_mem hjob)
  obtain ⟨hback, hbackMax⟩ := takenBack_eq hjobs hids hpids hmax now now'
  -- Of the entry only the time may differ.
  have hentry : pre ++ ⟨now', job.pid, job.jobId, job.command, true⟩ :: post =
      pre ++ job :: post ↔ now' = job.startTime := by
    constructor
    · intro h
      exact congrArg JobEntry.startTime (List.cons.inj (List.append_cancel_left h)).1
    · intro h
      rw [h, ← hstopped]
  rw [hexecute, eq_iff, hback, hmax, hjobs, hentry]
  rw [hjobs] at hids
  exact and_congr_right fun _ => isMaxAfterReturn_iff hids hbackMax

/-- The second of three stopped jobs, when no time has passed. -/
def threeJobs : JobsList :=
  ⟨[⟨0, 100, 1, text "sleep 9", true⟩, ⟨0, 200, 2, text "cat", true⟩,
    ⟨0, 300, 3, text "top", true⟩], 3⟩

/-- A stopped job in the middle of the list. -/
theorem bg_restores_iff_threeJobs :
    (BackgroundCommand.execute threeJobs .empty [text "2"] false 0 0).1 = threeJobs ↔
      (0 : Int) = 0 ∧ (threeJobs.jobs.getLast? ≠ some ⟨0, 200, 2, text "cat", true⟩ ∨
        2 < threeJobs.jobs.length ∨ threeJobs.jobs.length = 1 ∧ (2 : Int) = 0) :=
  @bg_restores_iff threeJobs .empty [text "2"] false ⟨0, 200, 2, text "cat", true⟩
    (by decide) (by decide) (by decide) (by decide) rfl rfl rfl 0 0

/-- A job that was stopped at the time 0 and cannot be resumed at the time 7: it starts anew, and
    `maxJobId` is 0 with the id 1 in the list. -/
theorem bg_fails_to_restore :
    let l : JobsList := ⟨[⟨0, 100, 1, text "sleep 9", true⟩], 1⟩
    (l.jobs.map JobEntry.jobId).Pairwise (· < ·) ∧ l.pids.Nodup ∧
      l.maxJobId = lastId l.jobs ∧
      BackgroundCommand.getJob l [] = .ok ⟨0, 100, 1, text "sleep 9", true⟩ ∧
      (Children.empty.kill 100 Children.SIGCONT true).1 = false ∧
      (BackgroundCommand.execute l .empty [] true 7 7).1 ≠ l ∧
      (BackgroundCommand.execute l .empty [] true 7 7).1 =
        ⟨[⟨7, 100, 1, text "sleep 9", true⟩], 0⟩ := by
  decide

end OsWet.JobsList
