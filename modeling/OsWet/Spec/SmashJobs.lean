import OsWet.Spec.SmashStep
import OsWet.Spec.JobsListCorrect
import Mathlib.Data.List.Nodup

/-!
# Jobs and children over a run of the shell

The jobs list and the process table agree at the prompt as long as three things go well:
a wait for a foreground child ends as the handled signals make the shell believe, a job
that comes back under its id finds a place in the list, and a finished job is removed
under an id that no running job before it has.
-/

namespace OsWet

open Text JobsList

/-! ## Pids in the list -/

namespace JobsList

/-- The pids of the listed jobs. -/
def pids (l : JobsList) : List Int := l.jobs.map JobEntry.pid

/-- The loop takes the first job off that passes the test. -/
theorem removeLoop_jobs (l : JobsList) (test : JobEntry → Bool) :
    (l.removeLoop test l.jobs 0).jobs = l.jobs.eraseP test := by
  -- The loop starts with nothing passed.
  rcases removeLoop_cases l test [] rfl (by simp) with
    ⟨hnone, heq⟩ | ⟨pre, job, post, hjobs, hpre, htest, heq⟩
  · rw [List.length_nil] at heq
    rw [heq, List.eraseP_of_forall_not (by simpa using hnone)]
  · rw [List.length_nil] at heq
    rw [heq, eraseJob_jobs hjobs, hjobs, List.eraseP_append_right _ (by simpa using hpre),
      List.eraseP_cons_of_pos htest]

/-- By its pid, the first job with the pid. -/
theorem removeJobByPid_jobs (l : JobsList) (pid : Int) :
    (l.removeJobByPid pid).jobs = l.jobs.eraseP fun job => job.pid = pid :=
  l.removeLoop_jobs _

/-- By its id, the first job with the id. -/
theorem removeJobById_jobs (l : JobsList) (jobId : Int) :
    (l.removeJobById jobId).jobs = l.jobs.eraseP fun job => job.jobId = jobId :=
  l.removeLoop_jobs _

/-- The pid of the job goes with it. -/
theorem pids_removeJobByPid (l : JobsList) (pid : Int) :
    (l.removeJobByPid pid).pids = l.pids.erase pid := by
  rw [pids, removeJobByPid_jobs, pids, List.erase_eq_eraseP', List.eraseP_map]
  rfl

/-- A new job brings its pid. -/
theorem pids_addJob (l : JobsList) (now pid : Int) (command : Text) (isStopped : Bool) :
    (l.addJob now pid command isStopped).pids.Perm (pid :: l.pids) := by
  show ((l.jobs ++ [_]).map JobEntry.pid).Perm _
  rw [List.map_append]
  exact List.perm_append_singleton _ _

/-- A job that finds its place is listed once more; one that does not is not. -/
theorem pids_addJobWithId (l : JobsList) (now jobId pid : Int) (command : Text)
    (isStopped : Bool) :
    (HasSlot l.jobs jobId →
      (l.addJobWithId now jobId pid command isStopped).pids.Perm (pid :: l.pids)) ∧
    (¬ HasSlot l.jobs jobId →
      (l.addJobWithId now jobId pid command isStopped).pids = l.pids) := by
  rcases addJobWithId_cases l now jobId pid command isStopped with
    ⟨hslot, pre, post, hjobs, -, -, heq⟩ | ⟨hslot, -, heq⟩
  · refine ⟨fun _ => ?_, fun hno => absurd hslot hno⟩
    rw [heq, pids, pids, hjobs]
    simp only [List.map_append, List.map_cons]
    exact List.perm_middle
  · refine ⟨fun hyes => absurd hyes hslot, fun _ => ?_⟩
    rw [heq, pids, pids]

/-- Removing a job by its pid brings no pid. -/
theorem mem_pids_removeJobByPid {l : JobsList} {pid q : Int}
    (h : q ∈ (l.removeJobByPid pid).pids) : q ∈ l.pids := by
  rw [pids_removeJobByPid] at h
  exact List.mem_of_mem_erase h

/-- Nor does removing it by its id. -/
theorem mem_pids_removeJobById {l : JobsList} {jobId q : Int}
    (h : q ∈ (l.removeJobById jobId).pids) : q ∈ l.pids := by
  rw [pids, removeJobById_jobs] at h
  exact (List.eraseP_sublist.map JobEntry.pid).subset h

/-- Nor does removing the jobs that have finished. -/
theorem mem_pids_removeFinishedJobs {κ : Type} {waitpid : κ → Int → Int × κ} {l : JobsList}
    {procs : κ} {q : Int} (h : q ∈ (l.removeFinishedJobs waitpid procs).1.pids) : q ∈ l.pids := by
  unfold removeFinishedJobs at h
  generalize jobsToRemove waitpid l.jobs procs = r at h
  obtain ⟨finished, procs', out⟩ := r
  -- The induction is on the jobs that are removed.
  induction finished generalizing l with
  | nil => exact h
  | cons job finished ih => exact mem_pids_removeJobById (ih h)

/-- A job that comes back adds no other pid. -/
theorem mem_pids_addJobWithId {l : JobsList} {now jobId pid q : Int} {command : Text}
    {isStopped : Bool} (h : q ∈ (l.addJobWithId now jobId pid command isStopped).pids) :
    q = pid ∨ q ∈ l.pids := by
  obtain ⟨hslot, hnone⟩ := pids_addJobWithId l now jobId pid command isStopped
  by_cases hplace : HasSlot l.jobs jobId
  · exact List.mem_cons.mp ((hslot hplace).mem_iff.mp h)
  · exact .inr (hnone hplace ▸ h)

/-- Putting a job of this pid back and removing it again gives the same entries. -/
theorem removeJobByPid_addJobWithId {l : JobsList} {now jobId pid : Int} {command : Text}
    {isStopped : Bool} (hslot : HasSlot l.jobs jobId) (hpid : pid ∉ l.pids) :
    ((l.addJobWithId now jobId pid command isStopped).removeJobByPid pid).jobs = l.jobs := by
  rcases addJobWithId_cases l now jobId pid command isStopped with
    ⟨-, pre, post, hjobs, -, -, heq⟩ | ⟨hno, -, -⟩
  · -- The entry was inserted behind `pre`, where the pid does not occur.
    have hpre : ∀ job ∈ pre, ¬ (decide (job.pid = pid) = true) := by
      intro job hjob hjobpid
      rw [decide_eq_true_iff] at hjobpid
      apply hpid
      rw [pids, hjobs, List.map_append]
      exact List.mem_append.mpr (.inl (hjobpid ▸ List.mem_map_of_mem hjob))
    rw [removeJobByPid_jobs, heq, List.eraseP_append_right _ hpre,
      List.eraseP_cons_of_pos (by simp), hjobs]
  · exact absurd hslot hno

/-- No job that has not finished stands before a finished one with the same id. -/
def IdsTellFinished (finished : JobEntry → Bool) (jobs : List JobEntry) : Prop :=
  jobs.Pairwise fun x y => finished y = true → x.jobId = y.jobId → finished x = true

/-- Removing the marked entries by their ids removes just them, if no entry that is not marked
    stands before a marked one with the same id. -/
theorem foldl_removeMarked (kept : List JobEntry) {marked : List (JobEntry × Bool)} {l : JobsList}
    (hjobs : l.jobs = kept ++ marked.map Prod.fst)
    (hkept : ∀ x ∈ kept, ∀ y ∈ marked, y.2 = true → x.jobId ≠ y.1.jobId)
    (hmarked : marked.Pairwise fun x y => y.2 = true → x.1.jobId = y.1.jobId → x.2 = true) :
    (((marked.filter Prod.snd).map Prod.fst).foldl (fun l job => l.removeJobById job.jobId) l).jobs
      = kept ++ (marked.filter fun x => !x.2).map Prod.fst := by
  -- The induction is on the entries not looked at yet; `kept` are the others so far.
  induction marked generalizing kept l with
  | nil => simpa using hjobs
  | cons x marked ih =>
    obtain ⟨job, mark⟩ := x
    obtain ⟨hafter, htail⟩ := List.pairwise_cons.mp hmarked
    cases mark with
    | true =>
      rw [List.filter_cons_of_pos rfl, List.map_cons, List.foldl_cons,
        List.filter_cons_of_neg (by simp)]
      -- The entries before the job that are still there have other ids.
      have hbefore : ∀ x ∈ kept, ¬ (decide (x.jobId = job.jobId) = true) := by
        intro x hx hid
        exact hkept x hx _ List.mem_cons_self rfl (of_decide_eq_true hid)
      have herase : (l.removeJobById job.jobId).jobs = kept ++ marked.map Prod.fst := by
        rw [removeJobById_jobs, hjobs, List.map_cons, List.eraseP_append_right _ hbefore,
          List.eraseP_cons_of_pos (by simp)]
      exact ih kept herase (fun x hx y hy => hkept x hx y (List.mem_cons_of_mem _ hy)) htail
    | false =>
      rw [List.filter_cons_of_neg (by simp), List.filter_cons_of_pos rfl, List.map_cons]
      rw [List.map_cons, List.append_cons] at hjobs
      rw [List.append_cons]
      refine ih _ hjobs (fun x hx y hy hmark hid => ?_) htail
      rcases List.mem_append.mp hx with hx | hx
      · exact hkept x hx y (List.mem_cons_of_mem _ hy) hmark hid
      · rw [List.mem_singleton.mp hx] at hid
        exact absurd (hafter y hy hmark hid) Bool.false_ne_true

/-- So removing the finished jobs by their ids removes just them. -/
theorem foldl_removeJobById {finished : JobEntry → Bool} {l : JobsList}
    (hids : IdsTellFinished finished l.jobs) :
    ((l.jobs.filter finished).foldl (fun l job => l.removeJobById job.jobId) l).jobs =
      l.jobs.filter fun x => !finished x := by
  have h := @foldl_removeMarked [] (l.jobs.map fun job => (job, finished job)) l
    (by simp [Function.comp_def]) (by simp) (List.pairwise_map.mpr hids)
  rw [List.filter_map, List.filter_map, List.map_map, List.map_map] at h
  simpa [Function.comp_def] using h

/-- The process of the job is a zombie. -/
def isFinished (children : Children) (job : JobEntry) : Bool := children job.pid = some .zombie

/-- `waitpid` does nothing to a child that is not a zombie. -/
theorem waitNoHang_of_not_zombie {children : Children} {pid : Int}
    (h : children pid ≠ some .zombie) :
    (children.waitNoHang pid).1 ≤ 0 ∧ (children.waitNoHang pid).2 = children := by
  unfold Children.waitNoHang
  split
  · exact absurd ‹_› h
  · exact ⟨le_rfl, rfl⟩
  · exact ⟨show (-1 : Int) ≤ 0 by decide, rfl⟩

/-- `waitpid` reaps the listed zombies, each once. -/
theorem jobsToRemove_waitNoHang {jobs : List JobEntry} (children : Children)
    (hnodup : (jobs.map JobEntry.pid).Nodup) (hpos : ∀ job ∈ jobs, 0 < job.pid) :
    (jobsToRemove Children.waitNoHang jobs children).1 = jobs.filter (isFinished children) ∧
      ∀ pid, (jobsToRemove Children.waitNoHang jobs children).2.1.Unreaped pid ↔
        children.Unreaped pid ∧ ∀ job ∈ jobs, isFinished children job = true → job.pid ≠ pid := by
  -- `waitpid` on one job changes the state of no other: the pids are distinct.
  induction jobs generalizing children with
  | nil => exact ⟨rfl, by simp [jobsToRemove]⟩
  | cons job jobs ih =>
    rw [List.map_cons, List.nodup_cons] at hnodup
    obtain ⟨hnotin, hnodup⟩ := hnodup
    have hpos' : ∀ x ∈ jobs, 0 < x.pid := fun x hx => hpos x (List.mem_cons_of_mem _ hx)
    have hjobpos := hpos job List.mem_cons_self
    by_cases hzombie : children job.pid = some .zombie
    · -- The zombie is reaped, which changes nothing for the other jobs.
      have hstep : children.waitNoHang job.pid =
          (job.pid, Function.update children job.pid none) := by
        simp [Children.waitNoHang, hzombie]
      have hfinished : isFinished children job = true := by simp [isFinished, hzombie]
      have hothers : ∀ x ∈ jobs, isFinished (Function.update children job.pid none) x =
          isFinished children x := by
        intro x hx
        have hne : x.pid ≠ job.pid := fun heq => hnotin (heq ▸ List.mem_map_of_mem hx)
        rw [isFinished, Function.update_of_ne hne]
        rfl
      obtain ⟨hremove, hchildren⟩ :=
        ih (Function.update children job.pid none) hnodup hpos'
      simp only [jobsToRemove, hstep, if_pos hjobpos]
      refine ⟨?_, fun pid => ?_⟩
      · rw [hremove, List.filter_cons_of_pos hfinished, List.filter_congr hothers]
      · rw [hchildren, List.forall_mem_cons]
        have hrest : (∀ x ∈ jobs, isFinished (Function.update children job.pid none) x = true →
            x.pid ≠ pid) ↔ ∀ x ∈ jobs, isFinished children x = true → x.pid ≠ pid :=
          forall₂_congr fun x hx => by rw [hothers x hx]
        rw [hrest]
        unfold Children.Unreaped
        by_cases hpid : pid = job.pid
        · subst hpid
          simp [hfinished]
        · rw [Function.update_of_ne hpid]
          simp [hfinished, Ne.symm hpid]
    · obtain ⟨hstatus, hsame⟩ := waitNoHang_of_not_zombie hzombie
      have hnot : isFinished children job = false := by simp [isFinished, hzombie]
      obtain ⟨hremove, hchildren⟩ := ih children hnodup hpos'
      simp only [jobsToRemove, hsame, if_neg (not_lt.mpr hstatus)]
      refine ⟨?_, fun pid => ?_⟩
      · rw [hremove, List.filter_cons_of_neg (by simp [hnot])]
      · rw [hchildren, List.forall_mem_cons]
        simp [hnot]

end JobsList

namespace Smash

/-! ## Agreement of the list with the process table -/

/-- Every unreaped child is listed once, and only unreaped children are listed. -/
structure Tracks (l : JobsList) (children : Children) : Prop where
  once : ∀ pid, children.Unreaped pid → l.pids.count pid = 1
  unreaped : ∀ job ∈ l.jobs, children.Unreaped job.pid

/-- The pids of a list are those with a property, once each. -/
def Holds (pids : List Int) (P : Int → Prop) : Prop := pids.Nodup ∧ ∀ pid, pid ∈ pids ↔ P pid

/-- A list that holds the children that are not reaped tracks them. -/
theorem Holds.tracks {l : JobsList} {children : Children} (h : Holds l.pids children.Unreaped) :
    Tracks l children where
  once pid hpid := List.count_eq_one_of_mem h.1 ((h.2 pid).mpr hpid)
  unreaped job hjob := (h.2 job.pid).mp (List.mem_map_of_mem hjob)

/-- The list holds what is equivalent. -/
theorem Holds.congr {pids : List Int} {P Q : Int → Prop} (h : Holds pids P)
    (hPQ : ∀ pid, Q pid ↔ P pid) : Holds pids Q :=
  ⟨h.1, fun pid => (h.2 pid).trans (hPQ pid).symm⟩

/-- One pid more. -/
theorem Holds.add {pids pids' : List Int} {P Q : Int → Prop} (pid : Int) (h : Holds pids P)
    (hnew : ¬ P pid) (hperm : pids'.Perm (pid :: pids)) (hQ : ∀ q, Q q ↔ q = pid ∨ P q) :
    Holds pids' Q := by
  refine ⟨hperm.nodup_iff.mpr (List.nodup_cons.mpr ⟨fun hmem => hnew ((h.2 pid).mp hmem), h.1⟩),
    fun q => ?_⟩
  rw [hperm.mem_iff, List.mem_cons, h.2, hQ]

/-- One pid less. -/
theorem Holds.erase {pids : List Int} {P : Int → Prop} (h : Holds pids P) (pid : Int) :
    Holds (pids.erase pid) fun q => P q ∧ q ≠ pid := by
  refine ⟨h.1.erase pid, fun q => ?_⟩
  rw [h.1.mem_erase_iff, h.2, and_comm]

/-- A property is that of one pid, or of another one. -/
theorem iff_eq_or_and_ne {P : Int → Prop} {pid : Int} (h : P pid) (q : Int) :
    P q ↔ q = pid ∨ P q ∧ q ≠ pid := by
  by_cases hq : q = pid
  · subst hq
    simp [h]
  · simp [hq]

/-- The foreground child that the shell waits for. -/
def waitsFor : ShellPoint → Option Int
  | .prompt | .ready => none
  | .external pid => some pid
  | .foreground job _ _ => some job.pid

/-- The step keeps the list and the process table together. A wait does not reap a child
    that `SIGTSTP` has put on the list, and does not report the stop of one that it has not;
    a fresh child is put on the list once in a wait, and a job that returns under its id
    finds a place the first time and no second one; and finished jobs are told by their
    ids. -/
def KeepsJobs (s : Smash) : SmashAction → Prop
  | .removeFinishedJobs => IdsTellFinished (isFinished s.children) s.shell.jobsList.jobs
  | .execute cmd_line _ => ∀ job, Resumes s.shell.jobsList cmd_line job →
    HasSlot (s.shell.jobsList.removeJobByPid job.pid).jobs job.jobId
  | .ctrlZ permitted _ =>
    let pid := s.shell.currentPidForegroundProcess
    (s.children.kill pid Children.SIGSTOP permitted).1 = true →
      if s.shell.currentJobIdForegroundProcess ≠ SmallShell.RESET_JOBID_VALUE then
        (HasSlot s.shell.jobsList.jobs s.shell.currentJobIdForegroundProcess ↔
          pid ∉ s.shell.jobsList.pids)
      else pid ∉ s.shell.jobsList.pids
  | .waitReturns => ∀ pid ∈ waitsFor s.point,
    (s.children pid = some .zombie → pid ∉ s.shell.jobsList.pids) ∧
      (s.children pid = some (.stopped false) → pid ∈ s.shell.jobsList.pids)
  | .ctrlC _ | .child _ _ => True

/-- The invariant. During a wait the foreground child is not on the list until `SIGTSTP`
    has put it there. -/
structure JobsInv (s : Smash) : Prop where
  positive : ∀ pid, s.children.Unreaped pid → 0 < pid
  prompt : waitsFor s.point = none → Holds s.shell.jobsList.pids s.children.Unreaped
  waiting : ∀ pid, waitsFor s.point = some pid →
    s.children.Unreaped pid ∧ s.shell.currentPidForegroundProcess = pid ∧
      (Holds s.shell.jobsList.pids (fun q => s.children.Unreaped q ∧ q ≠ pid) ∨
        Holds s.shell.jobsList.pids s.children.Unreaped)

/-- The invariant holds in a new shell. -/
theorem jobsInv_initial : JobsInv initial where
  positive _ h := nomatch h
  prompt _ := ⟨List.nodup_nil, fun _ => iff_of_false (fun h => by cases h) (fun h => by cases h)⟩
  waiting _ h := nomatch h

/-- Nothing changes for the list when the same children are unreaped. -/
theorem JobsInv.same {s s' : Smash} (h : JobsInv s) (hpoint : s'.point = s.point)
    (hpids : s'.shell.jobsList.pids = s.shell.jobsList.pids)
    (hpid : s'.shell.currentPidForegroundProcess = s.shell.currentPidForegroundProcess)
    (hsame : s.children.Same s'.children) : JobsInv s' where
  positive pid hun := h.positive pid ((hsame pid).mp hun)
  prompt hnone := by
    rw [hpids]
    exact (h.prompt (hpoint ▸ hnone)).congr hsame
  waiting pid hsome := by
    obtain ⟨hun, hcurrent, hholds⟩ := h.waiting pid (hpoint ▸ hsome)
    rw [hpids]
    refine ⟨(hsame pid).mpr hun, hpid.trans hcurrent, ?_⟩
    rcases hholds with hholds | hholds
    · exact .inl (hholds.congr fun q => by rw [hsame q])
    · exact .inr (hholds.congr hsame)

/-- The invariant at the prompt. -/
theorem JobsInv.at_prompt {s : Smash} (hpoint : waitsFor s.point = none)
    (hpositive : ∀ pid, s.children.Unreaped pid → 0 < pid)
    (hholds : Holds s.shell.jobsList.pids s.children.Unreaped) : JobsInv s where
  positive := hpositive
  prompt _ := hholds
  waiting pid h := by
    rw [hpoint] at h
    cases h

/-- A child that was forked is not reaped yet. -/
theorem unreaped_fork (children : Children) (pid q : Int) :
    (children.fork pid).Unreaped q ↔ q = pid ∨ children.Unreaped q := by
  unfold Children.fork Children.Unreaped
  by_cases hq : q = pid
  · subst hq
    simp
  · rw [Function.update_of_ne hq]
    simp [hq]

/-- Removing the finished jobs reaps and removes the same children. -/
theorem holds_removeFinishedJobs {l : JobsList} {children : Children}
    (hholds : Holds l.pids children.Unreaped) (hpos : ∀ pid, children.Unreaped pid → 0 < pid)
    (hids : IdsTellFinished (isFinished children) l.jobs) :
    Holds (l.removeFinishedJobs Children.waitNoHang children).1.pids
      (l.removeFinishedJobs Children.waitNoHang children).2.1.Unreaped ∧
    ∀ pid, (l.removeFinishedJobs Children.waitNoHang children).2.1.Unreaped pid →
      children.Unreaped pid := by
  -- The code compares the result of `waitpid` with 0, so the pids must be positive.
  have hposjobs : ∀ job ∈ l.jobs, 0 < job.pid := fun job hjob =>
    hpos _ ((hholds.2 _).mp (List.mem_map_of_mem hjob))
  obtain ⟨hremove, hchildren⟩ :=
    jobsToRemove_waitNoHang children hholds.1 hposjobs
  -- What `waitpid` reaped is what the removal by ids removes.
  have hjobs : (l.removeFinishedJobs Children.waitNoHang children).1.jobs =
      l.jobs.filter fun x => !isFinished children x := by
    rw [← foldl_removeJobById hids, ← hremove]
    rfl
  refine ⟨⟨?_, fun pid => ?_⟩, fun pid hun => ((hchildren pid).mp hun).1⟩
  · rw [pids, hjobs]
    exact hholds.1.sublist (List.filter_sublist.map JobEntry.pid)
  · show _ ↔ (jobsToRemove Children.waitNoHang l.jobs children).2.1.Unreaped pid
    rw [hchildren, pids, hjobs, List.mem_map]
    constructor
    · intro h
      obtain ⟨job, hjob, rfl⟩ := h
      obtain ⟨hmem, hnot⟩ := List.mem_filter.mp hjob
      refine ⟨(hholds.2 _).mp (List.mem_map_of_mem hmem), fun x hx hfinished heq => ?_⟩
      -- Another entry with the same pid would be the same process.
      rw [isFinished, heq] at hfinished
      rw [isFinished, hfinished] at hnot
      cases hnot
    · intro h
      obtain ⟨hun, hnone⟩ := h
      obtain ⟨job, hjob, rfl⟩ := List.mem_map.mp ((hholds.2 pid).mpr hun)
      refine ⟨job, List.mem_filter.mpr ⟨hjob, ?_⟩, rfl⟩
      cases hfinished : isFinished children job with
      | false => rfl
      | true => exact absurd rfl (hnone job hjob hfinished)

/-- A job that goes to the background is listed as before. -/
theorem holds_resumed {l : JobsList} {children : Children} {job : JobEntry}
    (hholds : Holds l.pids children.Unreaped) (hjob : job ∈ l.jobs)
    (hslot : HasSlot (l.removeJobByPid job.pid).jobs job.jobId) (now : Int) :
    Holds (resumed l job now).pids children.Unreaped := by
  have hun := (hholds.2 job.pid).mp (List.mem_map_of_mem hjob)
  have hremoved := hholds.erase job.pid
  rw [← pids_removeJobByPid] at hremoved
  exact hremoved.add job.pid (fun h => h.2 rfl)
    ((pids_addJobWithId _ _ _ _ _ _).1 hslot) (iff_eq_or_and_ne hun)

/-- So is a job whose move to the background is taken back. -/
theorem holds_takenBack {l : JobsList} {children : Children} {job : JobEntry}
    (hholds : Holds l.pids children.Unreaped) (hjob : job ∈ l.jobs)
    (hslot : HasSlot (l.removeJobByPid job.pid).jobs job.jobId) (now now' : Int) :
    Holds (takenBack l job now now').pids children.Unreaped := by
  have hremoved := hholds.erase job.pid
  rw [← pids_removeJobByPid] at hremoved
  have hnot : job.pid ∉ (l.removeJobByPid job.pid).pids := fun h => ((hremoved.2 _).mp h).2 rfl
  -- The second removal finds the list as it was after the first one.
  have hback : ((resumed l job now).removeJobByPid job.pid).jobs =
      (l.removeJobByPid job.pid).jobs := removeJobByPid_addJobWithId hslot hnot
  have hpids : ((resumed l job now).removeJobByPid job.pid).pids =
      (l.removeJobByPid job.pid).pids := congrArg (List.map JobEntry.pid) hback
  have hun := (hholds.2 job.pid).mp (List.mem_map_of_mem hjob)
  have hperm := (pids_addJobWithId ((resumed l job now).removeJobByPid job.pid) now' job.jobId
    job.pid job.command true).1 (hback ▸ hslot)
  rw [hpids] at hperm
  exact hremoved.add job.pid (fun h => h.2 rfl) hperm (iff_eq_or_and_ne hun)

/-- A `waitpid` that returns has reaped the child or reports its stop. -/
theorem waitUntraced_cases {children children' : Children} {pid status : Int}
    (hun : children.Unreaped pid) (h : children.waitUntraced pid = some (status, children')) :
    (children pid = some .zombie ∧
      ∀ q, children'.Unreaped q ↔ children.Unreaped q ∧ q ≠ pid) ∨
    (children pid = some (.stopped false) ∧ children.Same children') := by
  -- The call returns for a zombie and for a stop not reported yet, and only then.
  unfold Children.waitUntraced at h
  split at h
  · rename_i hzombie
    cases h
    refine .inl ⟨hzombie, fun q => ?_⟩
    unfold Children.Unreaped
    by_cases hq : q = pid
    · subst hq
      simp
    · rw [Function.update_of_ne hq]
      simp [hq]
  · rename_i hstopped
    cases h
    refine .inr ⟨hstopped, fun q => ?_⟩
    unfold Children.Unreaped
    by_cases hq : q = pid
    · subst hq
      simp [hstopped]
    · rw [Function.update_of_ne hq]
  · cases h
  · rename_i hnone
    rw [Children.Unreaped, hnone] at hun
    cases hun

/-- The end of a wait that ends as the list says. -/
theorem JobsInv.returned {s s' : Smash} (h : JobsInv s) {pid status : Int} {children : Children}
    (hpoint : waitsFor s.point = some pid) (hkeeps : s.KeepsJobs .waitReturns)
    (hwait : s.children.waitUntraced pid = some (status, children))
    (hpoint' : waitsFor s'.point = none) (hchildren : s'.children = children)
    (hpids : s'.shell.jobsList.pids = s.shell.jobsList.pids) : JobsInv s' := by
  obtain ⟨hun, -, hholds⟩ := h.waiting pid hpoint
  obtain ⟨hreaped, hreported⟩ := hkeeps pid hpoint
  subst hchildren
  -- A reaped child must not be on the list; a stopped one must be.
  rcases waitUntraced_cases hun hwait with ⟨hzombie, hchildren⟩ | ⟨hstopped, hsame⟩
  · refine .at_prompt hpoint' (fun q hq => h.positive q ((hchildren q).mp hq).1) ?_
    rw [hpids]
    rcases hholds with hholds | hholds
    · exact hholds.congr hchildren
    · exact absurd ((hholds.2 pid).mpr hun) (hreaped hzombie)
  · refine .at_prompt hpoint' (fun q hq => h.positive q ((hsame q).mp hq)) ?_
    rw [hpids]
    rcases hholds with hholds | hholds
    · exact absurd rfl ((hholds.2 pid).mp (hreported hstopped)).2
    · exact hholds.congr hsame

/-- `SIGTSTP` puts the foreground child on the list once. -/
theorem JobsInv.ctrlZ {s : Smash} (h : JobsInv s) {permitted : Bool} {now : Int}
    (hkeeps : s.KeepsJobs (.ctrlZ permitted now)) (hwait : Waiting s.point)
    {children : Children}
    (hkill : s.children.kill s.shell.currentPidForegroundProcess Children.SIGSTOP permitted =
      (true, children)) {jobsList : JobsList}
    (hjobsList : jobsList =
      if s.shell.currentJobIdForegroundProcess ≠ SmallShell.RESET_JOBID_VALUE then
        s.shell.jobsList.addJobWithId now s.shell.currentJobIdForegroundProcess
          s.shell.currentPidForegroundProcess s.shell.currentCommand true
      else s.shell.jobsList.addJob now s.shell.currentPidForegroundProcess
        s.shell.currentCommand true) :
    JobsInv ⟨{ s.shell with jobsList := jobsList }, children, s.point⟩ := by
  have hsame := s.children.kill_same s.shell.currentPidForegroundProcess Children.SIGSTOP permitted
  rw [hkill] at hsame
  have hkeeps' := hkeeps (by rw [hkill])
  refine ⟨fun pid hun => h.positive pid ((hsame pid).mp hun), fun hnone => ?_, fun pid hpid => ?_⟩
  · -- The handler runs during a wait, never at the prompt.
    exfalso
    cases hpoint : s.point with
    | prompt => exact absurd hwait (by rw [hpoint]; exact id)
    | ready => exact absurd hwait (by rw [hpoint]; exact id)
    | external pid =>
      simp only [hpoint] at hnone
      cases hnone
    | foreground job prevPid prevJobId =>
      simp only [hpoint] at hnone
      cases hnone
  · obtain ⟨hun, rfl, hholds⟩ := h.waiting pid hpid
    refine ⟨(hsame _).mpr hun, rfl, .inr (Holds.congr ?_ hsame)⟩
    -- The child is added when it is missing, and stays as it is when it is there.
    have hadd : ∀ l : JobsList, s.shell.currentPidForegroundProcess ∉ s.shell.jobsList.pids →
        l.pids.Perm (s.shell.currentPidForegroundProcess :: s.shell.jobsList.pids) →
        Holds l.pids s.children.Unreaped := by
      intro l hnot hperm
      rcases hholds with hholds | hholds
      · exact hholds.add _ (fun hq => hq.2 rfl) hperm (iff_eq_or_and_ne hun)
      · exact absurd ((hholds.2 _).mpr hun) hnot
    by_cases hfg : s.shell.currentJobIdForegroundProcess ≠ SmallShell.RESET_JOBID_VALUE
    · rw [if_pos hfg] at hkeeps' hjobsList
      have hpids := pids_addJobWithId s.shell.jobsList now s.shell.currentJobIdForegroundProcess
        s.shell.currentPidForegroundProcess s.shell.currentCommand true
      rw [← hjobsList] at hpids
      by_cases hnot : s.shell.currentPidForegroundProcess ∉ s.shell.jobsList.pids
      · exact hadd jobsList hnot (hpids.1 (hkeeps'.mpr hnot))
      · show Holds jobsList.pids _
        rw [hpids.2 fun hslot => hnot (hkeeps'.mp hslot)]
        rcases hholds with hholds | hholds
        · exact absurd rfl ((hholds.2 _).mp (not_not.mp hnot)).2
        · exact hholds
    · rw [if_neg hfg] at hkeeps' hjobsList
      exact hadd jobsList hkeeps' (hjobsList ▸ pids_addJob _ _ _ _ _)

/-- Steps that meet the condition keep the invariant. -/
theorem JobsInv.step {s s' : Smash} {a : SmashAction} (h : JobsInv s) (hkeeps : s.KeepsJobs a)
    (hstep : Step s a s') : JobsInv s' := by
  cases hstep with
  | @removeFinishedJobs jobsList children out hpoint hrun =>
    have hholds := h.prompt (by rw [hpoint]; rfl)
    obtain ⟨hholds', hreaped⟩ := holds_removeFinishedJobs hholds h.positive hkeeps
    rw [hrun] at hholds' hreaped
    exact .at_prompt rfl (fun pid hun => h.positive pid (hreaped pid hun)) hholds'
  | nothing hpoint hsame =>
    have hholds := h.prompt (by rw [hpoint]; rfl)
    exact .at_prompt rfl (fun pid hun => h.positive pid ((hsame pid).mp hun)) (hholds.congr hsame)
  | @external cmd_line env pid hpoint hforked hpid hnew =>
    have hholds := h.prompt (by rw [hpoint]; rfl)
    -- The fresh child is the one that the shell waits for, and it is not on the list.
    refine ⟨fun q hq => ?_, (fun hnone => by cases hnone), fun q hq => ?_⟩
    · rcases (unreaped_fork _ _ _).mp hq with rfl | hq
      · exact hpid
      · exact h.positive q hq
    · cases hq
      refine ⟨(unreaped_fork _ _ _).mpr (.inl rfl), rfl, .inl (hholds.congr fun q => ?_)⟩
      rw [unreaped_fork]
      constructor
      · rintro ⟨rfl | hq, hne⟩
        · exact absurd rfl hne
        · exact hq
      · exact fun hq => ⟨.inr hq, fun heq => hnew (heq ▸ hq)⟩
  | @background cmd_line env pid hpoint hstarts hforked hpid hnew =>
    have hholds := h.prompt (by rw [hpoint]; rfl)
    refine .at_prompt rfl (fun q hq => ?_)
      (hholds.add _ hnew (pids_addJob _ _ _ _ _) (unreaped_fork _ _))
    rcases (unreaped_fork _ _ _).mp hq with rfl | hq
    · exact hpid
    · exact h.positive q hq
  | @foreground cmd_line env job children hpoint hjob hsame =>
    have hholds := h.prompt (by rw [hpoint]; rfl)
    have hun := (hholds.2 job.pid).mp (List.mem_map_of_mem hjob)
    -- `fg` takes the job off the list before it waits.
    refine ⟨fun q hq => h.positive q ((hsame q).mp hq), (fun hnone => by cases hnone),
      fun q hq => ?_⟩
    cases hq
    refine ⟨(hsame _).mpr hun, rfl, .inl ?_⟩
    have hremoved := hholds.erase job.pid
    rw [← pids_removeJobByPid] at hremoved
    exact hremoved.congr fun q => by rw [hsame q]
  | resume hpoint hjob hresumes hsame =>
    have hholds := h.prompt (by rw [hpoint]; rfl)
    exact .at_prompt rfl (fun pid hun => h.positive pid ((hsame pid).mp hun))
      ((holds_resumed hholds hjob (hkeeps _ hresumes) _).congr hsame)
  | takeBack hpoint hjob hresumes hkill hsame =>
    have hholds := h.prompt (by rw [hpoint]; rfl)
    exact .at_prompt rfl (fun pid hun => h.positive pid ((hsame pid).mp hun))
      ((holds_takenBack hholds hjob (hkeeps _ hresumes) _ _).congr hsame)
  | ctrlC hwait hsame => exact h.same rfl rfl rfl hsame
  | ctrlZ hwait hpid hkill => exact h.ctrlZ hkeeps hwait hkill rfl
  | ctrlZ_fails => exact h
  | externalReturns hpoint hwait =>
    exact h.returned (by rw [hpoint]; rfl) hkeeps hwait rfl rfl rfl
  | foregroundReturns hpoint hwait =>
    exact h.returned (by rw [hpoint]; rfl) hkeeps hwait rfl rfl rfl
  | child hevent => exact h.same rfl rfl rfl (Children.event_same hevent)

/-- Along every run whose steps meet the condition, whenever `removeFinishedJobs` has run
    at the prompt, the list and the unreaped children agree. -/
theorem tracks_of_keepsJobs (acts : List SmashAction)
    (h : machine.EveryStep KeepsJobs initial acts) :
    machine.EveryState (fun s => s.point = .ready → Tracks s.shell.jobsList s.children)
      initial acts :=
  Machine.everyState_of_everyStep jobsInv_initial
    (fun s hinv (hready : s.point = .ready) => (hinv.prompt (by rw [hready]; rfl)).tracks)
    (fun _ _ _ _ hinv hkeeps hstep => hinv.step hkeeps (step_cases hstep)) h

/-- A foreground child is stopped by one `SIGTSTP`. -/
def stopOnceRun : List SmashAction :=
  [.removeFinishedJobs, .execute (text "sleep 9") (forks 100), .ctrlZ true 0, .waitReturns,
   .removeFinishedJobs]

theorem tracks_stopOnceRun :
    (∃ s out, machine.exec initial stopOnceRun = .ok (s, out) ∧
      s.shell.jobsList.pids = [100] ∧ s.point = .ready) ∧
    machine.EveryState (fun s => s.point = .ready → Tracks s.shell.jobsList s.children)
      initial stopOnceRun := by
  refine ⟨⟨_, _, rfl, by decide, rfl⟩, tracks_of_keepsJobs stopOnceRun ?_⟩
  intro _ _ h
  obtain ⟨⟩ := h
  refine ⟨List.Pairwise.nil, ?_⟩
  intro _ _ h
  obtain ⟨⟩ := h
  refine ⟨(fun _ ⟨_, hlookup, _⟩ => by cases hlookup), ?_⟩
  intro _ _ h
  obtain ⟨⟩ := h
  refine ⟨fun _ => ?_, ?_⟩
  · rw [if_neg (by decide)]
    decide
  intro _ _ h
  obtain ⟨⟩ := h
  refine ⟨?_, ?_⟩
  · intro _ h
    obtain ⟨⟩ := h
    exact ⟨fun h => absurd h (by decide), fun _ => by decide⟩
  intro _ _ h
  obtain ⟨⟩ := h
  exact ⟨List.pairwise_singleton _ _, trivial⟩

/-- Two `SIGTSTP` are handled before `waitpid` returns: the child is listed twice. -/
def stopTwiceRun : List SmashAction :=
  [.removeFinishedJobs, .execute (text "sleep 9") (forks 100), .ctrlZ true 0, .ctrlZ true 0,
   .waitReturns, .removeFinishedJobs]

theorem stopTwiceRun_listed_twice :
    ∃ s out, machine.exec initial stopTwiceRun = .ok (s, out) ∧ s.point = .ready ∧
      s.shell.jobsList.pids = [100, 100] ∧ ¬ Tracks s.shell.jobsList s.children :=
  ⟨_, _, rfl, rfl, by decide, fun h => absurd (h.once 100 (by decide)) (by decide)⟩

end Smash

end OsWet
