import OsWet.Spec.SmashJobs

/-!
# Which jobs are removed when they have finished

`removeFinishedJobs` asks `waitpid` for every entry, and then removes by their ids those for which
it answered with a pid. Whatever the answers are, just these entries go, and `maxJobId` is the last
id again.
-/

namespace OsWet.JobsList

open Text

/-- `waitpid` with its answers given in order. It keeps the pids that it is called for. -/
def givenAnswers (s : List Int × List Int) (pid : Int) : Int × List Int × List Int :=
  (s.1.headD 0, s.1.tail, s.2 ++ [pid])

/-- Every entry with whether its answer is a pid. -/
def marked (jobs : List JobEntry) (answers : List Int) : List (JobEntry × Bool) :=
  jobs.zip (answers.map fun answer => decide (0 < answer))

/-- Each job gets one answer. -/
theorem marked_fst {jobs : List JobEntry} {answers : List Int}
    (h : answers.length = jobs.length) : (marked jobs answers).map Prod.fst = jobs := by
  rw [marked, List.map_fst_zip (by rw [List.length_map, h])]

/-- The first loop asks once for every entry, in order, and keeps those whose answer is a pid. -/
theorem jobsToRemove_givenAnswers {jobs : List JobEntry} {answers : List Int} (calls : List Int)
    (h : answers.length = jobs.length) :
    (jobsToRemove givenAnswers jobs (answers, calls)).1 =
        ((marked jobs answers).filter Prod.snd).map Prod.fst ∧
      (jobsToRemove givenAnswers jobs (answers, calls)).2.1 =
        ([], calls ++ jobs.map JobEntry.pid) := by
  -- By induction on the jobs, one answer for each.
  induction jobs generalizing answers calls with
  | nil =>
    obtain rfl := List.length_eq_zero_iff.mp h
    exact ⟨rfl, by simp [jobsToRemove]⟩
  | cons job jobs ih =>
    cases answers with
    | nil => simp at h
    | cons answer answers =>
      obtain ⟨hremove, hcalls⟩ := ih (calls ++ [job.pid]) (Nat.succ.inj h)
      -- The job of the first answer is removed if the answer is positive; the call is made in any
      -- case.
      constructor
      · simp only [jobsToRemove, givenAnswers, List.headD_cons, List.tail_cons, hremove, marked,
          List.map_cons, List.zip_cons_cons, List.filter_cons, decide_eq_true_eq]
        split <;> rfl
      · simp only [jobsToRemove, givenAnswers, List.tail_cons, hcalls, List.map_cons,
          List.append_assoc, List.singleton_append]

/-- The ids are increasing, and `maxJobId` is the last of them, or 0 when there is none. -/
structure MaxIsLast (l : JobsList) : Prop where
  increasing : (l.jobs.map JobEntry.jobId).Pairwise (· < ·)
  max : l.maxJobId = lastId l.jobs

/-- Taking a job off the list keeps the largest id at its end. -/
theorem MaxIsLast.removeJobById {l : JobsList} (h : MaxIsLast l) (jobId : Int) :
    MaxIsLast (l.removeJobById jobId) := by
  rcases removeJobById_cases l jobId with ⟨-, heq⟩ | ⟨pre, job, post, hjobs, -, -, heq⟩
  · rwa [heq]
  · obtain ⟨hincreasing, hmax⟩ := h
    rw [hjobs] at hincreasing hmax
    rw [heq]
    constructor
    · rw [eraseJob_jobs hjobs]
      exact increasing_erase hincreasing
    · rw [eraseJob_jobs hjobs]
      exact eraseJob_maxJobId hjobs hincreasing hmax

/-- Whatever the order in which entries are removed, `maxJobId` is the last id in the end. -/
theorem MaxIsLast.foldl_removeJobById {l : JobsList} (h : MaxIsLast l) (removed : List JobEntry) :
    MaxIsLast (removed.foldl (fun l job => l.removeJobById job.jobId) l) := by
  induction removed generalizing l with
  | nil => exact h
  | cons job removed ih => exact ih (h.removeJobById job.jobId)

/-- Just the entries for which `waitpid` answers with a pid are removed. It is called once for
    every entry, and `maxJobId` is the largest id that is left. -/
theorem removeFinishedJobs_exact {l : JobsList} {answers : List Int}
    (hids : (l.jobs.map JobEntry.jobId).Pairwise (· < ·)) (hmax : l.maxJobId = lastId l.jobs)
    (hanswers : answers.length = l.jobs.length) :
    let (l', (rest, calls), _) := l.removeFinishedJobs givenAnswers (answers, [])
    l'.jobs = ((l.jobs.zip answers).filter fun x => ¬ 0 < x.2).map Prod.fst ∧
      rest = [] ∧ calls = l.jobs.map JobEntry.pid ∧
        (l'.jobs = [] → l'.maxJobId = 0) ∧ (∀ job ∈ l'.jobs, job.jobId ≤ l'.maxJobId) ∧
          (l'.jobs ≠ [] → ∃ job ∈ l'.jobs, job.jobId = l'.maxJobId) := by
  obtain ⟨hremove, hcalls⟩ := jobsToRemove_givenAnswers [] hanswers
  have hlast := MaxIsLast.foldl_removeJobById ⟨hids, hmax⟩
    (jobsToRemove givenAnswers l.jobs (answers, [])).1
  -- With increasing ids no two entries have the same one.
  have hmarked : (marked l.jobs answers).Pairwise
      fun x y => y.2 = true → x.1.jobId = y.1.jobId → x.2 = true := by
    have hpairs : (marked l.jobs answers).Pairwise fun x y => x.1.jobId < y.1.jobId := by
      rw [← marked_fst hanswers, List.map_map] at hids
      exact List.pairwise_map.mp hids
    exact hpairs.imp fun hlt _ heq => absurd heq hlt.ne
  -- Removing by id removes exactly the marked entries.
  have hjobs := @foldl_removeMarked [] _ l (marked_fst hanswers).symm (by simp) hmarked
  rw [← hremove, List.nil_append] at hjobs
  have hleft : ((marked l.jobs answers).filter fun x => !x.2).map Prod.fst =
      ((l.jobs.zip answers).filter fun x => ¬ 0 < x.2).map Prod.fst := by
    rw [marked, List.zip_map_right, List.filter_map, List.map_map]
    simp only [decide_not]
    rfl
  unfold removeFinishedJobs
  generalize jobsToRemove givenAnswers l.jobs (answers, []) = r at hremove hcalls hlast hjobs
  obtain ⟨finished, ⟨rest, calls⟩, out⟩ := r
  obtain ⟨rfl, rfl⟩ := Prod.mk.inj hcalls
  dsimp only at hlast hjobs ⊢
  -- The list, the calls, and the three parts about `maxJobId`.
  refine ⟨hjobs.trans hleft, rfl, rfl, fun hnil => ?_, fun job hjob => ?_, fun hne => ?_⟩
  · rw [hlast.max, hnil]
    rfl
  · rw [hlast.max]
    exact le_lastId hlast.increasing job hjob
  · obtain ⟨job, hjob, hid⟩ := exists_lastId hne
    exact ⟨job, hjob, by rw [hlast.max, hid]⟩

/-- Of three jobs the last two have finished. -/
theorem removeFinishedJobs_exact_run :
    let l : JobsList := ⟨[⟨0, 100, 1, text "sleep 9", true⟩, ⟨0, 200, 2, text "cat", false⟩,
      ⟨0, 300, 3, text "top", false⟩], 3⟩
    let (l', (rest, calls), _) := l.removeFinishedJobs givenAnswers ([0, 200, 300], [])
    l'.jobs = ((l.jobs.zip [0, 200, 300]).filter fun x => ¬ (0 : Int) < x.2).map Prod.fst ∧
      rest = [] ∧ calls = l.jobs.map JobEntry.pid ∧
        (l'.jobs = [] → l'.maxJobId = 0) ∧ (∀ job ∈ l'.jobs, job.jobId ≤ l'.maxJobId) ∧
          (l'.jobs ≠ [] → ∃ job ∈ l'.jobs, job.jobId = l'.maxJobId) := by
  intro l
  exact @removeFinishedJobs_exact l [0, 200, 300] (by decide) (by decide) rfl

end OsWet.JobsList
