import OsWet.Native.QuitCommand
import OsWet.Spec.SmashJobs
import Mathlib.Data.Finset.Card

/-!
# `quit kill`

At the prompt the jobs list holds the unreaped children, each once, as long as the jobs are
kept. So `quit kill` sends `SIGKILL` to every unreaped child, once, and to nobody else, and a
failure for one of them does not keep it from the others. A child that the shell may signal
never runs or stops again, whatever happens to it afterwards.
-/

namespace OsWet

open Text

/-! ## Children that were killed -/

namespace Children

/-- There is no such child, or it can only die. -/
def Doomed (children : Children) (pid : Int) : Prop :=
  ∀ state, children pid = some state → state = .dying ∨ state = .zombie

/-- One event after the other. -/
def events (children : Children) : List (Int × ChildEvent) → Option Children
  | [] => some children
  | (pid, e) :: es => (children.event pid e).bind fun children => events children es

/-- No event of any child brings a doomed child back. -/
theorem Doomed.event {children children' : Children} {pid q : Int} {e : ChildEvent}
    (h : children.Doomed q) (hevent : children.event pid e = some children') :
    children'.Doomed q := by
  intro state hstate
  unfold Children.event at hevent
  by_cases hq : q = pid
  · subst hq
    -- A child that is doomed can only exit.
    split at hevent
    all_goals cases hevent
    all_goals rename_i hold
    all_goals rw [Function.update_self] at hstate
    all_goals cases hstate
    · exact .inr rfl
    · exact .inr rfl
    · exact .inr rfl
    · obtain ⟨⟨⟩⟩ | ⟨⟨⟩⟩ := h _ hold
    · obtain ⟨⟨⟩⟩ | ⟨⟨⟩⟩ := h _ hold
  · split at hevent
    all_goals cases hevent
    all_goals rw [Function.update_of_ne hq] at hstate
    all_goals exact h state hstate

/-- Nor does a sequence of events. -/
theorem Doomed.events {children children' : Children} {q : Int} {es : List (Int × ChildEvent)}
    (h : children.Doomed q) (hevents : children.events es = some children') :
    children'.Doomed q := by
  induction es generalizing children with
  | nil =>
    cases hevents
    exact h
  | cons first es ih =>
    obtain ⟨children₁, hevent, hrest⟩ := Option.bind_eq_some_iff.mp hevents
    exact ih (h.event hevent) hrest

/-- A child that is sent `SIGKILL` is dying or has died. -/
theorem signalled_SIGKILL (state : ChildState) :
    signalled SIGKILL state = .dying ∨ signalled SIGKILL state = .zombie := by
  cases state with
  | running => exact .inl rfl
  | stopped reported => exact .inl rfl
  | dying => exact .inl rfl
  | zombie => exact .inr rfl

/-- A second `SIGKILL` does nothing. -/
theorem signalled_SIGKILL_twice (state : ChildState) :
    signalled SIGKILL (signalled SIGKILL state) = signalled SIGKILL state := by
  cases state <;> rfl

/-- The children after a `kill`, one by one. -/
theorem kill_apply (children : Children) (pid sig : Int) (permitted : Bool) (q : Int) :
    (children.kill pid sig permitted).2 q =
      if q = pid ∧ permitted = true then (children q).map (signalled sig) else children q := by
  unfold kill
  by_cases hq : q = pid
  · subst hq
    cases hstate : children q with
    | none => simp [hstate]
    | some state => cases permitted <;> simp [hstate]
  · cases children pid with
    | none => simp [hq]
    | some state => cases permitted <;> simp [hq]

/-- A `kill` succeeds for an unreaped child that may be signalled. -/
theorem kill_succeeds (children : Children) (pid sig : Int) (permitted : Bool) :
    (children.kill pid sig permitted).1 = true ↔ children.Unreaped pid ∧ permitted = true := by
  unfold kill Unreaped
  cases children pid with
  | none => simp
  | some state =>
    cases permitted with
    | false => simp
    | true => simp

end Children

/-! ## The loop of `killAllJobs` -/

namespace JobsList

/-- The `kill` of the system, which says for each pid whether signals are permitted, with a
    record of the signals that were asked for. -/
def recordKill (permitted : Int → Bool) (processes : Children × List (Int × Int)) (pid sig : Int) :
    Bool × Children × List (Int × Int) :=
  let (sent, children) := processes.1.kill pid sig (permitted pid)
  (sent, children, processes.2 ++ [(pid, sig)])

section Loop

variable {κ : Type} (kill : κ → Int → Int → Bool × κ) (job : JobEntry) (jobs : List JobEntry)
  (processes : κ)

/-- What `kill` returns for one job makes no difference for the processes of the next. -/
theorem killLoop_cons_fst :
    (killLoop kill (job :: jobs) processes).1 =
      (killLoop kill jobs (kill processes job.pid Children.SIGKILL).2).1 := by
  simp only [killLoop]
  generalize kill processes job.pid Children.SIGKILL = r
  obtain ⟨_ | _, processes'⟩ := r
  · rfl
  · rfl

/-- What the loop prints for its first job, and then for the others. -/
theorem killLoop_cons_snd :
    (killLoop kill (job :: jobs) processes).2 =
      .cout (toText job.pid ++ text ": " ++ job.command) ::
        ((if (kill processes job.pid Children.SIGKILL).1 = true then []
          else [.perror (text "smash error: kill failed")]) ++
          (killLoop kill jobs (kill processes job.pid Children.SIGKILL).2).2) := by
  simp only [killLoop]
  generalize kill processes job.pid Children.SIGKILL = r
  obtain ⟨_ | _, processes'⟩ := r
  · rfl
  · rfl

end Loop

variable (permitted : Int → Bool) (jobs : List JobEntry) (children : Children)
  (sent : List (Int × Int))

/-- Every job is sent `SIGKILL`, in the order of the list. -/
theorem killLoop_sent :
    (killLoop (recordKill permitted) jobs (children, sent)).1.2 =
      sent ++ jobs.map fun job => (job.pid, Children.SIGKILL) := by
  induction jobs generalizing children sent with
  | nil => exact (List.append_nil sent).symm
  | cons job jobs ih =>
    rw [killLoop_cons_fst, recordKill, ih, List.map_cons, List.append_assoc]
    rfl

/-- The children of the listed pids have got a `SIGKILL`, if they may be signalled. -/
theorem killLoop_children (q : Int) :
    (killLoop (recordKill permitted) jobs (children, sent)).1.1 q =
      if q ∈ jobs.map JobEntry.pid ∧ permitted q = true then
        (children q).map (Children.signalled Children.SIGKILL)
      else children q := by
  induction jobs generalizing children sent with
  | nil => simp [killLoop]
  | cons job jobs ih =>
    rw [killLoop_cons_fst, recordKill, ih, Children.kill_apply]
    by_cases hq : q = job.pid
    · subst hq
      cases permitted job.pid with
      | false => simp
      | true =>
        -- A pid that is listed again changes nothing.
        simp [Option.map_map, Function.comp_def, Children.signalled_SIGKILL_twice]
    · simp [hq]

/-- The loop reports a failure exactly when some job is no child or may not be signalled. -/
theorem killLoop_perror :
    .perror (text "smash error: kill failed") ∈
        (killLoop (recordKill permitted) jobs (children, sent)).2 ↔
      ∃ job ∈ jobs, ¬ (children.Unreaped job.pid ∧ permitted job.pid = true) := by
  induction jobs generalizing children sent with
  | nil => simp [killLoop]
  | cons job jobs ih =>
    have hsame := Children.kill_same children job.pid Children.SIGKILL (permitted job.pid)
    have hkill := Children.kill_succeeds children job.pid Children.SIGKILL (permitted job.pid)
    rw [killLoop_cons_snd, List.mem_cons, List.mem_append]
    simp only [recordKill, ih, hsame _, hkill, List.exists_mem_cons_iff]
    by_cases hjob : children.Unreaped job.pid ∧ permitted job.pid = true
    · simp [hjob]
    · simp [hjob]

end JobsList

/-! ## Runs -/

namespace Smash

open JobsList

/-- What `quit kill` has done to the children of the shell: `children` are left, `sent` are the
    signals, and `out` was printed. -/
structure KillsChildren (s : Smash) (permitted : Int → Bool) (children : Children)
    (sent : List (Int × Int)) (out : List Output) : Prop where
  once : sent.Nodup
  sent : ∀ pid sig, (pid, sig) ∈ sent ↔ sig = Children.SIGKILL ∧ s.children.Unreaped pid
  number : ∀ unreaped : Finset Int, (∀ pid, pid ∈ unreaped ↔ s.children.Unreaped pid) →
    out.head? = some (.cout (text "smash: sending SIGKILL signal to " ++
      toText (unreaped.card : Int) ++ text " jobs:"))
  -- Nothing that happens later brings a killed child back.
  killed : ∀ pid, permitted pid = true → ∀ es children',
    children.events es = some children' → children'.Doomed pid
  untouched : ∀ pid, permitted pid = false → children pid = s.children pid
  reported : .perror (text "smash error: kill failed") ∈ out ↔
    ∃ pid, s.children.Unreaped pid ∧ permitted pid = false

/-- Along every run whose steps keep the jobs, `quit kill` at the prompt sends `SIGKILL` to each
    unreaped child, once, and no other signal. -/
theorem quit_kills_children (acts : List SmashAction)
    (h : machine.EveryStep KeepsJobs initial acts) (permitted : Int → Bool) (args : List Text) :
    machine.EveryState (fun s => s.point = .ready →
      ∀ children sent out, QuitCommand.execute s.shell.jobsList (recordKill permitted)
          (s.children, []) (QuitCommand.KILL_OPTION :: args) = ((children, sent), out) →
        s.KillsChildren permitted children sent out) initial acts := by
  refine Machine.everyState_of_everyStep jobsInv_initial ?_
    (fun _ _ _ _ hinv hkeeps hstep => hinv.step hkeeps (step_cases hstep)) h
  intro s hinv hready children sent out hexecute
  obtain ⟨hnodup, hmem⟩ := hinv.prompt (by rw [hready]; rfl)
  -- The loop over the jobs: what it sends, what it changes, and what it complains about.
  have hjobs := killLoop_sent permitted s.shell.jobsList.jobs s.children []
  have hchildren := killLoop_children permitted s.shell.jobsList.jobs s.children []
  have hperror := killLoop_perror permitted s.shell.jobsList.jobs s.children []
  rw [QuitCommand.execute, List.head?_cons, if_pos rfl, killAllJobs] at hexecute
  generalize killLoop (recordKill permitted) s.shell.jobsList.jobs (s.children, []) = r at *
  obtain ⟨⟨children', sent'⟩, out'⟩ := r
  cases hexecute
  simp only [List.nil_append] at hjobs hchildren hperror
  -- The six parts of the property, in order.
  refine ⟨?_, ?_, ?_, ?_, ?_, ?_⟩
  · rw [hjobs]
    have hinj : Function.Injective fun pid : Int => (pid, Children.SIGKILL) :=
      fun _ _ heq => congrArg Prod.fst heq
    have hpairs := hnodup.map hinj
    rwa [pids, List.map_map] at hpairs
  · -- The processes that are signalled are the listed ones.
    intro pid sig
    rw [hjobs, ← hmem, pids]
    simp only [List.mem_map, Prod.mk.injEq]
    constructor
    · rintro ⟨job, hjob, rfl, rfl⟩
      exact ⟨rfl, job, hjob, rfl⟩
    · rintro ⟨rfl, job, hjob, rfl⟩
      exact ⟨job, hjob, rfl, rfl⟩
  · intro unreaped hunreaped
    -- The list has as many entries as there are unreaped children.
    have hset : unreaped = s.shell.jobsList.pids.toFinset := by
      ext pid
      rw [hunreaped, List.mem_toFinset, hmem]
    have hcard : unreaped.card = s.shell.jobsList.jobs.length := by
      rw [hset, List.toFinset_card_of_nodup hnodup, pids, List.length_map]
    rw [hcard]
    rfl
  · intro pid hpermitted es children'' hevents
    refine Children.Doomed.events (fun state hstate => ?_) hevents
    rw [hchildren] at hstate
    split at hstate
    · obtain ⟨old, -, rfl⟩ := Option.map_eq_some_iff.mp hstate
      exact Children.signalled_SIGKILL old
    · -- A child that is not listed has been reaped.
      rename_i hnot
      have hun : s.children.Unreaped pid := by
        rw [Children.Unreaped, hstate]
        rfl
      exact absurd ⟨(hmem pid).mpr hun, hpermitted⟩ hnot
  · -- A child that may not be signalled is as before.
    intro pid hpermitted
    rw [hchildren, if_neg]
    simp [hpermitted]
  · -- A complaint stands for a listed child that may not be signalled.
    rw [List.mem_cons, or_iff_right Output.noConfusion, hperror]
    constructor
    · intro h
      obtain ⟨job, hjob, hnot⟩ := h
      have hun := (hmem job.pid).mp (List.mem_map_of_mem hjob)
      exact ⟨job.pid, hun, Bool.eq_false_iff.mpr fun hpermitted => hnot ⟨hun, hpermitted⟩⟩
    · intro h
      obtain ⟨pid, hun, hpermitted⟩ := h
      obtain ⟨job, hjob, rfl⟩ := List.mem_map.mp ((hmem pid).mpr hun)
      refine ⟨job, hjob, fun hboth => ?_⟩
      rw [hboth.2] at hpermitted
      cases hpermitted

/-- Two children in the background, and one of them has ended. -/
def twoBackgroundRun : List SmashAction :=
  [.removeFinishedJobs, .execute (text "sleep 9&") (forks 100), .removeFinishedJobs,
   .execute (text "sleep 8&") (forks 101), .removeFinishedJobs, .child 101 .exits]

theorem quit_kills_children_twoBackgroundRun :
    ∃ s out, machine.exec initial twoBackgroundRun = .ok (s, out) ∧ s.point = .ready ∧
      (QuitCommand.execute s.shell.jobsList (recordKill fun pid => pid = 101) (s.children, [])
        [QuitCommand.KILL_OPTION]).1.2 = [(100, 9), (101, 9)] ∧
      machine.EveryState (fun s => s.point = .ready →
        ∀ children sent out, QuitCommand.execute s.shell.jobsList
            (recordKill fun pid => pid = 101) (s.children, []) [QuitCommand.KILL_OPTION] =
              ((children, sent), out) →
          s.KillsChildren (fun pid => pid = 101) children sent out) initial twoBackgroundRun := by
  refine ⟨_, _, rfl, rfl, by decide, quit_kills_children twoBackgroundRun ?_ _ []⟩
  intro _ _ h
  obtain ⟨⟩ := h
  refine ⟨List.Pairwise.nil, ?_⟩
  intro _ _ h
  obtain ⟨⟩ := h
  refine ⟨(fun _ ⟨_, hlookup, _⟩ => by cases hlookup), ?_⟩
  intro _ _ h
  obtain ⟨⟩ := h
  refine ⟨List.pairwise_singleton _ _, ?_⟩
  intro _ _ h
  obtain ⟨⟩ := h
  refine ⟨(fun _ ⟨_, hlookup, _⟩ => by cases hlookup), ?_⟩
  intro _ _ h
  obtain ⟨⟩ := h
  -- None of the two jobs has finished.
  refine ⟨.cons (fun job hjob hfinished => ?_) (List.pairwise_singleton _ _), ?_⟩
  · rw [List.mem_singleton.mp hjob] at hfinished
    exact absurd hfinished (by decide)
  intro _ _ h
  obtain ⟨⟩ := h
  exact ⟨trivial, trivial⟩

end Smash

end OsWet
