import OsWet.ForStd.FirstMax
import OsWet.Spec.ProcessForest

/-!
# The search for the heaviest ancestor

The loop of `sys_get_heaviest_ancestor` ends at the task with pid 1, and only above the
task it starts from. It ends for the tasks that are strictly below such a task; for
`init` itself, and for the tasks beside it, it runs around `init_task` for ever.

## Main results

- `heaviest_ancestor_ends_iff`: from which tasks the search ends
- `heaviest_ancestor_closest`: it finds a heaviest task, and of several the closest one
-/

namespace OsWet.Kernel

variable {tasks : Heap Task} {T : RootedTree Nat} {a : Nat}

/-- A task is init if its pid is that of init. -/
theorem pid_toInt_eq_one {task : Task} : task.pid.toInt = 1 ↔ task.pid = 1 := by
  rw [← Int32.toInt_inj]
  rfl

/-- One turn of the loop, from a task in memory: the parent becomes the maximum if it is heavier,
    and the loop ends there if it is `init`. -/
theorem heaviestAncestorLoop_turn {task parent : Task} (ha : tasks.cell a = some task)
    (hparent : tasks.cell task.realParent = some parent) (fuel : Nat) (maxWeight maxPid : Int) :
    heaviestAncestorLoop tasks (fuel + 1) a maxWeight maxPid =
      let max := if parent.weight.toInt > maxWeight then (parent.weight.toInt, parent.pid.toInt)
        else (maxWeight, maxPid)
      if parent.pid = 1 then .ok max.2
      else heaviestAncestorLoop tasks fuel task.realParent max.1 max.2 := by
  simp only [heaviestAncestorLoop, loadTask_eq_ok.mpr ha, loadTask_eq_ok.mpr hparent,
    Outcome.ok_bind, pid_toInt_eq_one]
  rfl

/-- One round of the loop looks at the parent. -/
theorem heaviestAncestorLoop_succ {task parent : Task} (ha : tasks.cell a = some task)
    (hparent : tasks.cell task.realParent = some parent) (maxWeight maxPid : Int) :
    ∃ max : Int × Int, ∀ fuel, heaviestAncestorLoop tasks (fuel + 1) a maxWeight maxPid =
      if parent.pid = 1 then .ok max.2
      else heaviestAncestorLoop tasks fuel task.realParent max.1 max.2 :=
  ⟨_, fun fuel => heaviestAncestorLoop_turn ha hparent fuel maxWeight maxPid⟩

/-- Below `init` the loop ends, after as many turns as there are steps up to `init`. -/
theorem RealParents.loop_ends (h : RealParents tasks T) {i : Nat} {task : Task}
    (hi : tasks.cell i = some task) (hpid : task.pid = 1) (hbelow : T.Descends i a) :
    ∃ n, ∀ maxWeight maxPid, ∃ v, ∀ fuel, n ≤ fuel →
      heaviestAncestorLoop tasks fuel a maxWeight maxPid = .ok v := by
  -- The induction is on the way from `init` down to the task.
  induction hbelow with
  | single hchild =>
    obtain ⟨child, hcell⟩ := (h.mem _).mp hchild.mem
    have hup : child.realParent = i := by rw [← h.parent _ child hcell, hchild.2.2]
    refine ⟨1, fun maxWeight maxPid => ?_⟩
    obtain ⟨max, hturn⟩ := heaviestAncestorLoop_succ hcell (hup ▸ hi) maxWeight maxPid
    -- The parent is `init`, where the loop ends after this turn.
    refine ⟨max.2, fun fuel hfuel => ?_⟩
    obtain ⟨fuel, rfl⟩ := Nat.exists_eq_add_of_le' hfuel
    rw [hturn, if_pos hpid]
  | tail _ hchild ih =>
    obtain ⟨n, ih⟩ := ih
    obtain ⟨child, hcell⟩ := (h.mem _).mp hchild.mem
    obtain ⟨parent, hparent⟩ := h.parent_cell hcell
    have hup := h.parent _ child hcell
    rw [hchild.2.2] at hup
    -- One turn more; it may end already here.
    refine ⟨n + 1, fun maxWeight maxPid => ?_⟩
    obtain ⟨max, hturn⟩ := heaviestAncestorLoop_succ hcell hparent maxWeight maxPid
    obtain ⟨v, hv⟩ := ih max.1 max.2
    refine ⟨if parent.pid = 1 then max.2 else v, fun fuel hfuel => ?_⟩
    obtain ⟨fuel, rfl⟩ := Nat.exists_eq_add_of_le' (show 1 ≤ fuel by omega)
    rw [hturn, ← hup, hv fuel (by omega)]
    split
    · rfl
    · rfl

/-- Where the loop ends, it ends above the task it started from. -/
theorem RealParents.init_above (h : RealParents tasks T) {root : Task}
    (hroot : tasks.cell initTask = some root) (hpid : root.pid = 0) {fuel : Nat}
    {maxWeight maxPid v : Int} (ha : a ∈ T.nodes)
    (hloop : heaviestAncestorLoop tasks fuel a maxWeight maxPid = .ok v) :
    ∃ i task, tasks.cell i = some task ∧ task.pid = 1 ∧ T.Descends i a := by
  -- By induction on the fuel; a loop that returns has met the pid 1.
  induction fuel generalizing a maxWeight maxPid with
  | zero => cases hloop
  | succ fuel ih =>
    obtain ⟨task, hcell⟩ := (h.mem a).mp ha
    obtain ⟨parent, hparent⟩ := h.parent_cell hcell
    have hup := h.parent a task hcell
    obtain ⟨max, hturn⟩ := heaviestAncestorLoop_succ hcell hparent maxWeight maxPid
    rw [hturn] at hloop
    -- It stops at the parent, or goes on from it.
    by_cases hinit : parent.pid = 1
    · refine ⟨task.realParent, parent, hparent, hinit, .single ⟨ha, fun haroot => ?_, hup⟩⟩
      -- Above `init_task` there is only itself, with pid 0.
      rw [haroot, T.parent_root, h.root] at hup
      rw [← hup, hroot] at hparent
      cases hparent
      rw [hpid] at hinit
      exact absurd hinit (by decide)
    · rw [if_neg hinit] at hloop
      obtain ⟨i, t, hi, hone, hbelow⟩ := ih (h.mem_of_cell hparent) hloop
      refine ⟨i, t, hi, hone, ?_⟩
      -- The root is its own parent.
      by_cases haroot : a = T.root
      · rw [haroot, T.parent_root, ← haroot] at hup
        rwa [← hup] at hbelow
      · exact hbelow.tail ⟨ha, haroot, hup⟩

/-- From a task that is its own parent, and not `init`, the loop goes on for ever. -/
theorem heaviestAncestorLoop_self {task : Task} (ha : tasks.cell a = some task)
    (hself : task.realParent = a) (hpid : task.pid ≠ 1) (fuel : Nat) (maxWeight maxPid : Int) :
    heaviestAncestorLoop tasks fuel a maxWeight maxPid = .stuck := by
  induction fuel generalizing maxWeight maxPid with
  | zero => rfl
  | succ fuel ih =>
    obtain ⟨max, hturn⟩ := heaviestAncestorLoop_succ ha (hself.symm ▸ ha) maxWeight maxPid
    rw [hturn, if_neg hpid, hself]
    exact ih max.1 max.2

/-! ## Where it ends -/

/-- In every process tree whose root has pid 0, the search from a task ends exactly if the
    task is strictly below one with pid 1. -/
theorem heaviest_ancestor_ends_iff (h : RealParents tasks T) {root : Task}
    (hroot : tasks.cell initTask = some root) (hpid : root.pid = 0) (ha : a ∈ T.nodes) :
    (∃ n v, ∀ fuel, n ≤ fuel → sysGetHeaviestAncestor tasks fuel a = .ok v) ↔
      ∃ i task, tasks.cell i = some task ∧ task.pid = 1 ∧ T.Descends i a := by
  obtain ⟨task, hcell⟩ := (h.mem a).mp ha
  simp only [sysGetHeaviestAncestor, loadTask_eq_ok.mpr hcell, Outcome.ok_bind]
  constructor
  · intro h
    obtain ⟨n, v, hends⟩ := h
    exact h.init_above hroot hpid ha (hends n le_rfl)
  · intro h
    obtain ⟨i, task', hi, hone, hbelow⟩ := h
    obtain ⟨n, hends⟩ := h.loop_ends hi hone hbelow
    exact ⟨n, hends task.weight.toInt task.pid.toInt⟩

/-- `init_task` forks `init` and `kthreadd`, and `init` forks a task of its own. -/
def bootRun : List KernelAction := [.fork 0 false 1, .fork 0 false 2, .fork 1 false 3]

/-- The task that `init` forked is strictly below `init`, so its search ends. -/
theorem heaviest_ancestor_ends_iff_bootRun : ∃ tasks outs T,
    machine.exec boot bootRun = .ok (tasks, outs) ∧ RealParents tasks T ∧ T.Descends 1 3 ∧
      ∃ n v, ∀ fuel, n ≤ fuel → sysGetHeaviestAncestor tasks fuel 3 = .ok v := by
  have hrun : ∃ r, machine.exec boot bootRun = .ok r := ⟨_, rfl⟩
  obtain ⟨⟨tasks, outs⟩, hrun⟩ := hrun
  obtain ⟨T, h⟩ := exec_inv hrun
  have hroot : ∃ root, tasks.cell initTask = some root ∧ root.pid = 0 := by
    cases hrun
    exact ⟨_, rfl, rfl⟩
  have hinit : ∃ init, tasks.cell 1 = some init ∧ init.pid = 1 ∧ init.children = [3] := by
    cases hrun
    exact ⟨_, rfl, rfl, rfl⟩
  obtain ⟨root, hroot, hroot0⟩ := hroot
  obtain ⟨init, hinit, hinit1, hchildren⟩ := hinit
  have hchild : T.IsChild 1 3 := by
    rw [← h.forest.mem_children 1 init hinit, hchildren]
    decide
  refine ⟨tasks, outs, T, hrun, h.forest.toRealParents, .single hchild, ?_⟩
  exact (heaviest_ancestor_ends_iff h.forest.toRealParents hroot hroot0 hchild.mem).mpr
    ⟨1, init, hinit, hinit1, .single hchild⟩

/-- `init` itself never gets out of the loop. -/
theorem heaviest_ancestor_of_init_spins : ∃ tasks outs T,
    machine.exec boot bootRun = .ok (tasks, outs) ∧ IsForest tasks T ∧
      (∃ root, tasks.cell initTask = some root ∧ root.pid = 0) ∧
      (∃ init, tasks.cell 1 = some init ∧ init.pid = 1) ∧
      ∀ fuel, sysGetHeaviestAncestor tasks fuel 1 = .stuck := by
  have hrun : ∃ r, machine.exec boot bootRun = .ok r := ⟨_, rfl⟩
  obtain ⟨⟨tasks, outs⟩, hrun⟩ := hrun
  obtain ⟨T, h⟩ := exec_inv hrun
  have hroot : ∃ root, tasks.cell initTask = some root ∧ root.pid = 0 ∧
      root.realParent = initTask := by
    cases hrun
    exact ⟨_, rfl, rfl, rfl⟩
  have hinit : ∃ init, tasks.cell 1 = some init ∧ init.pid = 1 ∧ init.realParent = initTask := by
    cases hrun
    exact ⟨_, rfl, rfl, rfl⟩
  obtain ⟨root, hroot, hroot0, hself⟩ := hroot
  obtain ⟨init, hinit, hinit1, hup⟩ := hinit
  have hpid : root.pid ≠ 1 := by
    rw [hroot0]
    decide
  refine ⟨tasks, outs, T, hrun, h.forest, ⟨root, hroot, hroot0⟩, ⟨init, hinit, hinit1⟩,
    fun fuel => ?_⟩
  -- After its first turn the loop is at `init_task`, which is its own parent.
  simp only [sysGetHeaviestAncestor, loadTask_eq_ok.mpr hinit, Outcome.ok_bind]
  cases fuel with
  | zero => rfl
  | succ fuel =>
    obtain ⟨max, hturn⟩ := heaviestAncestorLoop_succ hinit (hup.symm ▸ hroot)
      init.weight.toInt init.pid.toInt
    rw [hturn, if_neg hpid, hup]
    exact heaviestAncestorLoop_self hroot hself hpid fuel max.1 max.2

/-! ## What it finds -/

/-- The tasks on the way from `a` up to the first `init` above it, which is the last one. -/
structure IsChain (tasks : Heap Task) (a : Nat) (t : Nat → Task) (n : Nat) : Prop where
  start : tasks.cell a = some (t 0)
  up : ∀ i, i < n → tasks.cell (t i).realParent = some (t (i + 1))
  pos : 1 ≤ n
  init : (t n).pid = 1
  first : ∀ i, 1 ≤ i → i < n → (t i).pid ≠ 1

/-- The loop at the task at distance `i`: its maximum is the first one so far, and in the end the
    first one on the whole way. -/
theorem IsChain.loop_firstMax {t : Nat → Task} {n : Nat} (h : IsChain tasks a t n) {i k : Nat}
    (hi : i < n) {b : Nat} (hb : tasks.cell b = some (t i))
    (hk : FirstMax (fun j => (t j).weight.toInt) i k) :
    ∃ k', FirstMax (fun j => (t j).weight.toInt) n k' ∧ ∀ fuel, n - i ≤ fuel →
      heaviestAncestorLoop tasks fuel b (t k).weight.toInt (t k).pid.toInt =
        .ok (t k').pid.toInt := by
  -- The induction is on the distance to `init`.
  induction hdist : n - i generalizing i k b with
  | zero => omega
  | succ dist ih =>
    -- One turn keeps the first maximum of the tasks so far.
    obtain ⟨k₁, hk₁, hmax⟩ : ∃ k₁, FirstMax (fun j => (t j).weight.toInt) (i + 1) k₁ ∧
        (if (t (i + 1)).weight.toInt > (t k).weight.toInt then
          ((t (i + 1)).weight.toInt, (t (i + 1)).pid.toInt)
        else ((t k).weight.toInt, (t k).pid.toInt)) = ((t k₁).weight.toInt, (t k₁).pid.toInt) := by
      by_cases hlt : (t k).weight.toInt < (t (i + 1)).weight.toInt
      · exact ⟨i + 1, hk.succ_of_lt hlt, if_pos hlt⟩
      · exact ⟨k, hk.succ_of_le (Int.not_lt.mp hlt), if_neg hlt⟩
    -- The next task is `init`, or there is one turn more.
    by_cases hlast : i + 1 = n
    · subst hlast
      refine ⟨k₁, hk₁, fun fuel hfuel => ?_⟩
      obtain ⟨fuel, rfl⟩ := Nat.exists_eq_add_of_le' (show 1 ≤ fuel by omega)
      rw [heaviestAncestorLoop_turn hb (h.up i hi)]
      simp only [hmax]
      rw [if_pos h.init]
    · have hnext : i + 1 < n := by omega
      obtain ⟨k', hk', hloop⟩ := ih hnext (h.up i hi) hk₁ (by omega)
      refine ⟨k', hk', fun fuel hfuel => ?_⟩
      obtain ⟨fuel, rfl⟩ := Nat.exists_eq_add_of_le' (show 1 ≤ fuel by omega)
      rw [heaviestAncestorLoop_turn hb (h.up i hi)]
      simp only [hmax]
      rw [if_neg (h.first (i + 1) (Nat.le_add_left 1 i) hnext)]
      exact hloop fuel (by omega)

/-- The search finds a task on the way that is as heavy as any other, and of several such tasks
    the one that is closest to the caller. -/
theorem heaviest_ancestor_closest {t : Nat → Task} {n : Nat} (h : IsChain tasks a t n) :
    ∃ k, k ≤ n ∧ (∀ i, i ≤ n → (t i).weight.toInt ≤ (t k).weight.toInt) ∧
      (∀ i, i ≤ n → (t i).weight.toInt = (t k).weight.toInt → k ≤ i) ∧
        ∀ fuel, n ≤ fuel → sysGetHeaviestAncestor tasks fuel a = .ok (t k).pid.toInt := by
  obtain ⟨k, hk, hloop⟩ := h.loop_firstMax h.pos h.start (FirstMax.zero _)
  refine ⟨k, hk.le, hk.max, fun i hi heq => ?_, fun fuel hfuel => ?_⟩
  · by_contra hlt
    have hless := hk.first i (Nat.lt_of_not_le hlt)
    rw [heq] at hless
    exact Int.lt_irrefl _ hless
  · simp only [sysGetHeaviestAncestor, loadTask_eq_ok.mpr h.start, Outcome.ok_bind]
    exact hloop fuel hfuel

/-- A task and `init` above it with the same weight: it finds the task. -/
theorem heaviest_ancestor_closest_bootRun : ∃ tasks outs t,
    machine.exec boot (bootRun ++ [.setWeight 1 5, .setWeight 3 5]) = .ok (tasks, outs) ∧
      IsChain tasks 3 t 1 ∧ ∃ k, k ≤ 1 ∧
        (∀ i, i ≤ 1 → (t i).weight.toInt ≤ (t k).weight.toInt) ∧
          (∀ i, i ≤ 1 → (t i).weight.toInt = (t k).weight.toInt → k ≤ i) ∧
            ∀ fuel, 1 ≤ fuel → sysGetHeaviestAncestor tasks fuel 3 = .ok (t k).pid.toInt := by
  have hchain : ∃ tasks outs t,
      machine.exec boot (bootRun ++ [.setWeight 1 5, .setWeight 3 5]) = .ok (tasks, outs) ∧
        IsChain tasks 3 t 1 := by
    refine ⟨_, _, fun i => if i = 0 then ⟨5, 3, 1, [], false⟩ else ⟨5, 1, 0, [3], false⟩, rfl, ?_⟩
    refine ⟨rfl, fun i hi => ?_, Nat.le_refl 1, rfl, fun i hi hlt => by omega⟩
    obtain rfl : i = 0 := by omega
    rfl
  obtain ⟨tasks, outs, t, hrun, hchain⟩ := hchain
  exact ⟨tasks, outs, t, hrun, hchain, heaviest_ancestor_closest hchain⟩

end OsWet.Kernel
