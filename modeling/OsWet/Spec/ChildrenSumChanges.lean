import OsWet.ForStd.ForestChanges
import OsWet.Spec.ChildrenSum
import Mathlib.Algebra.BigOperators.Group.Finset.Piecewise

/-!
# How the sums over the children change

What each step of the process tree does to the sum that `do_sys_get_children_sum` finds for
a task. A new task adds its weight, which it has from the task that forked it, to the sums of
the tasks above it; a released one takes its weight from them. An exit moves the whole sum of
the task that exits to the one that takes over its children, and a call of `sys_set_weight`
adds the difference to the sums of the tasks above the caller, and nothing to its own.

- `Inv.sum_step`: one step
- `children_sum_changes`: every step of every run, as the function returns it
-/

namespace OsWet.Kernel

variable {tasks tasks' : Heap Task} {T : RootedTree Nat} {current a : Nat}

open scoped Classical in
/-- By how much an action changes the sum over the children of a task. -/
noncomputable def change (tasks : Heap Task) (T : RootedTree Nat) (a : Nat) : KernelAction → Int
  | .fork current cloneParent _ =>
    let parent := if cloneParent then T.parent current else current
    if a = parent ∨ T.Descends a parent then weightOf tasks current else 0
  | .exit current reaper _ =>
    let sum := ∑ b ∈ T.descendants current, weightOf tasks b
    (if a = reaper ∨ T.Descends a reaper then sum else 0) -
      if a = current ∨ T.Descends a current then sum else 0
  | .release task => if T.Descends a task then -weightOf tasks task else 0
  | .setWeight current weight =>
    if T.Descends a current ∧ 0 ≤ weight then weight.toInt - weightOf tasks current else 0

/-! ## Weights -/

/-- The weights after one cell was overwritten. -/
theorem weightOf_update {v : Option Task} (h : tasks'.cell = Function.update tasks.cell a v)
    (b : Nat) :
    weightOf tasks' b = if b = a then (v.map fun task => task.weight.toInt).getD 0
      else weightOf tasks b := by
  simp only [weightOf, h]
  by_cases hb : b = a
  · subst hb
    rw [Function.update_self, if_pos rfl]
    cases v <;> rfl
  · rw [Function.update_of_ne hb, if_neg hb]

/-- A task that is overwritten with its old weight keeps it. -/
theorem weightOf_storeTask {old task : Task} (hold : tasks.cell a = some old)
    (hweight : task.weight = old.weight) (h : storeTask tasks a task = .ok tasks') (b : Nat) :
    weightOf tasks' b = weightOf tasks b := by
  rw [weightOf_update (storeTask_cell h)]
  split
  · subst b
    rw [weightOf_eq hold, ← hweight]
    rfl
  · rfl

/-- A new task has the weight of the one that forks. -/
theorem weightOf_fork {cloneParent : Bool} {pid : Int32}
    (h : fork tasks current cloneParent pid = .ok tasks') (b : Nat) :
    weightOf tasks' b = if b = tasks.next then weightOf tasks current else weightOf tasks b := by
  obtain ⟨task, htask, h⟩ := Outcome.bind_eq_ok.mp h
  obtain ⟨parent, hparent, hstore⟩ := Outcome.bind_eq_ok.mp h
  rw [loadTask_eq_ok] at htask hparent
  rw [weightOf_storeTask hparent (by rfl) hstore, weightOf_update rfl, weightOf_eq htask]
  rfl

/-- A task that is released has no weight any more. -/
theorem weightOf_release (h : release tasks a = .ok tasks') (b : Nat) :
    weightOf tasks' b = if b = a then 0 else weightOf tasks b := by
  obtain ⟨task, -, h⟩ := Outcome.bind_eq_ok.mp h
  obtain ⟨parent, hparent, h⟩ := Outcome.bind_eq_ok.mp h
  obtain ⟨tasks₁, hstore, hfree⟩ := Outcome.bind_eq_ok.mp h
  rw [loadTask_eq_ok] at hparent
  rw [weightOf_update (freeTask_cell hfree), weightOf_storeTask hparent (by rfl) hstore]
  rfl

/-- `sys_set_weight` changes the weight of the caller, if the new one is not negative. -/
theorem weightOf_sysSetWeight {weight : Int32} {returned : Int}
    (h : sysSetWeight tasks current weight = .ok (tasks', returned)) (b : Nat) :
    weightOf tasks' b = if b = current ∧ 0 ≤ weight then weight.toInt else weightOf tasks b := by
  simp only [sysSetWeight] at h
  split at h
  · obtain ⟨task, -, h⟩ := Outcome.bind_eq_ok.mp h
    obtain ⟨tasks₁, hstore, h⟩ := Outcome.bind_eq_ok.mp h
    cases h
    rw [weightOf_update (storeTask_cell hstore)]
    simp [*]
  · cases h
    simp [*]

/-- An exit changes no weight. -/
theorem Inv.weightOf_exit (h : Inv tasks T) {reaper : Nat} (hne : reaper ≠ current)
    (hbelow : ¬ T.Descends current reaper)
    (hexit : Kernel.exit tasks current reaper = .ok tasks') (b : Nat) :
    weightOf tasks' b = weightOf tasks b := by
  have hload := hexit
  -- The task that exits and its children.
  obtain ⟨task, htask, -⟩ := Outcome.bind_eq_ok.mp hload
  rw [loadTask_eq_ok] at htask
  have hchild := h.forest.mem_children current task htask
  have hself : current ∉ task.children := fun hc =>
    RootedTree.not_descends_self (.single ((hchild current).mp hc))
  have hreaper : reaper ∉ task.children := fun hc => hbelow (.single ((hchild reaper).mp hc))
  obtain ⟨hkeep, hcell⟩ := exit_cell hne hself hreaper htask hexit
  cases hnew : tasks'.cell b with
  | none =>
    -- No task appears or disappears.
    cases hold : tasks.cell b with
    | none => simp [weightOf, hnew, hold]
    | some old =>
      obtain ⟨new, hnew'⟩ := hkeep b ⟨old, hold⟩
      simp [hnew] at hnew'
  -- A task keeps its weight when it exits.
  | some new =>
    obtain ⟨old, hold, hsaid⟩ := hcell b new hnew
    rw [weightOf_eq hnew, weightOf_eq hold, hsaid.weight]

/-! ## Steps -/

/-- One step leads to a tree in which the sums have changed as `change` says. -/
theorem Inv.sum_step (h : Inv tasks T) {action : KernelAction} {outs : List (Nat × Int)}
    (hstep : machine.step tasks action = .ok (tasks', outs)) :
    ∃ T', Inv tasks' T' ∧ ∀ a, ∑ b ∈ T'.descendants a, weightOf tasks' b =
      ∑ b ∈ T.descendants a, weightOf tasks b + change tasks T a action := by
  cases action with
  | fork current cloneParent pid =>
    simp only [machine] at hstep
    split at hstep
    · obtain ⟨tasks₁, hfork, heq⟩ := Outcome.bind_eq_ok.mp hstep
      cases heq
      obtain ⟨hfresh, hparent, h'⟩ := h.fork hfork
      refine ⟨_, h', fun a => ?_⟩
      -- The new task is not below any other in the old tree.
      have hold : ∀ q, ∑ b ∈ T.descendants q, weightOf tasks' b =
          ∑ b ∈ T.descendants q, weightOf tasks b := by
        intro q
        apply Finset.sum_congr rfl
        intro b hb
        have hne : b ≠ tasks.next := fun heq => hfresh (heq ▸ T.descendants_subset q hb)
        rw [weightOf_fork hfork, if_neg hne]
      rw [RootedTree.sum_insert, hold, weightOf_fork hfork, if_pos rfl]
      rfl
    · cases hstep
  -- The sums change where the subtree of the children is cut off and put in again.
  | exit current reaper distance =>
    simp only [machine] at hstep
    split at hstep
    · rename_i hguard
      obtain ⟨tasks₁, hexit, heq⟩ := Outcome.bind_eq_ok.mp hstep
      cases heq
      obtain ⟨hne, -⟩ := h.forest.of_isNotBelow hguard.2.2.2
      obtain ⟨hmem, hbelow, h'⟩ := h.exit hguard.2.1 hguard.2.2.1 hguard.2.2.2 hexit
      refine ⟨_, h', fun a => ?_⟩
      simp only [h.weightOf_exit hne hbelow hexit, change]
      rw [eq_sub_of_add_eq (T.sum_reparent (weightOf tasks))]
      exact add_sub_assoc _ _ _
    · cases hstep
  | release task =>
    simp only [machine] at hstep
    split at hstep
    · rename_i hguard
      obtain ⟨tasks₁, hrelease, heq⟩ := Outcome.bind_eq_ok.mp hstep
      cases heq
      obtain ⟨hroot, hleaf, h'⟩ := h.release hguard hrelease
      refine ⟨_, h', fun a => ?_⟩
      -- The sums of the old tree lose the task where it was counted.
      have hkept : ∑ b ∈ (T.erase task hroot hleaf).descendants a, weightOf tasks' b =
          ∑ b ∈ (T.erase task hroot hleaf).descendants a, weightOf tasks b := by
        apply Finset.sum_congr rfl
        intro b hb
        rw [RootedTree.mem_descendants, RootedTree.erase_descends] at hb
        rw [weightOf_release hrelease, if_neg hb.2]
      rw [hkept, eq_sub_of_add_eq (T.sum_erase (weightOf tasks)), change]
      by_cases habove : T.Descends a task
      · simp only [habove, if_true]
        omega
      · simp only [habove, if_false]
        omega
    · cases hstep
  | setWeight current weight =>
    simp only [machine] at hstep
    split at hstep
    · obtain ⟨⟨tasks₁, returned⟩, hset, heq⟩ := Outcome.bind_eq_ok.mp hstep
      cases heq
      refine ⟨T, h.setWeight hset, fun a => ?_⟩
      simp only [weightOf_sysSetWeight hset, change, ← RootedTree.mem_descendants]
      by_cases hset : current ∈ T.descendants a ∧ 0 ≤ weight
      · -- The weight of the caller is one of those that are added up.
        obtain ⟨hmem, hweight⟩ := hset
        rw [← Finset.add_sum_erase _ _ hmem, ← Finset.add_sum_erase _ (weightOf tasks) hmem]
        have hrest : ∑ b ∈ (T.descendants a).erase current,
            (if b = current ∧ 0 ≤ weight then weight.toInt else weightOf tasks b) =
            ∑ b ∈ (T.descendants a).erase current, weightOf tasks b := by
          apply Finset.sum_congr rfl
          intro b hb
          rw [if_neg fun hb' => Finset.ne_of_mem_erase hb hb'.1]
        rw [hrest, if_pos ⟨rfl, hweight⟩, if_pos ⟨hmem, hweight⟩]
        omega
      · -- Outside the subtree, or refused, nothing changes.
        rw [if_neg hset, add_zero]
        apply Finset.sum_congr rfl
        intro b hb
        rw [if_neg]
        rintro ⟨rfl, hweight⟩
        exact hset ⟨hb, hweight⟩
    · cases hstep

/-! ## Runs -/

/-- After every run with fewer than 2^32 tasks, whatever happens next, `do_sys_get_children_sum`
    returns for every task that is still there what it returned before and the change. -/
theorem children_sum_changes {actions : List KernelAction} {action : KernelAction}
    {outs outs' : List (Nat × Int)} (hrun : machine.exec boot actions = .ok (tasks, outs))
    (hstep : machine.step tasks action = .ok (tasks', outs')) :
    ∃ T T', IsForest tasks T ∧ IsForest tasks' T' ∧
      (T.nodes.card < 4294967296 → T'.nodes.card < 4294967296 →
        ∀ a ∈ T.nodes, a ∈ T'.nodes → ∀ fuel, T.nodes.card < fuel → T'.nodes.card < fuel →
          ∃ sum, doSysGetChildrenSum tasks fuel a = .ok sum ∧
            doSysGetChildrenSum tasks' fuel a = .ok (sum + change tasks T a action)) := by
  obtain ⟨T, h⟩ := exec_inv hrun
  obtain ⟨T', h', hsum⟩ := h.sum_step hstep
  refine ⟨T, T', h.forest, h'.forest, fun hcard hcard' a ha ha' fuel hfuel hfuel' => ?_⟩
  have hle := Finset.card_le_card (T.descendants_subset a)
  have hle' := Finset.card_le_card (T'.descendants_subset a)
  refine ⟨_, h.doSysGetChildrenSum_eq hcard ha (by omega), ?_⟩
  rw [h'.doSysGetChildrenSum_eq hcard' ha' (by omega), hsum]

/-- A child of `init` with two children of its own; then one of these forks, and exits and
    leaves its child to `init`. -/
def handedOverRun : List KernelAction :=
  [.fork 0 false 1, .fork 1 false 2, .setWeight 2 5, .fork 2 false 3, .fork 2 false 4,
    .setWeight 3 2, .fork 3 false 5]

theorem children_sum_changes_handedOverRun : ∃ tasks tasks' outs T T' sum,
    machine.exec boot handedOverRun = .ok (tasks, outs) ∧
      machine.step tasks (.exit 3 1 1) = .ok (tasks', []) ∧
      IsForest tasks T ∧ IsForest tasks' T' ∧
      doSysGetChildrenSum tasks 7 2 = .ok sum ∧
      doSysGetChildrenSum tasks' 7 2 = .ok (sum + change tasks T 2 (.exit 3 1 1)) ∧
      sum = 9 ∧ sum + change tasks T 2 (.exit 3 1 1) = 7 := by
  have hrun : ∃ r, machine.exec boot handedOverRun = .ok r := ⟨_, rfl⟩
  obtain ⟨⟨tasks, outs⟩, hrun⟩ := hrun
  have hstep : ∃ tasks', machine.step tasks (.exit 3 1 1) = .ok (tasks', []) := by
    cases hrun
    exact ⟨_, rfl⟩
  obtain ⟨tasks', hstep⟩ := hstep
  obtain ⟨T, T', hforest, hforest', h⟩ := children_sum_changes hrun hstep
  have hnext : tasks.next = 6 ∧ tasks'.next = 6 := by
    cases hrun
    cases hstep
    exact ⟨rfl, rfl⟩
  have hle := hforest.card_nodes_le
  have hle' := hforest'.card_nodes_le
  have hcell : (∃ task, tasks.cell 2 = some task) ∧ ∃ task, tasks'.cell 2 = some task := by
    cases hrun
    cases hstep
    exact ⟨⟨_, rfl⟩, ⟨_, rfl⟩⟩
  obtain ⟨⟨task, htask⟩, ⟨task', htask'⟩⟩ := hcell
  obtain ⟨sum, hsum, hsum'⟩ := h (by omega) (by omega) 2 (hforest.mem_of_cell htask)
    (hforest'.mem_of_cell htask') 7 (by omega) (by omega)
  have hvalue : doSysGetChildrenSum tasks 7 2 = .ok 9 ∧ doSysGetChildrenSum tasks' 7 2 = .ok 7 := by
    cases hrun
    cases hstep
    exact ⟨rfl, rfl⟩
  refine ⟨tasks, tasks', outs, T, T', sum, hrun, hstep, hforest, hforest', hsum, hsum', ?_, ?_⟩
  · rw [hvalue.1] at hsum
    exact (Outcome.ok.inj hsum).symm
  · rw [hvalue.2] at hsum'
    exact (Outcome.ok.inj hsum').symm

end OsWet.Kernel
