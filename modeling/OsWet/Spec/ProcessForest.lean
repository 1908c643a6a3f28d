import OsWet.ForStd.Forest
import OsWet.Native.Tasks

/-!
# The process tree is a tree

In every state that is reached from `boot` by forks, exits, releases and calls of
`sys_set_weight`, the pointers `real_parent` form a tree with `init_task` at its root, the list
`children` of a task holds exactly its children in that tree, once each, and no weight is
negative.

- `RealParents`, `IsForest`: the tasks in memory and the tree they represent
- `exec_inv`: the invariant along every run
-/

namespace OsWet.Kernel

/-- The tasks in memory are the nodes of the tree, and `real_parent` is its parent function. -/
structure RealParents (tasks : Heap Task) (T : RootedTree Nat) : Prop where
  root : T.root = initTask
  mem : ∀ a, a ∈ T.nodes ↔ ∃ task, tasks.cell a = some task
  parent : ∀ a task, tasks.cell a = some task → T.parent a = task.realParent

/-- The tasks in memory represent the tree, and `children` lists the children in it. -/
structure IsForest (tasks : Heap Task) (T : RootedTree Nat) : Prop
    extends RealParents tasks T where
  nodup : ∀ a task, tasks.cell a = some task → task.children.Nodup
  mem_children : ∀ a task, tasks.cell a = some task → ∀ c, c ∈ task.children ↔ T.IsChild a c

/-- The invariant of the process tree, with the tree `T`. -/
structure Inv (tasks : Heap Task) (T : RootedTree Nat) : Prop where
  forest : IsForest tasks T
  weight : ∀ a task, tasks.cell a = some task → 0 ≤ task.weight
  -- The task at the root never exits, so it is never released.
  init : ∀ task, tasks.cell initTask = some task → task.exited = false

/-! ## Memory accesses -/

variable {tasks tasks' : Heap Task} {a : Nat} {task : Task}

/-- A task that is there can be read. -/
theorem loadTask_eq_ok : loadTask tasks a = .ok task ↔ tasks.cell a = some task := by
  simp only [loadTask, Heap.load]
  cases tasks.cell a with
  | none => simp [onTasks]
  | some v => simp [onTasks]

/-- A task that can be overwritten exists, and only its cell changes. -/
theorem storeTask_cell (h : storeTask tasks a task = .ok tasks') :
    tasks'.cell = Function.update tasks.cell a (some task) := by
  simp only [storeTask, Heap.store] at h
  split at h
  · split at h
    · cases h; rfl
    · cases h
  · cases h

/-- What a task was is gone when it is freed. -/
theorem freeTask_cell (h : onTasks (tasks.free (some a)) = .ok tasks') :
    tasks'.cell = Function.update tasks.cell a none := by
  simp only [Heap.free] at h
  split at h
  · split at h
    · cases h; rfl
    · cases h
  · cases h

/-- The tasks after one cell was overwritten. -/
theorem update_eq_some {cell : Nat → Option Task} {v : Option Task} {b : Nat} :
    Function.update cell a v b = some task ↔
      b = a ∧ v = some task ∨ b ≠ a ∧ cell b = some task := by
  by_cases hb : b = a
  · subst hb
    simp
  · simp [hb]

/-- Giving tasks a new parent changes nothing else of them. -/
theorem setRealParents_cell {reaper : Nat} {children : List Nat}
    (h : setRealParents reaper children tasks = .ok tasks') (b : Nat) :
    tasks'.cell b = if b ∈ children then
      (tasks.cell b).map fun task => { task with realParent := reaper } else tasks.cell b := by
  induction children generalizing tasks with
  | nil =>
    cases h
    rfl
  | cons child children ih =>
    simp only [setRealParents] at h
    obtain ⟨task, hload, h⟩ := Outcome.bind_eq_ok.mp h
    obtain ⟨tasks₁, hstore, h⟩ := Outcome.bind_eq_ok.mp h
    rw [ih h, storeTask_cell hstore]
    by_cases hb : b = child
    · subst hb
      -- Setting the parent twice is the same as setting it once.
      simp only [Function.update_self, loadTask_eq_ok.mp hload, List.mem_cons_self, if_true]
      split <;> rfl
    · simp only [Function.update_of_ne hb, List.mem_cons, hb, false_or]

/-- The tasks after an exit: what became of each of them. -/
structure ExitCell (task : Task) (current reaper b : Nat) (old new : Task) : Prop where
  weight : new.weight = old.weight
  realParent : new.realParent = if b ∈ task.children then reaper else old.realParent
  children : new.children = if b = current then [] else
    if b = reaper then old.children ++ task.children else old.children
  exited : b ≠ current → new.exited = old.exited

/-- An exit changes the tasks as `ExitCell` says, and neither adds nor removes one. -/
theorem exit_cell {current reaper : Nat} (hne : reaper ≠ current)
    (hself : current ∉ task.children) (hreaper : reaper ∉ task.children)
    (htask : tasks.cell current = some task) (h : exit tasks current reaper = .ok tasks') :
    (∀ b, (∃ old, tasks.cell b = some old) → ∃ new, tasks'.cell b = some new) ∧
      ∀ b new, tasks'.cell b = some new →
        ∃ old, tasks.cell b = some old ∧ ExitCell task current reaper b old new := by
  -- The four writes: the children, the task itself, the reaper, and the task again.
  obtain ⟨task', htask', h⟩ := Outcome.bind_eq_ok.mp h
  cases htask.symm.trans (loadTask_eq_ok.mp htask')
  obtain ⟨tasks₁, hset, h⟩ := Outcome.bind_eq_ok.mp h
  obtain ⟨parent, hparent, h⟩ := Outcome.bind_eq_ok.mp h
  obtain ⟨tasks₂, hstore, h⟩ := Outcome.bind_eq_ok.mp h
  obtain ⟨task₂, htask₂, hstore₂⟩ := Outcome.bind_eq_ok.mp h
  rw [loadTask_eq_ok, setRealParents_cell hset, if_neg hreaper] at hparent
  rw [loadTask_eq_ok, storeTask_cell hstore, Function.update_of_ne hne.symm,
    setRealParents_cell hset, if_neg hself, htask] at htask₂
  cases htask₂
  constructor
  · intro b h
    obtain ⟨old, hold⟩ := h
    rw [storeTask_cell hstore₂, storeTask_cell hstore]
    -- A cell that was not overwritten with a task still holds one.
    by_cases hb : b = current
    · exact ⟨_, by rw [hb, Function.update_self]⟩
    · rw [Function.update_of_ne hb]
      by_cases hbr : b = reaper
      · exact ⟨_, by rw [hbr, Function.update_self]⟩
      · rw [Function.update_of_ne hbr, setRealParents_cell hset, hold]
        split
        · exact ⟨_, rfl⟩
        · exact ⟨_, rfl⟩
  · -- Backwards: a cell after the exit comes from one of the four writes, or from before.
    intro b new hnew
    rw [storeTask_cell hstore₂, update_eq_some, storeTask_cell hstore, update_eq_some,
      setRealParents_cell hset] at hnew
    -- The task that exits, its reaper, a child of it, or any other task.
    rcases hnew with ⟨rfl, ⟨⟩⟩ | ⟨hb, ⟨rfl, ⟨⟩⟩ | ⟨hbr, hnew⟩⟩
    · refine ⟨task, htask, rfl, ?_, ?_, fun h => absurd rfl h⟩
      · rw [if_neg hself]
      · rw [if_pos rfl]
    · refine ⟨parent, hparent, rfl, ?_, ?_, fun _ => rfl⟩
      · rw [if_neg hreaper]
      · rw [if_neg hne, if_pos rfl]
    · split at hnew
      · rename_i hmem
        obtain ⟨old, hold, rfl⟩ := Option.map_eq_some_iff.mp hnew
        refine ⟨old, hold, rfl, ?_, ?_, fun _ => rfl⟩
        · rw [if_pos hmem]
        · rw [if_neg hb, if_neg hbr]
      · rename_i hmem
        refine ⟨new, hnew, rfl, ?_, ?_, fun _ => rfl⟩
        · rw [if_neg hmem]
        · rw [if_neg hb, if_neg hbr]

/-! ## The tree in memory -/

section Forest

variable {T : RootedTree Nat}

/-- Every task is in the tree. -/
theorem RealParents.mem_of_cell (h : RealParents tasks T) (ha : tasks.cell a = some task) :
    a ∈ T.nodes := (h.mem a).mpr ⟨task, ha⟩

/-- The parent of a task is there. -/
theorem RealParents.parent_cell (h : RealParents tasks T) (ha : tasks.cell a = some task) :
    ∃ parent, tasks.cell task.realParent = some parent := by
  rw [← h.mem, ← h.parent a task ha]
  exact T.parent_mem a (h.mem_of_cell ha)

/-- There are no more tasks than addresses that were handed out. -/
theorem RealParents.card_nodes_le (h : RealParents tasks T) : T.nodes.card ≤ tasks.next := by
  have hsub : T.nodes ⊆ Finset.range tasks.next := by
    intro b hb
    obtain ⟨task, htask⟩ := (h.mem b).mp hb
    exact Finset.mem_range.mpr (Heap.lt_next htask)
  simpa using Finset.card_le_card hsub

/-- A way up to `init_task` that avoids `a` shows that it starts at a task that is not `a` and
    not below it. -/
theorem RealParents.of_isNotBelow (h : RealParents tasks T) {distance b : Nat}
    (hb : isNotBelow tasks a distance b = true) : b ≠ a ∧ ¬ T.Descends a b := by
  -- By induction on the bound of the walk to the top.
  induction distance generalizing b with
  | zero =>
    simp only [isNotBelow, Bool.and_eq_true, beq_iff_eq, bne_iff_ne] at hb
    refine ⟨hb.2, ?_⟩
    rw [hb.1, ← h.root]
    exact RootedTree.not_descends_root
  | succ distance ih =>
    simp only [isNotBelow, Bool.and_eq_true, bne_iff_ne] at hb
    -- The walk goes one parent up.
    obtain ⟨hba, hrest⟩ := hb
    refine ⟨hba, fun hbelow => ?_⟩
    cases hcell : tasks.cell b with
    | none => simp [hcell] at hrest
    | some task =>
      simp only [hcell] at hrest
      obtain ⟨hpa, hpbelow⟩ := ih hrest
      -- What is below `a` has its parent at `a` or below it.
      have hchild : T.IsChild (T.parent b) b := by
        refine ⟨h.mem_of_cell hcell, fun hroot => ?_, rfl⟩
        exact RootedTree.not_descends_root (hroot ▸ hbelow : T.Descends a T.root)
      rw [← h.parent b task hcell] at hpa hpbelow
      exact ((RootedTree.descends_iff_parent hchild).mp hbelow).elim
        (fun heq => hpa heq.symm) hpbelow

end Forest

/-! ## Steps -/

section Steps

variable {T : RootedTree Nat} {current : Nat}

/-- A fork adds a leaf, with the weight of the task that forks. -/
theorem Inv.fork (h : Inv tasks T) {cloneParent : Bool} {pid : Int32}
    (hfork : fork tasks current cloneParent pid = .ok tasks') :
    ∃ ha hp, Inv tasks'
      (T.insert tasks.next (if cloneParent then T.parent current else current) ha hp) := by
  obtain ⟨task, htask, hfork⟩ := Outcome.bind_eq_ok.mp hfork
  obtain ⟨parent, hparent, hstore⟩ := Outcome.bind_eq_ok.mp hfork
  rw [loadTask_eq_ok] at htask hparent
  rw [h.forest.parent current task htask]
  -- With `CLONE_PARENT` the new task is a sibling of the one that forks.
  generalize hp : (if cloneParent then task.realParent else current) = p at hparent hstore
  -- The parent of the new task was there before.
  have hold : ∃ old, tasks.cell p = some old := by
    rw [← hp]
    split
    · exact h.forest.parent_cell htask
    · exact ⟨task, htask⟩
  obtain ⟨old, hold⟩ := hold
  have hfresh : tasks.cell tasks.next = none := tasks.fresh tasks.next le_rfl
  have hne : p ≠ tasks.next := by
    rintro rfl
    rw [hfresh] at hold
    cases hold
  generalize hnew : (⟨task.weight, pid, p, [], false⟩ : Task) = new at hparent hstore
  have hparent' : parent = old := by
    simp only [Function.update_of_ne hne, hold, Option.some.injEq] at hparent
    exact hparent.symm
  subst hparent'
  -- After the fork there are the parent with one more child, the new task, and the old ones.
  have hcell : ∀ b t, tasks'.cell b = some t ↔
      b = p ∧ some { parent with children := parent.children ++ [tasks.next] } = some t ∨
        b ≠ p ∧ (b = tasks.next ∧ some new = some t ∨ b ≠ tasks.next ∧ tasks.cell b = some t) := by
    intro b t
    rw [storeTask_cell hstore, update_eq_some]
    dsimp only
    rw [update_eq_some]
  have hmem : p ∈ T.nodes := h.forest.mem_of_cell hold
  have hnotmem : tasks.next ∉ T.nodes := by
    rw [h.forest.mem]
    intro h
    obtain ⟨t, ht⟩ := h
    rw [hfresh] at ht
    cases ht
  refine ⟨hnotmem, hmem, ⟨⟨h.forest.root, ?_, ?_⟩, ?_, ?_⟩, ?_, ?_⟩
  · -- The nodes are the old tasks and the new one.
    intro b
    simp only [RootedTree.insert, Finset.mem_insert, hcell]
    by_cases hbp : b = p
    · subst hbp
      simp [hmem]
    · by_cases hbn : b = tasks.next
      · simp [hbn, Ne.symm hne]
      · simp [hbp, hbn, h.forest.mem]
  · -- The parent of each task.
    intro b t hb
    show Function.update T.parent tasks.next p b = t.realParent
    rcases (hcell b t).mp hb with ⟨rfl, ⟨⟩⟩ | ⟨-, ⟨rfl, ⟨⟩⟩ | ⟨hbn, hb⟩⟩
    · rw [Function.update_of_ne hne]
      exact h.forest.parent b parent hold
    · rw [Function.update_self, ← hnew]
    · rw [Function.update_of_ne hbn]
      exact h.forest.parent b t hb
  · -- No child is listed twice.
    intro b t hb
    rcases (hcell b t).mp hb with ⟨rfl, ⟨⟩⟩ | ⟨-, ⟨rfl, ⟨⟩⟩ | ⟨hbn, hb⟩⟩
    · refine List.nodup_append.mpr ⟨h.forest.nodup b _ hold, List.nodup_singleton _, ?_⟩
      rintro c hc _ hd rfl
      rw [List.mem_singleton.mp hd] at hc
      exact hnotmem ((h.forest.mem_children b _ hold _).mp hc).mem
    · rw [← hnew]
      exact List.nodup_nil
    · exact h.forest.nodup b t hb
  · -- Who is listed is who has the task as parent.
    intro b t hb c
    rw [RootedTree.insert_isChild]
    rcases (hcell b t).mp hb with ⟨rfl, ⟨⟩⟩ | ⟨hbp, ⟨rfl, ⟨⟩⟩ | ⟨hbn, hb⟩⟩
    · rw [List.mem_append, List.mem_singleton, h.forest.mem_children b _ hold]
      simp
    · -- Nobody is the child of a task that did not exist.
      rw [← hnew]
      refine iff_of_false List.not_mem_nil ?_
      rintro (hc | ⟨-, hb⟩)
      · exact hnotmem hc.parent_mem
      · exact hbp hb
    · rw [h.forest.mem_children b t hb]
      simp [hbp]
  · -- The new task has the weight of the one that forks.
    intro b t hb
    rcases (hcell b t).mp hb with ⟨rfl, ⟨⟩⟩ | ⟨-, ⟨rfl, ⟨⟩⟩ | ⟨-, hb⟩⟩
    · exact h.weight b parent hold
    · rw [← hnew]
      exact h.weight current task htask
    · exact h.weight b t hb
  · -- `init_task` has not exited.
    intro t ht
    rcases (hcell _ t).mp ht with ⟨hb, ⟨⟩⟩ | ⟨-, ⟨-, ⟨⟩⟩ | ⟨-, hb⟩⟩
    · exact h.init parent (hb ▸ hold)
    · rw [← hnew]
    · exact h.init t hb

/-- An exit hands the children of a task to one that is not below it. -/
theorem Inv.exit (h : Inv tasks T) {reaper distance : Nat}
    (hrunning : isRunning tasks reaper = true) (hinit : current ≠ initTask)
    (hbelow : isNotBelow tasks current distance reaper = true)
    (hexit : exit tasks current reaper = .ok tasks') :
    ∃ hr hb, Inv tasks' (T.reparent current reaper hr hb) := by
  -- The reaper is not below the task that exits, so the tree stays a tree.
  obtain ⟨hne, hbelow⟩ := h.forest.of_isNotBelow hbelow
  have hload := hexit
  obtain ⟨task, htask, hload⟩ := Outcome.bind_eq_ok.mp hload
  rw [loadTask_eq_ok] at htask
  have hchild := h.forest.mem_children current task htask
  -- Neither of the two tasks is one of the children.
  have hself : current ∉ task.children := fun hc =>
    RootedTree.not_descends_self (.single ((hchild current).mp hc))
  have hreaper : reaper ∉ task.children := fun hc => hbelow (.single ((hchild reaper).mp hc))
  obtain ⟨hkeep, hcell⟩ := exit_cell hne hself hreaper htask hexit
  have hr : reaper ∈ T.nodes := by
    rw [h.forest.mem, ← Option.isSome_iff_exists]
    simp only [isRunning] at hrunning
    split at hrunning
    · cases hrunning
    · simp [*]
  refine ⟨hr, hbelow, ⟨⟨h.forest.root, ?_, ?_⟩, ?_, ?_⟩, ?_, ?_⟩
  · -- No task is added or removed.
    intro b
    show b ∈ T.nodes ↔ _
    rw [h.forest.mem]
    constructor
    · exact hkeep b
    · intro hb
      obtain ⟨new, hnew⟩ := hb
      obtain ⟨old, hold, -⟩ := hcell b new hnew
      exact ⟨old, hold⟩
  · -- The children get the reaper as parent, and nobody else.
    intro b new hnew
    obtain ⟨old, hold, hsaid⟩ := hcell b new hnew
    show (if b ≠ T.root ∧ T.parent b = current then reaper else T.parent b) = new.realParent
    rw [hsaid.realParent, h.forest.parent b old hold]
    have hiff : b ≠ T.root ∧ old.realParent = current ↔ b ∈ task.children := by
      rw [hchild, RootedTree.IsChild, h.forest.parent b old hold]
      simp [h.forest.mem_of_cell hold]
    simp only [hiff]
  · intro b new hnew
    obtain ⟨old, hold, hsaid⟩ := hcell b new hnew
    rw [hsaid.children]
    split
    · exact List.nodup_nil
    · have hnodup := h.forest.nodup b old hold
      split
      · -- The reaper and the task that exits have no child in common.
        refine List.nodup_append.mpr ⟨hnodup, h.forest.nodup current task htask, ?_⟩
        intro c hc d hd hcd
        subst hcd
        have hbc := (h.forest.mem_children b old hold c).mp hc
        exact ‹¬ b = current› (hbc.unique ((hchild c).mp hd))
      · exact hnodup
  · -- The task that exits loses its children to the reaper.
    intro b new hnew c
    obtain ⟨old, hold, hsaid⟩ := hcell b new hnew
    rw [hsaid.children, RootedTree.reparent_isChild]
    have hb := h.forest.mem_children b old hold c
    by_cases hbc : b = current
    · rw [if_pos hbc]
      simp [hbc, Ne.symm hne]
    · by_cases hbr : b = reaper
      · rw [if_neg hbc, if_pos hbr, List.mem_append, hb, hchild]
        simp [hbr, hne]
      · rw [if_neg hbc, if_neg hbr, hb]
        simp [hbc, hbr]
  · -- No weight changes.
    intro b new hnew
    obtain ⟨old, hold, hsaid⟩ := hcell b new hnew
    rw [hsaid.weight]
    exact h.weight b old hold
  · -- The task that exits is not `init_task`.
    intro new hnew
    obtain ⟨old, hold, hsaid⟩ := hcell initTask new hnew
    rw [hsaid.exited hinit.symm]
    exact h.init old hold

/-- A task is released once it is a leaf. -/
theorem Inv.release (h : Inv tasks T) (hzombie : isZombie tasks a = true)
    (hrelease : release tasks a = .ok tasks') :
    ∃ hroot hleaf, Inv tasks' (T.erase a hroot hleaf) := by
  obtain ⟨task, htask, hrelease⟩ := Outcome.bind_eq_ok.mp hrelease
  obtain ⟨parent, hparent, hrelease⟩ := Outcome.bind_eq_ok.mp hrelease
  obtain ⟨tasks₁, hstore, hfree⟩ := Outcome.bind_eq_ok.mp hrelease
  rw [loadTask_eq_ok] at htask hparent
  simp only [isZombie, htask, Bool.and_eq_true, List.isEmpty_iff] at hzombie
  obtain ⟨hexited, hempty⟩ := hzombie
  -- It is neither `init_task`, which never exits, nor its own parent.
  have hinit : a ≠ initTask := by
    intro ha
    rw [h.init task (ha ▸ htask)] at hexited
    cases hexited
  have hroot : a ≠ T.root := h.forest.root ▸ hinit
  have hchild : T.IsChild task.realParent a :=
    ⟨h.forest.mem_of_cell htask, hroot, h.forest.parent a task htask⟩
  -- A zombie without children is a leaf.
  have hleaf : ∀ c, ¬ T.IsChild a c := by
    intro c hc
    rw [← h.forest.mem_children a task htask, hempty] at hc
    exact List.not_mem_nil hc
  -- After the release there are the parent with one child less and the other tasks.
  have hcell : ∀ b new, tasks'.cell b = some new ↔ b ≠ a ∧
      (b = task.realParent ∧ some { parent with children := parent.children.erase a } = some new ∨
        b ≠ task.realParent ∧ tasks.cell b = some new) := by
    intro b new
    rw [freeTask_cell hfree, update_eq_some, storeTask_cell hstore, update_eq_some]
    simp
  have hnodup := h.forest.nodup _ parent hparent
  refine ⟨hroot, hleaf, ⟨⟨h.forest.root, ?_, ?_⟩, ?_, ?_⟩, ?_, ?_⟩
  · -- The nodes lose the task.
    intro b
    simp only [RootedTree.erase, Finset.mem_erase, hcell, h.forest.mem]
    by_cases hb : b = task.realParent
    · simp [hb, hparent]
    · simp [hb]
  · intro b new hnew
    show T.parent b = new.realParent
    rcases (hcell b new).mp hnew with ⟨-, ⟨rfl, ⟨⟩⟩ | ⟨-, hb⟩⟩
    · exact h.forest.parent _ parent hparent
    · exact h.forest.parent b new hb
  · intro b new hnew
    -- Taking one child out of a list leaves no child twice.
    rcases (hcell b new).mp hnew with ⟨-, ⟨rfl, ⟨⟩⟩ | ⟨-, hb⟩⟩
    · exact hnodup.erase a
    · exact h.forest.nodup b new hb
  · intro b new hnew c
    rw [RootedTree.erase_isChild]
    rcases (hcell b new).mp hnew with ⟨-, ⟨rfl, ⟨⟩⟩ | ⟨hb, hold⟩⟩
    · rw [hnodup.mem_erase_iff, h.forest.mem_children _ parent hparent, and_comm]
    · -- The task that leaves is no child of this one.
      rw [h.forest.mem_children b new hold]
      refine ⟨fun hc => ⟨hc, fun hca => hb ?_⟩, fun hc => hc.1⟩
      exact (hca ▸ hc : T.IsChild b a).unique hchild
  · intro b new hnew
    rcases (hcell b new).mp hnew with ⟨-, ⟨rfl, ⟨⟩⟩ | ⟨-, hb⟩⟩
    · exact h.weight _ parent hparent
    · exact h.weight b new hb
  · intro new hnew
    rcases (hcell _ new).mp hnew with ⟨-, ⟨heq, ⟨⟩⟩ | ⟨-, hb⟩⟩
    · exact h.init parent (heq ▸ hparent)
    · exact h.init new hb

/-- A weight that is not negative leaves the tree as it is. -/
theorem Inv.setWeight (h : Inv tasks T) {weight : Int32} {returned : Int}
    (hset : sysSetWeight tasks current weight = .ok (tasks', returned)) : Inv tasks' T := by
  simp only [sysSetWeight] at hset
  -- A weight that is not negative is stored in the task.
  split at hset
  · rename_i hweight
    obtain ⟨task, htask, hset⟩ := Outcome.bind_eq_ok.mp hset
    obtain ⟨tasks₁, hstore, hset⟩ := Outcome.bind_eq_ok.mp hset
    cases hset
    rw [loadTask_eq_ok] at htask
    -- Every task is as it was, except for its weight.
    have hcell : ∀ b new, tasks'.cell b = some new → ∃ old, tasks.cell b = some old ∧
        new = { old with weight := new.weight } ∧ 0 ≤ new.weight := by
      intro b new hnew
      rw [storeTask_cell hstore, update_eq_some] at hnew
      rcases hnew with ⟨rfl, ⟨⟩⟩ | ⟨-, hnew⟩
      · exact ⟨task, htask, rfl, hweight⟩
      · exact ⟨new, hnew, rfl, h.weight b new hnew⟩
    refine ⟨⟨⟨h.forest.root, fun b => ?_, ?_⟩, ?_, ?_⟩, ?_, ?_⟩
    · rw [h.forest.mem, storeTask_cell hstore]
      by_cases hb : b = current
      · simp [hb, htask]
      · simp [hb]
    · intro b new hnew
      obtain ⟨old, hold, heq, -⟩ := hcell b new hnew
      rw [heq]
      exact h.forest.parent b old hold
    · intro b new hnew
      obtain ⟨old, hold, heq, -⟩ := hcell b new hnew
      rw [heq]
      exact h.forest.nodup b old hold
    · intro b new hnew
      obtain ⟨old, hold, heq, -⟩ := hcell b new hnew
      rw [heq]
      exact h.forest.mem_children b old hold
    · intro b new hnew
      obtain ⟨old, -, -, hweight⟩ := hcell b new hnew
      exact hweight
    · intro new hnew
      obtain ⟨old, hold, heq, -⟩ := hcell _ new hnew
      rw [heq]
      exact h.init old hold
  · -- A negative weight is refused.
    cases hset
    exact h

end Steps

/-! ## Runs -/

/-- Right after the start `init_task` is alone. -/
def bootTree : RootedTree Nat where
  nodes := {initTask}
  parent b := b
  root := initTask
  root_mem := Finset.mem_singleton_self _
  parent_root := rfl
  parent_mem _ hb := hb
  reaches _ hb := ⟨0, Finset.mem_singleton.mp hb⟩

/-- The tree of a booted system. -/
theorem inv_boot : Inv boot bootTree := by
  -- After the boot there is one task, which is its own parent.
  have hcell : ∀ b task, boot.cell b = some task →
      b = initTask ∧ task = ⟨0, 0, initTask, [], false⟩ := by
    intro b task hb
    rcases update_eq_some.mp hb with ⟨rfl, ⟨⟩⟩ | ⟨-, ⟨⟩⟩
    exact ⟨rfl, rfl⟩
  have hno : ∀ {b c}, ¬ bootTree.IsChild b c := fun hc =>
    hc.2.1 (Finset.mem_singleton.mp hc.1)
  refine ⟨⟨⟨rfl, fun b => ?_, ?_⟩, ?_, ?_⟩, ?_, ?_⟩
  · simp only [bootTree, Finset.mem_singleton]
    constructor
    · rintro rfl
      exact ⟨_, rfl⟩
    · intro h
      obtain ⟨task, hb⟩ := h
      exact (hcell b task hb).1
  · intro b task hb
    obtain ⟨rfl, rfl⟩ := hcell b task hb
    rfl
  · intro b task hb
    obtain ⟨rfl, rfl⟩ := hcell b task hb
    exact List.nodup_nil
  · intro b task hb c
    obtain ⟨rfl, rfl⟩ := hcell b task hb
    exact iff_of_false List.not_mem_nil hno
  · intro b task hb
    obtain ⟨rfl, rfl⟩ := hcell b task hb
    decide
  · intro task hb
    obtain ⟨-, rfl⟩ := hcell _ task hb
    rfl

/-- Every step of the processes keeps the invariant, with the tree that it leads to. -/
theorem Inv.step {T : RootedTree Nat} (h : Inv tasks T) {action : KernelAction}
    {outs : List (Nat × Int)} (hstep : machine.step tasks action = .ok (tasks', outs)) :
    ∃ T', Inv tasks' T' := by
  -- One case for each action; each is one lemma above, and the tree is the one it names.
  cases action with
  | fork current cloneParent pid =>
    simp only [machine] at hstep
    split at hstep
    · obtain ⟨tasks₁, hfork, heq⟩ := Outcome.bind_eq_ok.mp hstep
      cases heq
      obtain ⟨ha, hp, h'⟩ := h.fork hfork
      exact ⟨_, h'⟩
    · cases hstep
  | exit current reaper distance =>
    simp only [machine] at hstep
    split at hstep
    · rename_i hguard
      obtain ⟨tasks₁, hexit, heq⟩ := Outcome.bind_eq_ok.mp hstep
      cases heq
      obtain ⟨hr, hb, h'⟩ := h.exit hguard.2.1 hguard.2.2.1 hguard.2.2.2 hexit
      exact ⟨_, h'⟩
    · cases hstep
  | release a =>
    simp only [machine] at hstep
    split at hstep
    · rename_i hguard
      obtain ⟨tasks₁, hrelease, heq⟩ := Outcome.bind_eq_ok.mp hstep
      cases heq
      obtain ⟨hroot, hleaf, h'⟩ := h.release hguard hrelease
      exact ⟨_, h'⟩
    · cases hstep
  | setWeight current weight =>
    simp only [machine] at hstep
    split at hstep
    · obtain ⟨⟨tasks₁, returned⟩, hset, heq⟩ := Outcome.bind_eq_ok.mp hstep
      cases heq
      exact ⟨T, h.setWeight hset⟩
    · cases hstep

/-- In every state that is reached the tasks form a tree. -/
theorem exec_inv {actions : List KernelAction} {outs : List (Nat × Int)}
    (hrun : machine.exec boot actions = .ok (tasks, outs)) : ∃ T, Inv tasks T := by
  refine machine.exec_invariant_state (I := fun tasks => ∃ T, Inv tasks T) ⟨bootTree, inv_boot⟩
    (fun s action s' outs h hs => ?_) hrun
  obtain ⟨T, h⟩ := h
  exact h.step hs

end OsWet.Kernel
