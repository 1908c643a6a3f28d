import OsWet.Spec.ProcessForest
import Mathlib.Algebra.Order.BigOperators.Group.Finset
import Mathlib.Algebra.Order.BigOperators.Group.List
import Mathlib.Algebra.Ring.Int.Defs

/-!
# The sum over the children is exact

With fewer than 2^32 tasks `do_sys_get_children_sum` adds up the weights of all tasks below
its argument, and the sum never leaves the range of a `long`. Weights are not negative, so
no sum is taken for an error by user space.
-/

namespace OsWet.Kernel

variable {tasks : Heap Task} {T : RootedTree Nat} {a : Nat}

/-- The weight of the task at an address. -/
def weightOf (tasks : Heap Task) (a : Nat) : Int :=
  match tasks.cell a with
  | none => 0
  | some task => task.weight.toInt

/-- The weight of a task that is there. -/
theorem weightOf_eq {task : Task} (ha : tasks.cell a = some task) :
    weightOf tasks a = task.weight.toInt := by
  simp only [weightOf, ha]

/-- No task has a negative weight. -/
theorem Inv.weightOf_nonneg (h : Inv tasks T) (a : Nat) : 0 ≤ weightOf tasks a := by
  cases ha : tasks.cell a with
  | none => simp [weightOf, ha]
  | some task =>
    rw [weightOf_eq ha]
    exact Int32.le_iff_toInt_le.mp (h.weight a task ha)

/-- A weight is an `int`. -/
theorem weightOf_le (a : Nat) : weightOf tasks a ≤ 2147483647 := by
  cases ha : tasks.cell a with
  | none => simp [weightOf, ha]
  | some task =>
    rw [weightOf_eq ha]
    exact task.weight.toInt_le

/-- The weights of any of fewer than 2^32 tasks add up to a `long`. -/
theorem Inv.sum_weightOf (h : Inv tasks T) {S : Finset Nat} (hS : S ⊆ T.nodes)
    (hcard : T.nodes.card < 4294967296) :
    0 ≤ ∑ b ∈ S, weightOf tasks b ∧ ∑ b ∈ S, weightOf tasks b ≤ 9223372036854775807 := by
  constructor
  · exact Finset.sum_nonneg fun b _ => h.weightOf_nonneg b
  · have hle : S.card ≤ T.nodes.card := Finset.card_le_card hS
    calc ∑ b ∈ S, weightOf tasks b ≤ S.card • 2147483647 :=
          Finset.sum_le_card_nsmul S _ _ fun b _ => weightOf_le b
      _ = S.card * 2147483647 := Int.nsmul_eq_mul _ _
      _ ≤ 9223372036854775807 := by omega

/-- Adding two numbers whose sum is a `long`. -/
theorem addLong_eq {x y : Int} (h0 : 0 ≤ x + y) (hmax : x + y ≤ 9223372036854775807) :
    addLong x y = .ok (x + y) := by
  rw [addLong, if_pos ⟨by omega, hmax⟩]

/-- The loop over the children, when the sums for the children are right and the whole sum
    is in range: partial sums are smaller, since nothing that is added is negative. -/
theorem childrenLoop_eq {f : Nat → Outcome KernelFault Int} {sum : Nat → Int}
    {children : List Nat} (hsum : ∀ c ∈ children, f c = .ok (sum c) ∧ 0 ≤ sum c)
    (hcell : ∀ c ∈ children, ∃ task, tasks.cell c = some task)
    (hweight : ∀ c, 0 ≤ weightOf tasks c) {acc : Int} (hacc : 0 ≤ acc)
    (hmax : acc + (children.map fun c => sum c + weightOf tasks c).sum ≤ 9223372036854775807) :
    children.foldlM (fun weight pos => do
      let sum ← f pos
      let task ← loadTask tasks pos
      addLong weight (← addLong sum task.weight.toInt)) acc =
      .ok (acc + (children.map fun c => sum c + weightOf tasks c).sum) := by
  induction children generalizing acc with
  | nil => simp
  | cons c children ih =>
    -- What the other children add is not negative, so no partial sum is too large.
    have hrest : 0 ≤ (children.map fun c => sum c + weightOf tasks c).sum := by
      refine List.sum_nonneg fun x hx => ?_
      obtain ⟨d, hd, rfl⟩ := List.mem_map.mp hx
      have hsumd := (hsum d (List.mem_cons_of_mem c hd)).2
      have hweightd := hweight d
      omega
    obtain ⟨hf, hsum0⟩ := hsum c List.mem_cons_self
    obtain ⟨task, htask⟩ := hcell c List.mem_cons_self
    have hweightc := hweight c
    rw [List.map_cons, List.sum_cons] at hmax ⊢
    -- One turn of the loop adds what belongs to the first child.
    have hturn : (do
        let sum ← f c
        let task ← loadTask tasks c
        addLong acc (← addLong sum task.weight.toInt)) =
        Outcome.ok (acc + (sum c + weightOf tasks c)) := by
      rw [hf, loadTask_eq_ok.mpr htask]
      simp only [Outcome.ok_bind]
      rw [← weightOf_eq htask, addLong_eq (by omega) (by omega), Outcome.ok_bind,
        addLong_eq (by omega) (by omega)]
    rw [List.foldlM_cons, hturn, Outcome.ok_bind,
      ih (fun d hd => hsum d (List.mem_cons_of_mem c hd))
        (fun d hd => hcell d (List.mem_cons_of_mem c hd)) (by omega) (by omega)]
    congr 1
    omega

/-- With more fuel than there are tasks below it, the function returns the sum of the weights
    of these tasks. -/
theorem Inv.doSysGetChildrenSum_eq (h : Inv tasks T) (hcard : T.nodes.card < 4294967296)
    (ha : a ∈ T.nodes) {fuel : Nat} (hfuel : (T.descendants a).card < fuel) :
    doSysGetChildrenSum tasks fuel a = .ok (∑ b ∈ T.descendants a, weightOf tasks b) := by
  -- The induction goes from the children of a task to the task.
  induction a using T.childInduction generalizing fuel with
  | h a ih =>
    cases fuel with
    | zero => omega
    | succ fuel =>
      -- The sum of the descendants is the sum over the children of what belongs to each.
      obtain ⟨task, htask⟩ := (h.forest.mem a).mp ha
      have hmem := h.forest.mem_children a task htask
      have hsplit := T.sum_descendants (h.forest.nodup a task htask) hmem (weightOf tasks)
      have hrange := h.sum_weightOf (T.descendants_subset a) hcard
      simp only [doSysGetChildrenSum, loadTask_eq_ok.mpr htask, Outcome.ok_bind]
      -- Each child has fewer descendants, so the fuel is enough for it.
      have hsum : ∀ c ∈ task.children,
          doSysGetChildrenSum tasks fuel c = .ok (∑ b ∈ T.descendants c, weightOf tasks b) ∧
            0 ≤ ∑ b ∈ T.descendants c, weightOf tasks b := by
        intro c hc
        have hac := (hmem c).mp hc
        have hlt := RootedTree.card_descendants_lt hac
        exact ⟨ih c hac hac.mem (by omega), (h.sum_weightOf (T.descendants_subset c) hcard).1⟩
      -- Each child is a task.
      have hcell : ∀ c ∈ task.children, ∃ child, tasks.cell c = some child := fun c hc =>
        (h.forest.mem c).mp ((hmem c).mp hc).mem
      rw [hsplit] at hrange
      rw [childrenLoop_eq hsum hcell h.weightOf_nonneg le_rfl (by omega), hsplit, zero_add]

/-- Along every run of the process tree with fewer than 2^32 tasks no weight is negative;
    `sys_get_children_sum` returns `-ECHILD` exactly to the tasks that have no children, and
    to the others, after finitely many calls of itself, the sum of the weights of all tasks
    below them, without a fault and never a negative value. -/
theorem children_sum_exact {actions : List KernelAction} {outs : List (Nat × Int)}
    (hrun : machine.exec boot actions = .ok (tasks, outs)) :
    ∃ T, IsForest tasks T ∧ (T.nodes.card < 4294967296 →
      (∀ a task, tasks.cell a = some task → 0 ≤ task.weight) ∧
      ∀ a ∈ T.nodes, ∀ fuel, T.nodes.card < fuel →
        (sysGetChildrenSum tasks fuel a = .ok (-ECHILD) ↔ ∀ c, ¬ T.IsChild a c) ∧
        ((∃ c, T.IsChild a c) → 0 ≤ ∑ b ∈ T.descendants a, weightOf tasks b ∧
          sysGetChildrenSum tasks fuel a = .ok (∑ b ∈ T.descendants a, weightOf tasks b))) := by
  obtain ⟨T, h⟩ := exec_inv hrun
  refine ⟨T, h.forest, fun hcard => ⟨h.weight, fun a ha fuel hfuel => ?_⟩⟩
  obtain ⟨task, htask⟩ := (h.forest.mem a).mp ha
  have hmem := h.forest.mem_children a task htask
  have hnonneg := (h.sum_weightOf (T.descendants_subset a) hcard).1
  have hle : (T.descendants a).card ≤ T.nodes.card :=
    Finset.card_le_card (T.descendants_subset a)
  have hsum := h.doSysGetChildrenSum_eq hcard ha (show (T.descendants a).card < fuel by omega)
  simp only [sysGetChildrenSum, loadTask_eq_ok.mpr htask, Outcome.ok_bind]
  -- Without children the call returns `-ECHILD`, otherwise the sum.
  cases hchildren : task.children with
  | nil =>
    have hno : ∀ c, ¬ T.IsChild a c := by
      intro c hc
      rw [← hmem, hchildren] at hc
      exact List.not_mem_nil hc
    constructor
    · exact iff_of_true rfl hno
    · intro h
      obtain ⟨c, hc⟩ := h
      exact absurd hc (hno c)
  | cons c children =>
    have hc : T.IsChild a c := by
      rw [← hmem, hchildren]
      exact List.mem_cons_self
    simp only [List.isEmpty_cons, Bool.false_eq_true, if_false, hsum]
    constructor
    · refine iff_of_false (fun heq => ?_) (fun hno => hno c hc)
      -- A sum is not negative, and `-ECHILD` is.
      simp only [Outcome.ok.injEq, ECHILD] at heq
      omega
    · exact fun _ => ⟨hnonneg, trivial⟩

/-- A child of `init` sets its weight and forks two children, which inherit it. One of them forks
    a child and exits, which leaves that child to `init`. -/
def familyRun : List KernelAction :=
  [.fork 0 false 1, .fork 1 false 2, .setWeight 2 5, .fork 2 false 3, .fork 2 false 4,
    .fork 3 false 5, .setWeight 4 7, .setWeight 5 (-1), .exit 3 1 1, .release 3]

theorem children_sum_exact_familyRun : ∃ tasks outs T,
    machine.exec boot familyRun = .ok (tasks, outs) ∧ IsForest tasks T ∧
      (∃ c, T.IsChild 1 c) ∧ 0 ≤ ∑ b ∈ T.descendants 1, weightOf tasks b ∧
      sysGetChildrenSum tasks 8 1 = .ok (∑ b ∈ T.descendants 1, weightOf tasks b) := by
  have hrun : ∃ r, machine.exec boot familyRun = .ok r := ⟨_, rfl⟩
  obtain ⟨⟨tasks, outs⟩, hrun⟩ := hrun
  obtain ⟨T, hforest, h⟩ := children_sum_exact hrun
  have hnext : tasks.next = 6 := by
    cases hrun
    rfl
  have hle := hforest.card_nodes_le
  have hcell : ∃ task, tasks.cell 1 = some task ∧ task.children = [2, 5] := by
    cases hrun
    exact ⟨_, rfl, rfl⟩
  obtain ⟨task, htask, hchildren⟩ := hcell
  have hchild : ∃ c, T.IsChild 1 c := by
    refine ⟨2, ?_⟩
    rw [← hforest.mem_children 1 task htask, hchildren]
    decide
  have hsum := (h (by omega)).2 1 (hforest.mem_of_cell htask) 8 (by omega)
  exact ⟨tasks, outs, T, hrun, hforest, hchild, hsum.2 hchild⟩

end OsWet.Kernel
