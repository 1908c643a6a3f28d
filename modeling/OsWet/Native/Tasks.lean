import OsWet.ForStd.Heap

/-!
# The process tree and the system calls of `hw2.c`

A `task_struct` is modelled by the fields that `hw2.c` uses. Tasks live in a heap; the
task of `INIT_TASK` has the address 0 and is its own `real_parent`, though it is not in
its own list of children. An `int` is an `Int32`; a `long` is an `Int`, and an addition
that leaves the range of a `long` is a fault.

The system calls are translated from `hw2.c`. What the rest of the kernel does with the
process tree is not part of the repository; `fork`, `exit` and `release` say what `hw2.c`
relies on: a new task is a copy of the one that forks, a task that exits leaves its
children to another one that is not below it, and a task that has exited stays with its
parent until it is released.

The recursion of `do_sys_get_children_sum` and the loop of `sys_get_heaviest_ancestor` take
fuel, and are stuck without it.
-/

namespace OsWet

/-- What can go wrong in the kernel. -/
inductive KernelFault where
  | memory (e : MemFault)
  | overflow
  deriving DecidableEq, Repr

/-- `struct task_struct`. `exited` stands for `exit_state`. -/
structure Task where
  weight : Int32
  pid : Int32
  realParent : Nat
  children : List Nat
  exited : Bool
  deriving DecidableEq, Repr

/-- What happens to the process tree next. For an exit the environment also says how far the
    task that takes over the children is from `init_task`. -/
inductive KernelAction where
  | fork (current : Nat) (cloneParent : Bool) (pid : Int32)
  | exit (current reaper distance : Nat)
  | release (task : Nat)
  | setWeight (current : Nat) (weight : Int32)
  deriving DecidableEq, Repr

namespace Kernel

/-- `EINVAL`. -/
def EINVAL : Int := 22

/-- `ECHILD`. -/
def ECHILD : Int := 10

/-- The address of `init_task`. -/
def initTask : Nat := 0

/-- Memory with only the task that `INIT_TASK` sets up. -/
def boot : Heap Task := (Heap.empty.alloc ⟨0, 0, initTask, [], false⟩).2

/-- The result of a memory access to a task. -/
def onTasks {β : Type} : Outcome MemFault β → Outcome KernelFault β
  | .stuck => .stuck
  | .fault e => .fault (.memory e)
  | .ok b => .ok b

def loadTask (tasks : Heap Task) (a : Nat) : Outcome KernelFault Task :=
  onTasks (tasks.load (some a))

def storeTask (tasks : Heap Task) (a : Nat) (task : Task) : Outcome KernelFault (Heap Task) :=
  onTasks (tasks.store (some a) task)

/-- Addition of two `long`s. -/
def addLong (x y : Int) : Outcome KernelFault Int :=
  if -9223372036854775808 ≤ x + y ∧ x + y ≤ 9223372036854775807 then .ok (x + y)
  else .fault .overflow

/-! ## The system calls -/

/-- `sys_set_weight`. -/
def sysSetWeight (tasks : Heap Task) (current : Nat) (weight : Int32) :
    Outcome KernelFault (Heap Task × Int) := do
  if 0 ≤ weight then
    let task ← loadTask tasks current
    let tasks ← storeTask tasks current { task with weight := weight }
    return (tasks, 0)
  else return (tasks, -EINVAL)

/-- `sys_get_weight`. -/
def sysGetWeight (tasks : Heap Task) (current : Nat) : Outcome KernelFault Int := do
  return (← loadTask tasks current).weight.toInt

/-- `do_sys_get_children_sum`, with fuel for its recursion. -/
def doSysGetChildrenSum (tasks : Heap Task) : Nat → Nat → Outcome KernelFault Int
  | 0, _ => .stuck
  | fuel + 1, father => do
    let task ← loadTask tasks father
    task.children.foldlM (fun weight pos => do
      let sum ← doSysGetChildrenSum tasks fuel pos
      let task ← loadTask tasks pos
      addLong weight (← addLong sum task.weight.toInt)) 0

/-- `sys_get_children_sum`. -/
def sysGetChildrenSum (tasks : Heap Task) (fuel current : Nat) : Outcome KernelFault Int := do
  let task ← loadTask tasks current
  if task.children.isEmpty then return -ECHILD
  else doSysGetChildrenSum tasks fuel current

/-- The loop of `sys_get_heaviest_ancestor`, from `current_task` upwards. -/
def heaviestAncestorLoop (tasks : Heap Task) : Nat → Nat → Int → Int → Outcome KernelFault Int
  | 0, _, _, _ => .stuck
  | fuel + 1, currentTask, maxWeight, maxPid => do
    let currentTask := (← loadTask tasks currentTask).realParent
    let task ← loadTask tasks currentTask
    let currentWeight := task.weight.toInt
    let (maxWeight, maxPid) :=
      if currentWeight > maxWeight then (currentWeight, task.pid.toInt) else (maxWeight, maxPid)
    -- the only way out of the loop: `init` above the task it started from
    if task.pid.toInt = 1 then return maxPid
    else heaviestAncestorLoop tasks fuel currentTask maxWeight maxPid

/-- `sys_get_heaviest_ancestor`. -/
def sysGetHeaviestAncestor (tasks : Heap Task) (fuel current : Nat) : Outcome KernelFault Int := do
  let task ← loadTask tasks current
  heaviestAncestorLoop tasks fuel current task.weight.toInt task.pid.toInt

/-! ## The process tree -/

/-- A new task: a copy of the one that forks, at the end of the children of its parent. With
    `cloneParent` that is the parent of the task that forks. -/
def fork (tasks : Heap Task) (current : Nat) (cloneParent : Bool) (pid : Int32) :
    Outcome KernelFault (Heap Task) := do
  let task ← loadTask tasks current
  let realParent := if cloneParent then task.realParent else current
  let (child, tasks) := tasks.alloc
    { task with pid := pid, realParent := realParent, children := [], exited := false }
  let parent ← loadTask tasks realParent
  storeTask tasks realParent { parent with children := parent.children ++ [child] }

/-- Give each of the tasks a new `real_parent`. -/
def setRealParents (reaper : Nat) : List Nat → Heap Task → Outcome KernelFault (Heap Task)
  | [], tasks => .ok tasks
  | child :: children, tasks => do
    let task ← loadTask tasks child
    setRealParents reaper children (← storeTask tasks child { task with realParent := reaper })

/-- A task exits, and leaves its children to `reaper`. -/
def exit (tasks : Heap Task) (current reaper : Nat) : Outcome KernelFault (Heap Task) := do
  let task ← loadTask tasks current
  let tasks ← setRealParents reaper task.children tasks
  let parent ← loadTask tasks reaper
  let tasks ← storeTask tasks reaper { parent with children := parent.children ++ task.children }
  let task ← loadTask tasks current
  storeTask tasks current { task with children := [], exited := true }

/-- A task that has exited leaves its parent. -/
def release (tasks : Heap Task) (a : Nat) : Outcome KernelFault (Heap Task) := do
  let task ← loadTask tasks a
  let parent ← loadTask tasks task.realParent
  let tasks ← storeTask tasks task.realParent { parent with children := parent.children.erase a }
  onTasks (tasks.free (some a))

/-- The task has not exited. -/
def isRunning (tasks : Heap Task) (a : Nat) : Bool :=
  match tasks.cell a with
  | none => false
  | some task => !task.exited

/-- The task has exited and has no children. -/
def isZombie (tasks : Heap Task) (a : Nat) : Bool :=
  match tasks.cell a with
  | none => false
  | some task => task.exited && task.children.isEmpty

/-- The way from `b` up to `init_task`, of the given length, does not pass through `a`. -/
def isNotBelow (tasks : Heap Task) (a : Nat) : Nat → Nat → Bool
  | 0, b => b == initTask && b != a
  | distance + 1, b => b != a && match tasks.cell b with
    | none => false
    | some task => isNotBelow tasks a distance task.realParent

/-- The process tree as a machine. Its outputs are what `sys_set_weight` returns to which
    task. -/
def machine : Machine (Heap Task) KernelAction (Nat × Int) KernelFault where
  step tasks
    | .fork current cloneParent pid =>
      if isRunning tasks current then do return (← fork tasks current cloneParent pid, [])
      else .stuck
    | .exit current reaper distance =>
      if isRunning tasks current ∧ isRunning tasks reaper ∧ current ≠ initTask ∧
          isNotBelow tasks current distance reaper then do
        return (← exit tasks current reaper, [])
      else .stuck
    | .release a => if isZombie tasks a then do return (← release tasks a, []) else .stuck
    | .setWeight current weight =>
      if isRunning tasks current then do
        let (tasks, returned) ← sysSetWeight tasks current weight
        return (tasks, [(current, returned)])
      else .stuck

end Kernel

end OsWet
