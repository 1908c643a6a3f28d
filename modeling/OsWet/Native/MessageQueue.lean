import OsWet.ForStd.Chain
import OsWet.ForStd.Monitor

/-!
# The message queue of the web server

The queue of `message_queue.c`: a singly linked list with head and tail pointers and
a counter, one mutex, and two condition variables. `MQPut` copies the message into a
fresh node before it takes the mutex; what it does when the queue is full depends
on the scheduling policy.

The code is written against a heap of nodes, so that following a null or dangling
pointer is a fault. A `Message` block is owned by one holder at a time and only
ever copied whole, so it is modelled by its contents, a failed allocation being
`none`. `metaData` blocks belong to the caller; `metaFrees` records the calls of
`free(metaData)` in program order.

`MQPut` and `MQGet` are cut into segments at the points where they wait on a
condition variable, and `queueMonitor` puts the segments together.
-/

namespace OsWet

/-- `MQRetCode`. -/
inductive MQRetCode where
  | success
  | drop
  | errNullArgs
  | errMemoryFail
  deriving DecidableEq, Repr

/-- `MQSchedPolicy`. -/
inductive MQSchedPolicy where
  | invalid
  | block
  | dropTail
  | dropHead
  | dropRandom
  deriving DecidableEq, Repr

/-- `struct t_message`. The queue never looks at the content. -/
structure Message (α : Type) where
  content : α
  metaData : Nat
  deriving DecidableEq, Repr

/-- `struct t_node`. -/
structure Node (α : Type) where
  next : Ptr
  message : Message α
  deriving DecidableEq, Repr

/-- `struct t_message_queue`, without its mutex and condition variables. -/
structure MessageQueue where
  capacity : Int
  size : Int
  randomDropCount : Int
  head : Ptr
  tail : Ptr
  schedPolicy : MQSchedPolicy
  deriving DecidableEq, Repr

/-- The two condition variables of a queue. -/
inductive CondVar where
  | condGet
  | condPut
  deriving DecidableEq, Repr

/-- A queue and the memory it lives in. -/
structure QueueMem (α : Type) where
  nodes : Heap (Node α)
  metaFrees : List Nat
  mq : MessageQueue

/-- What `MQPut` hands back to its caller besides the return value, and its local
    flags. `dropped i` is what this call wrote to `(*dropped)[i]`. -/
structure PutOut (α : Type) where
  dropped : Nat → Option α
  droppedAmount : Int
  isPutting : Bool
  result : MQRetCode

/-- Where a call of `MQPut` continues when it gets the mutex: at the test of the
    overload loop, or behind the wait inside `putHandleDropRandom`. -/
inductive PutPoint where
  | loop
  | afterBlock
  deriving DecidableEq, Repr

/-- What a thread still has to do of its call. `ν` is how it names its new node. -/
inductive Kont (ν α : Type) where
  | put (point : PutPoint) (newNode : ν) (message : Message α) (out : PutOut α)
  | get

/-- A call that has not allocated anything yet. A null message is `none`. -/
inductive Call (α : Type) where
  | put (message : Option (Message α))
  | get

/-- What a call returned. -/
inductive Ret (α : Type) where
  | put (message : Option (Message α)) (out : PutOut α)
  | get (code : MQRetCode) (message : Option (Message α))

/-- The out-parameters and locals of `MQPut` at its start, with the caller's
    `droppedAmount`. -/
def PutOut.start {α : Type} (droppedAmount : Int) : PutOut α :=
  ⟨fun _ => none, droppedAmount, true, .success⟩

/-- `(*dropped)[i] = content`. -/
def PutOut.writeDropped {α : Type} (out : PutOut α) (i : Nat) (content : α) : PutOut α :=
  { out with dropped := Function.update out.dropped i (some content) }

/-- Which of the allocations of a call succeed. -/
structure Mallocs where
  copy : Bool
  node : Bool
  indexes : Bool

/-- All allocations succeed. -/
def Mallocs.succeed : Mallocs := ⟨true, true, true⟩

/-- How a segment of `MQPut` or `MQGet` ends. -/
inductive Exit (κ γ ο : Type) where
  | again (k : κ)
  | wait (c : γ) (k : κ)
  | leave (c : γ) (o : ο)
  | escape (o : ο)

/-- Turn the exit of a piece of code into the end of a segment. -/
def Exit.toSegment {κ γ ο σ : Type} (s : σ) : Exit κ γ ο → Segment σ κ γ ο
  | .again k => .again s k
  | .wait c k => .wait s c k
  | .leave c o => .leave s c o
  | .escape o => .escape s o

namespace MessageQueue

variable {α : Type}

/-- `stringToPolicy`. -/
def stringToPolicy (schedAlgo : String) : MQSchedPolicy :=
  if schedAlgo = "block" then .block
  else if schedAlgo = "dt" then .dropTail
  else if schedAlgo = "dh" then .dropHead
  else if schedAlgo = "random" then .dropRandom
  else .invalid

/-- The fields that `MQCreate` sets. -/
def create (capacity : Int) (schedPolicy : MQSchedPolicy) : MessageQueue where
  capacity := capacity
  size := 0
  randomDropCount := capacity.tdiv 4
  head := none
  tail := none
  schedPolicy := schedPolicy

/-- `MQCreate`. Without memory for the queue it returns null, except for capacity 0,
    where it goes on and writes through the null pointer. -/
def mqCreate (mallocOk : Bool) (capacity : Int) (schedAlgo : String) :
    Outcome MemFault (Option MessageQueue) :=
  if !mallocOk && capacity != 0 then .ok none
  else if !mallocOk then .fault .nullPointer
  else if stringToPolicy schedAlgo = .invalid then .ok none
  else .ok (some (create capacity (stringToPolicy schedAlgo)))

/-! ## Memory accesses -/

/-- Code of the queue: it reads and writes the queue's memory and can go wrong. -/
abbrev QueueM (α β : Type) : Type := StateT (QueueMem α) (Outcome MemFault) β

/-- The operation goes wrong. -/
def fail {β : Type} (e : MemFault) : QueueM α β := fun _ => .fault e

/-- Read the node that a pointer points to. -/
def loadNode (p : Ptr) : QueueM α (Node α) := do
  (← get).nodes.load p

/-- Write the node that a pointer points to. -/
def storeNode (p : Ptr) (node : Node α) : QueueM α Unit := do
  let s ← get
  let nodes ← s.nodes.store p node
  set { s with nodes := nodes }

/-- `free` on a node. -/
def freeNode (p : Ptr) : QueueM α Unit := do
  let s ← get
  let nodes ← s.nodes.free p
  set { s with nodes := nodes }

/-- `malloc` for a node, which is then filled. -/
def mallocNode (node : Node α) : QueueM α Ptr := do
  let s ← get
  set { s with nodes := (s.nodes.alloc node).2 }
  return some (s.nodes.alloc node).1

/-- `free(metaData)`. -/
def freeMetaData (metaData : Nat) : QueueM α Unit :=
  modify fun s => { s with metaFrees := s.metaFrees ++ [metaData] }

/-- Assign fields of the queue. -/
def modifyQueue (f : MessageQueue → MessageQueue) : QueueM α Unit :=
  modify fun s => { s with mq := f s.mq }

/-- `MessageCopy`. -/
def messageCopy (mallocOk : Bool) (message : Message α) : Option (Message α) :=
  if mallocOk then some message else none

/-! ## Random indexes -/

/-- The filling loop of `getRandomIndexes` from counter `i` on, reading the values of
    `rand()` from a list. On an index that is already set the counter is not
    advanced (`--i` undoes `++i`). -/
def fillRandIndexes (capacity amount : Int) :
    Int → List Int → List Nat → Outcome MemFault (List Int)
  | i, randIndexes, [] => if i < amount then .stuck else .ok randIndexes
  | i, randIndexes, rand :: rands =>
    if i < amount then
      let currentIndex := ((rand : Int) % capacity).toNat
      match randIndexes[currentIndex]? with
      | none => .fault .outOfBounds
      | some v =>
        -- a free index is taken, and a taken one is drawn again
        if v = 0 then fillRandIndexes capacity amount (i + 1) (randIndexes.set currentIndex 1) rands
        else fillRandIndexes capacity amount i randIndexes rands
    else .ok randIndexes

/-- `getRandomIndexes`. -/
def getRandomIndexes (mallocOk : Bool) (capacity amount : Int) (rands : List Nat) :
    Outcome MemFault (Option (List Int)) :=
  if mallocOk then do
    return some (← fillRandIndexes capacity amount 0 (List.replicate capacity.toNat 0) rands)
  else .ok none

/-! ## The overload policies -/

/-- `putHandleDropTail`. -/
def putHandleDropTail (newNode : Ptr) (out : PutOut α) : QueueM α (PutOut α) := do
  let node ← loadNode newNode
  -- the new node itself is dropped, and never linked
  let out := out.writeDropped 0 node.message.content
  freeMetaData node.message.metaData
  freeNode newNode
  return { out with isPutting := false, result := .drop, droppedAmount := 1 }

/-- `putHandleDropHead`. -/
def putHandleDropHead (out : PutOut α) : QueueM α (PutOut α) := do
  let nodeToFree := (← get).mq.head
  let node ← loadNode nodeToFree
  modifyQueue fun q => { q with head := node.next }
  let out := out.writeDropped 0 node.message.content
  freeMetaData node.message.metaData
  freeNode nodeToFree
  modifyQueue fun q => { q with size := q.size - 1 }
  -- an empty queue has no tail
  modifyQueue fun q => if q.size = 0 then { q with tail := q.head } else q
  return { out with result := .drop, droppedAmount := 1 }

/-- The first loop of `putHandleDropRandom`: drop from the head while the index is
    selected. The list is `randomIndexes` from `droppedIndex` on; the loop returns what
    is left of it behind the first index that is not selected. -/
def dropSelectedPrefix : List Int → Ptr → Nat → PutOut α →
    QueueM α (List Int × Ptr × Nat × PutOut α)
  | [], _, _, _ => fail .outOfBounds
  | selected :: randomIndexes, iterator, droppedIndex, out =>
    if selected = 0 then return (randomIndexes, iterator, droppedIndex, out)
    else do
      let nodeToFree := (← get).mq.head
      let node ← loadNode nodeToFree
      let out := out.writeDropped droppedIndex node.message.content
      modifyQueue fun q => { q with head := node.next }
      modifyQueue fun q => { q with size := q.size - 1 }
      -- `iterator` still points to the node that is freed next
      let iteratorNode ← loadNode iterator
      freeMetaData node.message.metaData
      freeNode nodeToFree
      dropSelectedPrefix randomIndexes iteratorNode.next (droppedIndex + 1) out

/-- The second loop of `putHandleDropRandom`: go through the rest of the queue with
    `prev` one node behind `iterator`. Returns the last `prev`. -/
def dropSelectedRest : List Int → Ptr → Ptr → Nat → PutOut α → QueueM α (Ptr × PutOut α)
  | [], prev, _, _, out => return (prev, out)
  | selected :: randomIndexes, prev, iterator, droppedIndex, out => do
    let node ← loadNode iterator
    if selected = 0 then
      dropSelectedRest randomIndexes iterator node.next droppedIndex out
    else
      let out := out.writeDropped droppedIndex node.message.content
      -- unlink the node that `iterator` points to
      let prevNode ← loadNode prev
      storeNode prev { prevNode with next := node.next }
      freeMetaData node.message.metaData
      freeNode iterator
      modifyQueue fun q => { q with size := q.size - 1 }
      dropSelectedRest randomIndexes prev node.next (droppedIndex + 1) out

/-- `putHandleDropRandom` for a capacity of at least 4. -/
def dropSelected (randomIndexes : List Int) (out : PutOut α) : QueueM α (PutOut α) := do
  let iterator := (← get).mq.head
  let (randomIndexes, iterator, droppedIndex, out) ← dropSelectedPrefix randomIndexes iterator 0 out
  let prev := iterator
  let iteratorNode ← loadNode iterator
  let (prev, out) ← dropSelectedRest randomIndexes prev iteratorNode.next droppedIndex out
  -- the last node may be gone
  let prevNode ← loadNode prev
  modifyQueue fun q => if prevNode.next = none then { q with tail := prev } else q
  return { out with result := .drop }

/-- How `putHandleDropRandom` ends: it waits like the blocking policy (`inl`), or it
    returns (`inr`). -/
def putHandleDropRandom (indexesOk : Bool) (rands : List Nat) (out : PutOut α) :
    QueueM α (PutOut α ⊕ PutOut α) := do
  let mq := (← get).mq
  -- a quarter of the capacity would be nothing, so `putHandleBlock`
  if mq.capacity < 4 then return .inl { out with droppedAmount := 0 }
  else
    let out := { out with droppedAmount := mq.randomDropCount }
    match ← (getRandomIndexes indexesOk mq.capacity out.droppedAmount rands : QueueM α _) with
    | none => return .inr { out with result := .errMemoryFail }
    | some randomIndexes => return .inr (← dropSelected randomIndexes out)

/-! ## MQPut and MQGet -/

/-- `MQPut` up to `pthread_mutex_lock`. It returns early (`inr`) on a null message and
    on a failed allocation. -/
def mqPutEnter (mallocs : Mallocs) (message : Option (Message α)) (out : PutOut α) :
    QueueM α (Kont Ptr α ⊕ Ret α) := do
  match message with
  | none => return .inr (.put none { out with result := .errNullArgs })
  | some message =>
    match messageCopy mallocs.copy message with
    | none => return .inr (.put (some message) { out with result := .errMemoryFail })
    | some copy =>
      if mallocs.node then
        let newNode ← mallocNode { next := none, message := copy }
        return .inl (.put .loop newNode message out)
      else
        freeMetaData copy.metaData
        return .inr (.put (some message) { out with result := .errMemoryFail })

/-- `MQPut` behind the overload loop: link the new node if it is still to be put, and
    leave after signalling `cond_put`. -/
def mqPutLeave (newNode : Ptr) (message : Message α) (out : PutOut α) :
    QueueM α (Exit (Kont Ptr α) CondVar (Ret α)) := do
  if out.isPutting then
    modifyQueue fun q => { q with size := q.size + 1 }
    let mq := (← get).mq
    -- the first message is head and tail
    if mq.size = 1 then
      modifyQueue fun q => { q with tail := newNode, head := newNode }
    else
      let last ← loadNode mq.tail
      storeNode mq.tail { last with next := newNode }
      modifyQueue fun q => { q with tail := newNode }
  return .leave .condPut (.put (some message) out)

/-- `MQPut` behind the call of `putHandleDropRandom`: leave at once, with the mutex, if
    that ran out of memory, and break out of the overload loop otherwise. -/
def mqPutAfterDropRandom (newNode : Ptr) (message : Message α) (out : PutOut α) :
    QueueM α (Exit (Kont Ptr α) CondVar (Ret α)) :=
  if out.result = .errMemoryFail then return .escape (.put (some message) out)
  else mqPutLeave newNode message out

/-- One pass of the overload loop of `MQPut`, from the test `size == capacity`. -/
def mqPutLoop (indexesOk : Bool) (rands : List Nat) (newNode : Ptr) (message : Message α)
    (out : PutOut α) : QueueM α (Exit (Kont Ptr α) CondVar (Ret α)) := do
  let mq := (← get).mq
  if mq.size = mq.capacity then
    match mq.schedPolicy with
    | .block => return .wait .condGet (.put .loop newNode message out)
    -- `break`
    | .dropTail => mqPutLeave newNode message (← putHandleDropTail newNode out)
    -- back to the test of the loop
    | .dropHead => return .again (.put .loop newNode message (← putHandleDropHead out))
    | .dropRandom =>
      match ← putHandleDropRandom indexesOk rands out with
      -- the wait is not followed by the test of the loop, but by `break`
      | .inl out => return .wait .condGet (.put .afterBlock newNode message out)
      | .inr out => mqPutAfterDropRandom newNode message out
    -- no branch of the loop applies
    | .invalid => return .again (.put .loop newNode message out)
  else mqPutLeave newNode message out

/-- `MQGet` from the test `size == 0`. -/
def mqGet (copyOk : Bool) : QueueM α (Exit (Kont Ptr α) CondVar (Ret α)) := do
  let mq := (← get).mq
  if mq.size = 0 then return .wait .condPut .get
  else
    let toFree := mq.head
    let node ← loadNode toFree
    modifyQueue fun q => { q with head := node.next }
    -- a failing copy is not noticed, and the return code is `MQ_SUCCESS`
    let message := messageCopy copyOk node.message
    freeNode toFree
    modifyQueue fun q => { q with size := q.size - 1 }
    modifyQueue fun q => if q.size = 0 then { q with tail := q.head } else q
    return .leave .condGet (.get .success message)

/-! ## The end of a queue -/

/-- The loop of `MQFree`: free a message and its node, and go on with the next node. A node is
    freed in every round, so that the number of nodes bounds the rounds. -/
def mqFreeLoop : Nat → Ptr → QueueM α Unit
  | _, none => return ()
  | 0, some _ => fun _ => .stuck
  | rounds + 1, some a => do
    let node ← loadNode (some a)
    freeMetaData node.message.metaData
    freeNode (some a)
    mqFreeLoop rounds node.next

/-- `MQFree`, of a queue that is not null. -/
def mqFree : QueueM α Unit := do
  let s ← get
  mqFreeLoop (s.nodes.next + 1) s.mq.head

/-! ## The monitor -/

/-- The code a thread runs when it gets the mutex. -/
def runKont (mallocs : Mallocs) (rands : List Nat) :
    Kont Ptr α → QueueM α (Exit (Kont Ptr α) CondVar (Ret α))
  | .put .loop newNode message out => mqPutLoop mallocs.indexes rands newNode message out
  | .put .afterBlock newNode message out => mqPutAfterDropRandom newNode message out
  | .get => mqGet mallocs.copy

/-- The code of a call before it takes the mutex. Callers of `MQPut` pass a
    `droppedAmount` of 0, as `startServer` does. -/
def enterCall (mallocs : Mallocs) : Call α → QueueM α (Kont Ptr α ⊕ Ret α)
  | .put message => mqPutEnter mallocs message (PutOut.start 0)
  | .get => return .inl .get

/-- `MQPut` and `MQGet` as a monitor. The environment supplies the values of `rand()`. -/
def monitor (α : Type) (mallocs : Mallocs) :
    Monitor (QueueMem α) (Kont Ptr α) CondVar (List Nat) (Call α) (Ret α) MemFault where
  call i s := do
    let (r, s) ← (enterCall mallocs i).run s
    return (s, r)
  segment rands k s := do
    let (exit, s) ← (runKont mallocs rands k).run s
    return exit.toSegment s

/-- A call together with which of its allocations succeed before it takes the mutex, and with
    the value of the caller's `droppedAmount`. -/
structure Attempt (α : Type) where
  mallocs : Mallocs
  droppedAmount : Int
  call : Call α

/-- `MQPut` and `MQGet` where allocations fail at the will of the environment: it says for
    each call and for each segment which of them succeed. -/
def failingMonitor (α : Type) :
    Monitor (QueueMem α) (Kont Ptr α) CondVar (Mallocs × List Nat) (Attempt α) (Ret α)
      MemFault where
  call i s := do
    let (r, s) ← (match i.call with
      | .put message => mqPutEnter i.mallocs message (PutOut.start i.droppedAmount)
      | .get => return .inl .get : QueueM α _).run s
    return (s, r)
  segment x k s := (monitor α x.1).segment x.2 k s

/-- A new queue in a memory without nodes. -/
def initialMem (capacity : Int) (schedPolicy : MQSchedPolicy) : QueueMem α where
  nodes := .empty
  metaFrees := []
  mq := create capacity schedPolicy

/-- The messages of a queue, from head to tail. -/
def messages (s : QueueMem α) : List (Message α) :=
  (s.nodes.walk Node.next s.mq.size.toNat s.mq.head).map fun x => x.2.message

end MessageQueue

end OsWet
