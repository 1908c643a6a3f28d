import OsWet.Native.MessageQueue
import OsWet.Native.Message
import Mathlib.Data.Finset.Basic
import Mathlib.Data.Fintype.Option

/-!
# The web server

`startServer` (the accept loop) and `workerThreadJob` of `server.c` around the message
queue. The threads are the accept loop (`none`) and `n` workers (`some w`). Between two
accesses to something shared, a thread is at a program point; the actions of the
machine are the pieces of code between these points, plus the segments of the queue.

Connection descriptors and `MessageMetaData` blocks are the two resources that change
hands. Closing a descriptor that is not open and touching or freeing a block that was
freed are faults. What `requestHandle` sends to the client is not modelled here; it
returns -1, 0 or 1, and counts a served request in the metadata.

Two things are taken for granted: every allocation succeeds, and `requestHandle` always
returns. It does not return to a client that sends nothing, or no end of its headers
(`OsWet.Spec.RequestHeaders`), and a worker that serves such a client takes no further step.
-/

namespace OsWet

/-- What can go wrong in the server. -/
inductive ServerFault where
  | queue (e : MemFault)
  | metaData (e : MemFault)
  | closeNotOpen (fd : Int)
  | droppedOutOfBounds
  | droppedUninitialised
  | nullMessage
  deriving DecidableEq, Repr

/-- Where the accept loop stands. -/
inductive MainPoint where
  | accepting
  | accepted (connfd : Int)
  | created (connectionMessage : Message Int)
  | putting
  | closing (droppedAmount : Int) (i : Nat)
  | stopped
  deriving DecidableEq, Repr

/-- Where a worker stands in its loop. -/
inductive WorkerPoint where
  | idle
  | getting
  | got (getRetCode : MQRetCode) (currentConnectionMessage : Option (Message Int))
  | dispatched (currentConnectionMessage : Message Int)
  | handled (currentConnectionMessage : Message Int)
  | freed (currentConnectionMessage : Message Int)
  | stopped
  deriving DecidableEq, Repr

/-- A worker: its program point and its counters. -/
structure Worker where
  point : WorkerPoint
  jobCount : Int
  staticCount : Int
  dynamicCount : Int
  deriving DecidableEq, Repr

/-- The threads of a server with `n` workers. -/
abbrev ServerTid (n : Nat) : Type := Option (Fin n)

/-- The queue of connections with its threads. -/
abbrev ConnectionsQueue (n : Nat) : Type :=
  Monitor.State (ServerTid n) (QueueMem Int) (Kont Ptr Int) CondVar

/-- The server. `openFds` are the open connection descriptors, `dropped` is the array
    `droppedConnectionsContents` of length `dropSize`. -/
structure Server (n : Nat) where
  queue : ConnectionsQueue n
  metas : Heap MetaData
  openFds : Finset Int
  dropped : Nat → Option Int
  dropSize : Int
  main : MainPoint
  workers : Fin n → Worker

/-- The next piece of code to run, with what the environment supplies to it. -/
inductive ServerAction (n : Nat) where
  | accept (connfd : Int)
  | build (block : MetaData) (now : Timeval)
  | put
  | closeDropped
  | get (w : Fin n)
  | run (t : ServerTid n) (rands : List Nat) (woken : Option (ServerTid n))
  | wakeSpuriously (t : ServerTid n)
  | dispatch (w : Fin n) (now : Timeval)
  | handle (w : Fin n) (isStatic : Int)
  | free (w : Fin n)
  | close (w : Fin n)

/-- What an observer of the resources sees. -/
inductive ServerEvent (n : Nat) where
  | accepted (fd : Int)
  | closed (t : ServerTid n) (fd : Int)
  deriving DecidableEq, Repr

namespace Server

variable {n : Nat}

/-- The result of a memory access to a metadata block. -/
def onMetas {β : Type} : Outcome MemFault β → Outcome ServerFault β
  | .stuck => .stuck
  | .fault e => .fault (.metaData e)
  | .ok b => .ok b

/-- `Close(fd)`. -/
def closeFd (s : Server n) (t : ServerTid n) (fd : Int) :
    Outcome ServerFault (Server n × List (ServerEvent n)) :=
  if fd ∈ s.openFds then .ok ({ s with openFds := s.openFds.erase fd }, [.closed t fd])
  else .fault (.closeNotOpen fd)

/-- Free metadata blocks one after the other. -/
def freeMetas : List Nat → Heap MetaData → Outcome MemFault (Heap MetaData)
  | [], metas => .ok metas
  | a :: as, metas => do freeMetas as (← metas.free (some a))

/-- Move a worker to another point. -/
def setWorker (s : Server n) (w : Fin n) (worker : Worker) : Server n :=
  { s with workers := Function.update s.workers w worker }

/-- What the caller of `MQPut` or `MQGet` does with the results. -/
def returned (s : Server n) : List (ServerTid n × Ret Int) → Server n
  | [(none, .put _ out)] =>
    { s with
      -- the array keeps what this call did not overwrite
      dropped := fun i => (out.dropped i).or (s.dropped i)
      main :=
        if out.result = .drop then .closing out.droppedAmount 0
        else if out.result = .success then .accepting
        else .stopped }
  | [(some w, .get code message)] =>
    s.setWorker w { s.workers w with point := .got code message }
  | _ => s

/-- A step of the queue. The metadata blocks that the queue frees in it are freed in the
    server's memory. -/
def queueStep (s : Server n) (a : Monitor.Action (ServerTid n) (List Nat) (Call Int)) :
    Outcome ServerFault (Server n) :=
  match (MessageQueue.monitor Int .succeed).machine.step s.queue a with
  | .stuck => .stuck
  | .fault e => .fault (.queue e)
  | .ok (queue, out) =>
    -- only the calls of `free` that this step adds
    match freeMetas (queue.data.metaFrees.drop s.queue.data.metaFrees.length) s.metas with
    | .stuck => .stuck
    | .fault e => .fault (.metaData e)
    | .ok metas => .ok (({ s with queue := queue, metas := metas } : Server n).returned out)

/-- `Accept`. The kernel returns a descriptor that is not open. -/
def accept (s : Server n) (connfd : Int) :
    Outcome ServerFault (Server n × List (ServerEvent n)) :=
  match s.main with
  | .accepting =>
    -- never a descriptor that is open
    if connfd ∈ s.openFds then .stuck
    else .ok ({ s with openFds := insert connfd s.openFds, main := .accepted connfd },
      [.accepted connfd])
  | _ => .stuck

/-- `buildMessageMetaData`, the arrival time, and `MessageCreate`. -/
def build (s : Server n) (block : MetaData) (now : Timeval) : Outcome ServerFault (Server n) :=
  match s.main with
  | .accepted connfd => do
    -- the new block holds what `malloc` finds there, then the arrival time
    let (messageMetaData, metas) := s.metas.alloc block
    let metas ← onMetas (metas.store (some messageMetaData) { block with arrivalTime := now })
    return { s with metas := metas, main := .created ⟨connfd, messageMetaData⟩ }
  | _ => .stuck

/-- The call of `MQPut`. -/
def put (s : Server n) : Outcome ServerFault (Server n) :=
  match s.main with
  | .created connectionMessage =>
    ({ s with main := .putting } : Server n).queueStep (.call none (.put (some connectionMessage)))
  | _ => .stuck

/-- One round of the loop that closes the dropped connections. -/
def closeDropped (s : Server n) : Outcome ServerFault (Server n × List (ServerEvent n)) :=
  match s.main with
  | .closing droppedAmount i =>
    if (i : Int) < droppedAmount then
      if (i : Int) < s.dropSize then
        match s.dropped i with
        -- an entry that no call of `MQPut` has written
        | none => .fault .droppedUninitialised
        | some droppedConnFD =>
          ({ s with main := .closing droppedAmount (i + 1) } : Server n).closeFd none droppedConnFD
      else .fault .droppedOutOfBounds
    else .ok ({ s with main := .accepting }, [])
  | _ => .stuck

/-- The call of `MQGet`. -/
def get (s : Server n) (w : Fin n) : Outcome ServerFault (Server n) :=
  match (s.workers w).point with
  | .idle =>
    (s.setWorker w { s.workers w with point := .getting }).queueStep (.call (some w) .get)
  | _ => .stuck

/-- The worker fills in the metadata of the message it got. -/
def dispatch (s : Server n) (w : Fin n) (now : Timeval) : Outcome ServerFault (Server n) :=
  let worker := s.workers w
  match worker.point with
  -- the message is used before the return code is looked at
  | .got _ none => .fault .nullMessage
  | .got getRetCode (some message) => do
    let block ← onMetas (s.metas.load (some message.metaData))
    let block := { block with threadID := w, dispatchTime := timersub now block.arrivalTime }
    if getRetCode = .success then
      let jobCount := worker.jobCount + 1
      let metas ← onMetas (s.metas.store (some message.metaData) { block with
        requestsCount := jobCount
        numStaticRequests := worker.staticCount
        numDynamicRequests := worker.dynamicCount })
      return { s with metas := metas }.setWorker w
        { worker with point := .dispatched message, jobCount := jobCount }
    else
      -- `break` out of the loop of the worker
      let metas ← onMetas (s.metas.store (some message.metaData) block)
      return { s with metas := metas }.setWorker w { worker with point := .stopped }
  | _ => .stuck

/-- `requestHandle` returns `isStatic`, and the worker counts the request. -/
def handle (s : Server n) (w : Fin n) (isStatic : Int) : Outcome ServerFault (Server n) :=
  let worker := s.workers w
  match worker.point with
  | .dispatched message =>
    -- an invalid request is not counted
    if isStatic = -1 then
      return s.setWorker w { worker with point := .handled message }
    else if isStatic = 0 ∨ isStatic = 1 then do
      let block ← onMetas (s.metas.load (some message.metaData))
      let metas ← onMetas (s.metas.store (some message.metaData)
        (if isStatic = 1 then { block with numStaticRequests := block.numStaticRequests + 1 }
          else { block with numDynamicRequests := block.numDynamicRequests + 1 }))
      return { s with metas := metas }.setWorker w
        (if isStatic = 1 then
          { worker with point := .handled message, staticCount := worker.staticCount + 1 }
        else { worker with point := .handled message, dynamicCount := worker.dynamicCount + 1 })
    else .stuck
  | _ => .stuck

/-- `free(currentMessageMetaData)`. -/
def free (s : Server n) (w : Fin n) : Outcome ServerFault (Server n) :=
  let worker := s.workers w
  match worker.point with
  | .handled message => do
    let metas ← onMetas (s.metas.free (some message.metaData))
    return { s with metas := metas }.setWorker w { worker with point := .freed message }
  | _ => .stuck

/-- `Close(currentConnFd)`, and back to the start of the loop. -/
def close (s : Server n) (w : Fin n) : Outcome ServerFault (Server n × List (ServerEvent n)) :=
  let worker := s.workers w
  match worker.point with
  | .freed message =>
    (s.setWorker w { worker with point := .idle }).closeFd (some w) message.content
  | _ => .stuck

/-- A step that only the threads themselves see. -/
def silent (r : Outcome ServerFault (Server n)) :
    Outcome ServerFault (Server n × List (ServerEvent n)) := do
  return (← r, [])

/-- The server as a machine. -/
def machine (n : Nat) : Machine (Server n) (ServerAction n) (ServerEvent n) ServerFault where
  step s
    | .accept connfd => s.accept connfd
    | .build block now => silent (s.build block now)
    | .put => silent s.put
    | .closeDropped => s.closeDropped
    | .get w => silent (s.get w)
    | .run t rands woken => silent (s.queueStep (.run t rands woken))
    | .wakeSpuriously t => silent (s.queueStep (.spurious t))
    | .dispatch w now => silent (s.dispatch w now)
    | .handle w isStatic => silent (s.handle w isStatic)
    | .free w => silent (s.free w)
    | .close w => s.close w

/-- The length of `droppedConnectionsContents`. -/
def dropSizeOf (queueSize : Int) (schedPolicy : MQSchedPolicy) : Int :=
  if schedPolicy = .dropRandom then queueSize.tdiv 4 else 1

/-- The server when the accept loop starts. -/
def initial (n : Nat) (queueSize : Int) (schedPolicy : MQSchedPolicy) : Server n where
  queue := Monitor.initial (MessageQueue.initialMem queueSize schedPolicy)
  metas := .empty
  openFds := ∅
  dropped := fun _ => none
  dropSize := dropSizeOf queueSize schedPolicy
  main := .accepting
  workers := fun _ => ⟨.idle, 0, 0, 0⟩

end Server

end OsWet
