import OsWet.Native.Request
import OsWet.Native.Server

/-!
# The start of the server

`main` and `startServer` of `server.c` up to the accept loop, with `thread_pool.c`. The
blocks of memory live in one heap; an array is a block with as many entries as were asked
for, which are indeterminate (`none`) until they are written. The environment says which
calls of `malloc` and of `pthread_create` succeed, and what `open_listenfd` returns.

A thread is started with a function and its argument; what it then does is in
`OsWet.Native.Server`. A counter of type `int` that would leave its range is a fault.
-/

namespace OsWet

open Text

/-- The functions that threads run: there is only one. -/
inductive ThreadFunction where
  | workerThreadJob
  deriving DecidableEq, Repr

/-- `struct t_thread_pool`. -/
structure ThreadPool where
  capacity : Nat
  size : Nat
  functions : Ptr
  args : Ptr
  threads : Ptr
  deriving DecidableEq, Repr

/-- `struct t_worker_thread_params`. -/
structure WorkerThreadParams where
  connectionsQueue : Ptr
  threadID : Int
  deriving DecidableEq, Repr

/-- An entry of one of the arrays of the pool. -/
inductive Entry where
  | function (f : ThreadFunction)
  | arg (p : Ptr)
  | thread (tid : Int)
  deriving DecidableEq, Repr

/-- The blocks that are allocated before the accept loop. -/
inductive Block where
  | schedAlgo (s : Text)
  | pool (threadPool : ThreadPool)
  | array (length : Nat) (entries : Nat → Option Entry)
  | queue (mq : MessageQueue)
  | params (params : WorkerThreadParams)
  | dropped (dropSize : Int)

/-- What can go wrong before the accept loop. -/
inductive StartFault where
  | memory (e : MemFault)
  | wrongBlock
  | indeterminate
  | overflow
  deriving DecidableEq, Repr

/-- The memory, the number of calls of `malloc` so far, and the threads that were started with
    their arguments. -/
structure StartState where
  heap : Heap Block
  mallocs : Nat
  started : List (ThreadFunction × Ptr)

/-- What the system answers. -/
structure StartEnv where
  mallocOk : Nat → Bool
  pthreadCreate : Nat → Option Int
  openListenfd : Int → Option Int

/-- Code that runs before the accept loop. -/
abbrev StartM (β : Type) : Type := StateT StartState (Outcome StartFault) β

namespace ServerStart

/-- The largest `int`. -/
def INT_MAX : Nat := 2147483647

/-! ## Memory -/

/-- An access to the memory, as a part of the start. -/
def onMemory {β : Type} : Outcome MemFault β → Outcome StartFault β
  | .stuck => .stuck
  | .fault e => .fault (.memory e)
  | .ok b => .ok b

/-- The start goes wrong. -/
def fail {β : Type} (e : StartFault) : StartM β := fun _ => .fault e

/-- `malloc`, which may fail, with what the block is then filled with. -/
def malloc (env : StartEnv) (block : Block) : StartM Ptr := do
  let s ← get
  if env.mallocOk s.mallocs then
    set { s with heap := (s.heap.alloc block).2, mallocs := s.mallocs + 1 }
    return some (s.heap.alloc block).1
  else
    set { s with mallocs := s.mallocs + 1 }
    return none

/-- `free`. -/
def free (p : Ptr) : StartM Unit := do
  let s ← get
  let heap ← (onMemory (s.heap.free p) : Outcome StartFault (Heap Block))
  set { s with heap := heap }

/-- Read the block that a pointer points to. -/
def loadBlock (p : Ptr) : StartM Block := do
  onMemory ((← get).heap.load p)

/-- Write the block that a pointer points to. -/
def storeBlock (p : Ptr) (block : Block) : StartM Unit := do
  let s ← get
  let heap ← (onMemory (s.heap.store p block) : Outcome StartFault (Heap Block))
  set { s with heap := heap }

def loadPool (p : Ptr) : StartM ThreadPool := do
  match ← loadBlock p with
  | .pool threadPool => return threadPool
  | _ => fail .wrongBlock

/-- The entry of an array at an index, which must have been written. -/
def readArray (p : Ptr) (i : Nat) : StartM Entry := do
  match ← loadBlock p with
  | .array length entries =>
    if i < length then
      match entries i with
      | some entry => return entry
      | none => fail .indeterminate
    else fail (.memory .outOfBounds)
  | _ => fail .wrongBlock

def writeArray (p : Ptr) (i : Nat) (entry : Option Entry) : StartM Unit := do
  match ← loadBlock p with
  | .array length entries =>
    if i < length then storeBlock p (.array length (Function.update entries i entry))
    else fail (.memory .outOfBounds)
  | _ => fail .wrongBlock

/-- `++i` for an `int`. -/
def next (i : Nat) : StartM Nat := if i < INT_MAX then return i + 1 else fail .overflow

end ServerStart

open ServerStart

/-! ## The thread pool -/

namespace ThreadPool

/-- What a new array holds. -/
def indeterminate : Nat → Option Entry := fun _ => none

/-- `ThreadPoolCreate`. -/
def threadPoolCreate (env : StartEnv) (capacity : Nat) : StartM Ptr := do
  match ← malloc env (.pool ⟨capacity, 0, none, none, none⟩) with
  | none => return none
  | some tp =>
    match ← malloc env (.array capacity indeterminate) with
    | none =>
      free (some tp)
      return none
    | some functions =>
      match ← malloc env (.array capacity indeterminate) with
      | none =>
        free (some functions)
        free (some tp)
        return none
      | some threads =>
        match ← malloc env (.array capacity indeterminate) with
        | none =>
          free (some functions)
          free (some threads)
          free (some tp)
          return none
        | some args =>
          storeBlock (some tp) (.pool ⟨capacity, 0, some functions, some args, some threads⟩)
          return some tp

/-- `ThreadPoolFree`. The array of the arguments is not freed. -/
def threadPoolFree (threadPool : Ptr) : StartM Unit := do
  if threadPool = none then return ()
  else
    let pool ← loadPool threadPool
    free pool.functions
    free pool.threads
    free threadPool

/-- `TPAddThread`. -/
def tpAddThread (threadPool : Ptr) (function : ThreadFunction) (args : Ptr) : StartM Int := do
  if threadPool = none then return HW3_INVALID_VALUE
  else
    let pool ← loadPool threadPool
    let threadIndex := pool.size
    storeBlock threadPool (.pool { pool with size := pool.size + 1 })
    writeArray pool.functions threadIndex (some (.function function))
    writeArray pool.args threadIndex (some (.arg args))
    return threadIndex

def readFunction (p : Ptr) (i : Nat) : StartM ThreadFunction := do
  match ← readArray p i with
  | .function f => return f
  | _ => fail .wrongBlock

def readArg (p : Ptr) (i : Nat) : StartM Ptr := do
  match ← readArray p i with
  | .arg arg => return arg
  | _ => fail .wrongBlock

/-- `TPGetPoolSize`. -/
def tpGetPoolSize (threadPool : Ptr) : StartM Nat := do
  return (← loadPool threadPool).capacity

/-- `pthread_create`. What it returns is not looked at, and without a thread `currentTID` is
    indeterminate. -/
def pthreadCreate (env : StartEnv) (i : Nat) (function : ThreadFunction) (args : Ptr) :
    StartM (Option Entry) := do
  match env.pthreadCreate i with
  | some tid =>
    modify fun s => { s with started := s.started ++ [(function, args)] }
    return some (.thread tid)
  | none => return none

/-- The loop of `TPSignalStartAll` from `i`. -/
def signalStartLoop (env : StartEnv) (threadPool : Ptr) : Nat → Nat → StartM Unit
  | 0, _ => fun _ => .stuck
  | fuel + 1, i => do
    let pool ← loadPool threadPool
    if i < pool.size then
      let function ← readFunction pool.functions i
      let args ← readArg pool.args i
      let currentTID ← pthreadCreate env i function args
      writeArray pool.threads i currentTID
      let i ← next i
      signalStartLoop env threadPool fuel i
    else return ()

/-- `TPSignalStartAll`. -/
def tpSignalStartAll (env : StartEnv) (threadPool : Ptr) (fuel : Nat) : StartM Unit :=
  signalStartLoop env threadPool fuel 0

end ThreadPool

open ThreadPool

namespace ServerStart

/-- How `main` gets to the accept loop, or why it does not. -/
inductive Result where
  | exited (code : Int) (stderr : Text)
  | returned (code : Int)
  | serving (listenfd : Int) (connectionsQueue droppedConnectionsContents : Ptr) (dropSize : Int)
  deriving DecidableEq, Repr

/-- The arguments that `getargs` has parsed. -/
structure Args where
  port : Int
  threadPoolSize : Int
  queueSize : Int
  deriving DecidableEq, Repr

/-- The size of the array for the name of the policy. -/
def SCHED_ALG_MAX_SIZE : Nat := 7

/-- `strcpy` to a block of `SCHED_ALG_MAX_SIZE` bytes. -/
def strcpy (dest : Ptr) (s : Text) : StartM Unit := do
  match ← loadBlock dest with
  | .schedAlgo _ =>
    if s.length < SCHED_ALG_MAX_SIZE then storeBlock dest (.schedAlgo s)
    else fail (.memory .outOfBounds)
  | _ => fail .wrongBlock

/-- `getargs`, with `none` where it calls `exit`. -/
def getargs (schedAlg : Ptr) (argv : List Text) : StartM (Option Args) := do
  if argv.length < 5 then return none
  else
    strcpy schedAlg (argv.getD 4 [])
    return some ⟨atoi (argv.getD 1 []), atoi (argv.getD 2 []), atoi (argv.getD 3 [])⟩

/-- What `getargs` prints before it calls `exit`. -/
def usage (argv : List Text) : Text :=
  text "Usage: " ++ argv.headD (text "(null)") ++
    text " <port> <threadPoolSize> <queueSize> <schedAlg>\n"

/-- `initTP`. The size becomes an `unsigned int`. -/
def initTP (env : StartEnv) (threadPoolSize : Int) : StartM Ptr :=
  threadPoolCreate env (threadPoolSize % 4294967296).toNat

/-- `initMQ` and the memory of `MQCreate`. -/
def initMQ (env : StartEnv) (queueSize : Int) (schedAlgo : Text) : StartM Ptr := do
  let mq ← malloc env (.queue (MessageQueue.create queueSize .invalid))
  match ← (onMemory (MessageQueue.mqCreate mq.isSome queueSize (String.ofList schedAlgo)) :
      Outcome StartFault (Option MessageQueue)) with
  | some created =>
    storeBlock mq (.queue created)
    return mq
  | none =>
    free mq
    return none

/-- `initServerDataStructures`, with `none` where it returns 0. -/
def initServerDataStructures (env : StartEnv) (threadPoolSize : Int) (schedAlgo : Text)
    (queueSize : Int) : StartM (Option (Ptr × Ptr)) := do
  match ← initTP env threadPoolSize with
  | none => return none
  | some threadPool =>
    match ← initMQ env queueSize schedAlgo with
    | some connectionsQueue => return some (some threadPool, some connectionsQueue)
    | none =>
      -- rollback
      threadPoolFree (some threadPool)
      return none

/-- The loop of `initWorkerThreads` from `i`. -/
def initWorkerLoop (env : StartEnv) (threadPool connectionsQueue : Ptr) :
    Nat → Nat → StartM Unit
  | 0, _ => fun _ => .stuck
  | fuel + 1, i => do
    let size ← tpGetPoolSize threadPool
    if i < size then
      match ← malloc env (.params ⟨connectionsQueue, i⟩) with
      | none => return ()
      | some params =>
        let _ ← tpAddThread threadPool .workerThreadJob (some params)
        let i ← next i
        initWorkerLoop env threadPool connectionsQueue fuel i
    else return ()

/-- `initWorkerThreads`. -/
def initWorkerThreads (env : StartEnv) (threadPool connectionsQueue : Ptr) (fuel : Nat) :
    StartM Unit :=
  initWorkerLoop env threadPool connectionsQueue fuel 0

/-- `startServer` up to the accept loop. The loops take as much fuel as the pool has room for
    threads, and one more turn to see it. -/
def startServer (env : StartEnv) (port threadPoolSize queueSize : Int) (schedAlgo : Text) :
    StartM Result := do
  match ← initServerDataStructures env threadPoolSize schedAlgo queueSize with
  | none => return .returned 0
  | some (threadPool, connectionsQueue) =>
    let fuel := (threadPoolSize % 4294967296).toNat + 1
    initWorkerThreads env threadPool connectionsQueue fuel
    tpSignalStartAll env threadPool fuel
    match env.openListenfd port with
    -- `Open_listenfd` ends the process, with its threads
    | none => return .exited 0 (text "Open_listenfd error")
    | some listenfd =>
      let dropSize :=
        Server.dropSizeOf queueSize (MessageQueue.stringToPolicy (String.ofList schedAlgo))
      let droppedConnectionsContents ← malloc env (.dropped dropSize)
      return .serving listenfd connectionsQueue droppedConnectionsContents dropSize

/-- `main`. -/
def main (env : StartEnv) (argv : List Text) : StartM Result := do
  let schedAlgo ← malloc env (.schedAlgo [])
  match ← getargs schedAlgo argv with
  | none => return .exited 1 (usage argv)
  | some args =>
    startServer env args.port args.threadPoolSize args.queueSize (argv.getD 4 [])

/-- Before `main`. -/
def initial : StartState := ⟨.empty, 0, []⟩

end ServerStart

end OsWet
