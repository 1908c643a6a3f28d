import OsWet.Spec.QueueRefinement
import OsWet.Native.Server

/-!
# `MQGet` and its worker, when the copy fails

`MQGet` unlinks the head, copies its message, and frees both the message and the node
without a look at the copy. With memory for the copy the message goes to the worker.
Without it the message is gone, the worker gets `MQ_SUCCESS` and a null pointer, and
follows it. The worker follows the pointer before it looks at the return code anyway.
-/

namespace OsWet

namespace MessageQueue

variable {α : Type}

/-- What is wanted of `MQGet` on a list with the head message `head` and the rest `l`: it
    returns `MQ_SUCCESS` with the head and leaves the rest, or it returns another code and
    leaves the queue as it was. -/
def DeliversHead (head : Message α) (l : List (Nat × Node α)) (s : QueueMem α) :
    Segment (QueueMem α) (Kont Ptr α) CondVar (Ret α) → Prop
  | .leave s' _ (.get code message) =>
    code = .success ∧ message = some head ∧ ListRep s' l ∨ code ≠ .success ∧ s' = s
  | _ => False

/-- `MQGet` delivers the head exactly when there is memory for the copy. -/
theorem deliversHead_iff {s : QueueMem α} {a : Nat} {node : Node α} {l : List (Nat × Node α)}
    (h : ListRep s ((a, node) :: l)) (mallocs : Mallocs) (rands : List Nat) :
    (∀ g, (monitor α mallocs).segment rands .get s = .ok g → DeliversHead node.message l s g) ↔
      mallocs.copy = true := by
  obtain ⟨s', hrun, hlist, -, -⟩ := mqGet_cons h mallocs.copy
  have hseg : (monitor α mallocs).segment rands .get s =
      .ok (.leave s' .condGet (.get .success (messageCopy mallocs.copy node.message))) :=
    segment_run (k := .get) hrun
  rw [hseg]
  cases hcopy : mallocs.copy with
  | true =>
    refine iff_of_true ?_ rfl
    intro g h
    obtain ⟨⟩ := h
    exact .inl ⟨rfl, rfl, hlist⟩
  | false =>
    -- The code is `MQ_SUCCESS` with no message.
    refine iff_of_false (fun hdelivers => ?_) (by decide)
    rcases hdelivers _ rfl with ⟨-, hmessage, -⟩ | ⟨hcode, -⟩
    · cases hmessage
    · exact hcode rfl

end MessageQueue

namespace Server

variable {n : Nat}

/-- The worker goes on with what `MQGet` returned. -/
def dispatchReturned (s : Server n) (w : Fin n) (now : Timeval) (code : MQRetCode)
    (message : Option (Message Int)) : Outcome ServerFault (Server n) :=
  (s.returned [(some w, .get code message)]).dispatch w now

/-- What is wanted of a worker: it looks at the return code before it uses the message, so
    that on an error the message pointer makes no difference. -/
def ChecksCodeFirst (s : Server n) (w : Fin n) (now : Timeval) : Prop :=
  ∀ code, code ≠ .success → ∀ message message',
    s.dispatchReturned w now code message = s.dispatchReturned w now code message'

/-- What is wanted of a worker: when `MQGet` has returned `MQ_SUCCESS` it follows no null
    pointer. -/
def FollowsNoNull (s : Server n) (w : Fin n) (now : Timeval) (message : Option (Message Int)) :
    Prop :=
  s.dispatchReturned w now .success message ≠ .fault .nullMessage

/-- A worker follows the null pointer, whatever the return code. -/
theorem dispatchReturned_none (s : Server n) (w : Fin n) (now : Timeval) (code : MQRetCode) :
    s.dispatchReturned w now code none = .fault .nullMessage := by
  simp [dispatchReturned, dispatch, returned, setWorker]

/-- An access to a metadata block is not an access to the message. -/
private theorem onMetas_bind_ne_nullMessage {β γ : Type} {x : Outcome MemFault β}
    {f : β → Outcome ServerFault γ} (hf : ∀ b, f b ≠ .fault .nullMessage) :
    (onMetas x >>= f) ≠ .fault .nullMessage := by
  cases x with
  | stuck => exact fun h => by cases h
  | fault e => exact fun h => by cases h
  | ok b => exact hf b

/-- With a message to use, no null pointer is followed for it. -/
theorem dispatchReturned_some (s : Server n) (w : Fin n) (now : Timeval) (code : MQRetCode)
    (message : Message Int) :
    s.dispatchReturned w now code (some message) ≠ .fault .nullMessage := by
  simp only [dispatchReturned, returned, dispatch, setWorker, Function.update_self]
  refine onMetas_bind_ne_nullMessage fun block => ?_
  split
  · exact onMetas_bind_ne_nullMessage fun metas => fun h => by cases h
  · exact onMetas_bind_ne_nullMessage fun metas => fun h => by cases h

/-- A worker never looks at the return code first. -/
theorem not_checksCodeFirst (s : Server n) (w : Fin n) (now : Timeval) :
    ¬ s.ChecksCodeFirst w now := by
  intro h
  have hsame := h .errNullArgs (fun h => by cases h) none (some ⟨0, 0⟩)
  rw [dispatchReturned_none] at hsame
  exact dispatchReturned_some s w now .errNullArgs ⟨0, 0⟩ hsame.symm

/-- A worker follows no null pointer exactly when it was given a message. -/
theorem followsNoNull_iff (s : Server n) (w : Fin n) (now : Timeval)
    (message : Option (Message Int)) : s.FollowsNoNull w now message ↔ message ≠ none := by
  cases message with
  | none =>
    exact iff_of_false (fun h => h (dispatchReturned_none s w now .success)) fun h => h rfl
  | some message =>
    exact iff_of_true (dispatchReturned_some s w now .success message) (Option.some_ne_none _)

/-- What is wanted of `MQGet` and of the worker that calls it, on a list with the head
    message `head` and the rest `l`. -/
structure NeverLoses (mallocs : Mallocs) (rands : List Nat) (head : Message Int)
    (l : List (Nat × Node Int)) (q : QueueMem Int) (s : Server n) (w : Fin n) (now : Timeval) :
    Prop where
  delivers : ∀ g, (MessageQueue.monitor Int mallocs).segment rands .get q = .ok g →
    MessageQueue.DeliversHead head l q g
  noNull : ∀ q' c message, (MessageQueue.monitor Int mallocs).segment rands .get q =
    .ok (.leave q' c (.get .success message)) → s.FollowsNoNull w now message
  checksCode : s.ChecksCodeFirst w now

/-- On no queue, for no outcome of the allocation and for no worker is everything as wanted,
    because the worker uses the message before it looks at the code. The rest is as wanted
    exactly when the allocation in `MessageCopy` succeeds: then `MQGet` delivers the head and
    the worker follows no null pointer. -/
theorem never_loses_iff {q : QueueMem Int} {a : Nat} {node : Node Int} {l : List (Nat × Node Int)}
    (h : MessageQueue.ListRep q ((a, node) :: l)) (mallocs : Mallocs) (rands : List Nat)
    (s : Server n) (w : Fin n) (now : Timeval) :
    ¬ NeverLoses mallocs rands node.message l q s w now ∧
      ((∀ g, (MessageQueue.monitor Int mallocs).segment rands .get q = .ok g →
        MessageQueue.DeliversHead node.message l q g) ↔ mallocs.copy = true) ∧
      ((∀ q' c message, (MessageQueue.monitor Int mallocs).segment rands .get q =
        .ok (.leave q' c (.get .success message)) → s.FollowsNoNull w now message) ↔
          mallocs.copy = true) := by
  -- The first part never holds; the others depend on the copy alone.
  refine ⟨fun hall => not_checksCodeFirst s w now hall.checksCode,
    MessageQueue.deliversHead_iff h mallocs rands, ?_⟩
  obtain ⟨q', hrun, -⟩ := MessageQueue.mqGet_cons h mallocs.copy
  have hseg : (MessageQueue.monitor Int mallocs).segment rands .get q = .ok (.leave q' .condGet
      (.get .success (MessageQueue.messageCopy mallocs.copy node.message))) :=
    MessageQueue.segment_run (k := .get) hrun
  rw [hseg]
  -- With a copy the message is not null, without one it is.
  cases hcopy : mallocs.copy with
  | true =>
    refine iff_of_true ?_ rfl
    intro _ _ _ h
    obtain ⟨⟩ := h
    exact (followsNoNull_iff s w now _).mpr (Option.some_ne_none _)
  | false =>
    refine iff_of_false (fun hnull => ?_) (by decide)
    exact (followsNoNull_iff s w now none).mp (hnull _ _ _ rfl) rfl

/-- A queue that holds one message. -/
def oneMessageQueue : QueueMem Int where
  nodes := (Heap.empty.alloc ⟨none, ⟨7, 0⟩⟩).2
  metaFrees := []
  mq := ⟨1, 1, 0, some 0, some 0, .block⟩

theorem never_loses_oneMessageQueue :
    ¬ NeverLoses .succeed [] ⟨7, 0⟩ [] oneMessageQueue (initial 1 1 .block) ⟨0, Nat.one_pos⟩
        ⟨0, 0⟩ ∧
      ((∀ g, (MessageQueue.monitor Int .succeed).segment [] .get oneMessageQueue = .ok g →
        MessageQueue.DeliversHead ⟨7, 0⟩ [] oneMessageQueue g) ↔ Mallocs.succeed.copy = true) ∧
      ((∀ q' c message, (MessageQueue.monitor Int .succeed).segment [] .get oneMessageQueue =
        .ok (.leave q' c (.get .success message)) →
          (initial 1 1 .block).FollowsNoNull ⟨0, Nat.one_pos⟩ ⟨0, 0⟩ message) ↔
            Mallocs.succeed.copy = true) :=
  have hlist : MessageQueue.ListRep oneMessageQueue [(0, ⟨none, ⟨7, 0⟩⟩)] :=
    ⟨⟨rfl, rfl, rfl⟩, rfl, rfl⟩
  never_loses_iff hlist .succeed [] (initial 1 1 .block) ⟨0, Nat.one_pos⟩ ⟨0, 0⟩

/-- When the copy fails, `MQGet` returns `MQ_SUCCESS` and no message, the queue is empty, and
    the worker follows the null pointer. -/
theorem get_loses_message :
    ∃ q, (MessageQueue.monitor Int ⟨false, true, true⟩).segment [] .get oneMessageQueue =
        .ok (.leave q .condGet (.get .success none)) ∧
      MessageQueue.messages oneMessageQueue = [⟨7, 0⟩] ∧ MessageQueue.messages q = [] ∧
      (initial 1 1 .block).dispatchReturned ⟨0, Nat.one_pos⟩ ⟨0, 0⟩ .success none =
        .fault .nullMessage :=
  ⟨_, rfl, by decide, by decide, rfl⟩

end Server

end OsWet
