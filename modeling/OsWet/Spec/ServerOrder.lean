import OsWet.Spec.ServerDrains

/-!
# The order in which connections are served

Connections enter the queue at its tail in the order in which they are accepted, and a
worker takes the head. So what a worker serves, behind what it has served and before what is
in the queue and in the hands of the accept loop, always comes in the order of acceptance,
whatever the policy drops on the way. With a single worker and a queue that blocks, nothing
is passed over.

- `Steps.order`: one step keeps the order
- `server_in_order`: in every run each worker closes connections in the order of acceptance
-/

namespace OsWet

/-! ## Lists that follow a list -/

/-- `l` keeps the order of `l'`, and is all of it if `all` holds. -/
structure Follows (all : Prop) (l l' : List Int) : Prop where
  sublist : l.Sublist l'
  eq : all → l = l'

namespace Follows

variable {all : Prop} {l l' l'' : List Int}

/-- The same list follows. -/
theorem of_eq (h : l = l') : Follows all l l' := ⟨h ▸ List.Sublist.refl l, fun _ => h⟩

/-- What follows a list that follows. -/
theorem trans (h : Follows all l l') (h' : Follows all l' l'') : Follows all l l'' :=
  ⟨h.sublist.trans h'.sublist, fun hall => (h.eq hall).trans (h'.eq hall)⟩

/-- Less may be asked for. -/
theorem mono {all' : Prop} (h : Follows all l l') (hall : all' → all) : Follows all' l l' :=
  ⟨h.sublist, fun h' => h.eq (hall h')⟩

/-- The same may come in front of both. -/
theorem append_left (h : Follows all l l') (p : List Int) : Follows all (p ++ l) (p ++ l') :=
  ⟨h.sublist.append_left p, fun hall => by rw [h.eq hall]⟩

/-- The same may come behind both. -/
theorem append_right (h : Follows all l l') (p : List Int) : Follows all (l ++ p) (l' ++ p) :=
  ⟨h.sublist.append_right p, fun hall => by rw [h.eq hall]⟩

end Follows

/-! ## Where the connections are -/

/-- The connection that a worker has taken and not closed yet. -/
def Worker.serving (worker : Worker) : List Int :=
  match worker.point with
  | .got _ (some message) | .dispatched message | .handled message | .freed message =>
    [message.content]
  | _ => []

/-- The connection that a call of `MQPut` is about to put. -/
def kontBrings {ν : Type} : Option (Kont ν Int) → List Int
  | some (.put _ _ message _) => [message.content]
  | _ => []

/-- The connection that the accept loop is about to put. -/
def MainPoint.brings {ν : Type} (k : Option (Kont ν Int)) : MainPoint → List Int
  | .accepted connfd => [connfd]
  | .created message => [message.content]
  | .putting => kontBrings k
  | _ => []

namespace Server

variable {n : Nat} {s s' : Server n} {t t' : Queue.QState (ServerTid n) Int} {a : ServerAction n}
  {o : List (ServerEvent n)} {w : Fin n}

/-- The connections accepted, in order. -/
def acceptedFds (out : List (ServerEvent n)) : List Int :=
  out.filterMap fun e => match e with
    | .accepted fd => some fd
    | .closed _ _ => none

/-- The connections that a worker has closed, in order. -/
def closedBy (w : Fin n) (out : List (ServerEvent n)) : List Int :=
  out.filterMap fun e => match e with
    | .accepted _ => none
    | .closed i fd => if i = some w then some fd else none

/-- From the connection that the worker serves to the one that the accept loop brings. -/
def line (s : Server n) (t : Queue.QState (ServerTid n) Int) (w : Fin n) : List Int :=
  (s.workers w).serving ++ Queue.contents t.data ++ s.main.brings (t.threads none).kont

/-- What is accepted in two runs, one after the other. -/
theorem acceptedFds_append (out out' : List (ServerEvent n)) :
    acceptedFds (out ++ out') = acceptedFds out ++ acceptedFds out' := List.filterMap_append

/-- What a worker closes in two runs, one after the other. -/
theorem closedBy_append (w : Fin n) (out out' : List (ServerEvent n)) :
    closedBy w (out ++ out') = closedBy w out ++ closedBy w out' := List.filterMap_append

/-! ## Events -/

/-- What is observed of a step. -/
inductive Observed (s : Server n) : ServerAction n → List (ServerEvent n) → Prop
  | accept (fd : Int) : Observed s (.accept fd) [.accepted fd]
  | close (w : Fin n) (m : Message Int) (hpoint : (s.workers w).point = .freed m) :
    Observed s (.close w) [.closed (some w) m.content]
  | closeDropped (fd : Int) : Observed s .closeDropped [.closed none fd]
  | quiet {a : ServerAction n} (haccept : ∀ fd, a ≠ .accept fd) (hclose : ∀ w, a ≠ .close w) :
    Observed s a []

/-- An action without output accepts nothing and closes nothing. -/
private theorem observed_silent {r : Outcome ServerFault (Server n)}
    (h : silent r = .ok (s', o)) (haccept : ∀ fd, a ≠ .accept fd) (hclose : ∀ w, a ≠ .close w) :
    Observed s a o := by
  obtain ⟨s₁, -, heq⟩ := Outcome.bind_eq_ok.mp h
  cases heq
  exact .quiet haccept hclose

/-- What a step shows of accepting and closing. -/
theorem observed (h : (machine n).step s a = .ok (s', o)) : Observed s a o := by
  -- Only the two ends of a connection are observed: `accept` and the closes.
  cases a with
  | accept fd =>
    replace h : s.accept fd = .ok (s', o) := h
    unfold Server.accept at h
    split at h
    · split at h
      · cases h
      · cases h
        exact .accept fd
    · cases h
  | closeDropped =>
    replace h : s.closeDropped = .ok (s', o) := h
    unfold Server.closeDropped at h
    split at h
    · split at h
      · split at h
        · split at h
          · cases h
          · unfold Server.closeFd at h
            split at h
            · cases h
              exact .closeDropped _
            · cases h
        · cases h
      · -- The closing loop ends without a close.
        cases h
        exact .quiet (by simp) (by simp)
    · cases h
  | close w =>
    replace h : s.close w = .ok (s', o) := h
    unfold Server.close at h
    simp only at h
    split at h
    · rename_i m hpoint
      unfold Server.closeFd at h
      split at h
      · cases h
        exact .close w m hpoint
      · cases h
    · cases h
  -- The other actions have no event.
  | build _ _ | put | get _ | run _ _ _ | wakeSpuriously _ | dispatch _ _ | handle _ _ | free _ =>
    exact observed_silent h (by simp) (by simp)

/-- The connection that is accepted, if any, is the one that enters. -/
theorem Observed.of_outside_main (h : Observed s a o) {p p' : MainPoint}
    (next : MainPoint.Next a p p') (k : Option (Kont Unit Int)) :
    closedBy w o = [] ∧ p'.brings k = p.brings k ++ acceptedFds o := by
  cases next with
  | accept fd =>
    cases h with
    | accept => exact ⟨rfl, rfl⟩
    | quiet haccept => exact absurd rfl (haccept fd)
  | build =>
    cases h
    exact ⟨rfl, rfl⟩
  | closeOne | closeEnd => cases h <;> exact ⟨rfl, rfl⟩

/-- The connection that is closed, if any, is the one that the worker was serving. -/
theorem Observed.of_outside_worker (h : Observed s a o) {u : Fin n} {worker : Worker}
    (next : WorkerPoint.Next u a (s.workers u).point worker.point) :
    acceptedFds o = [] ∧ closedBy u o ++ worker.serving = (s.workers u).serving ∧
      (w ≠ u → closedBy w o = []) := by
  generalize hp : (s.workers u).point = p at next
  generalize hp' : worker.point = p' at next
  cases next with
  | dispatch | handle | free =>
    cases h
    exact ⟨rfl, by simp [closedBy, Worker.serving, hp, hp'], fun _ => rfl⟩
  | close m =>
    cases h with
    | close _ m' hpoint =>
      cases hp.symm.trans hpoint
      refine ⟨rfl, by simp [closedBy, Worker.serving, hp, hp'], fun hne => ?_⟩
      simp [closedBy, hne.symm]
    | quiet _ hclose => exact absurd rfl (hclose u)

end Server

/-! ## Steps -/

namespace Queue

variable {q : Queue Int} {g : End Int}

/-- A segment of `MQPut` keeps the order, and under the blocking policy every message. -/
theorem Move.put_follows {point : PutPoint} {message : Message Int} {out : PutOut Int}
    (h : Move q (.put point () message out) g) :
    Follows (q.schedPolicy = .block) (contents g.data ++ kontBrings g.kont)
      (contents q ++ [message.content]) := by
  cases h with
  | put | putAfterBlock =>
    exact .of_eq (by simp [Segment.data, Segment.kont, putEnd, contents, kontBrings])
  | block | randomBlock | spin => exact .of_eq rfl
  | dropTail hfull hpol =>
    refine ⟨?_, fun hblock => by rw [hpol] at hblock; cases hblock⟩
    simp [Segment.data, Segment.kont, contents, kontBrings]
  | dropHead hfull hpol hitems =>
    refine ⟨?_, fun hblock => by rw [hpol] at hblock; cases hblock⟩
    simp [Segment.data, Segment.kont, contents, kontBrings, hitems]
  | @dropRandom message _ mask hfull hpol =>
    refine ⟨?_, fun hblock => by rw [hpol] at hblock; cases hblock⟩
    -- What stays in the queue comes in its old order.
    have hstay : (MessageQueue.stay mask q.items).Sublist q.items := pick_sublist _ _
    simpa [Segment.data, Segment.kont, putEnd, contents, kontBrings] using
      (hstay.map Message.content).append_right [message.content]

/-- `MQGet` takes the head. -/
theorem Move.get_contents (h : Move q .get g) :
    (End.ret g = none ∧ contents g.data = contents q) ∨
      ∃ m, End.ret g = some (.get .success (some m)) ∧
        contents q = m.content :: contents g.data := by
  cases h with
  | getWait => exact .inl ⟨rfl, rfl⟩
  | get hitems => exact .inr ⟨_, rfl, by simp [contents, hitems, Segment.data]⟩

end Queue

namespace Server

variable {n : Nat} {s s' : Server n} {t t' : Queue.QState (ServerTid n) Int} {a : ServerAction n}
  {o : List (ServerEvent n)} {w : Fin n}

/-- Nothing is dropped, and there is nobody else to serve what the worker does not. -/
def ServedBy (w : Fin n) (t : Queue.QState (ServerTid n) Int) : Prop :=
  t.data.schedPolicy = .block ∧ ∀ u, u = w

/-- A segment of the queue moves a connection from the accept loop into the queue or from
    the queue to a worker, or drops some. -/
theorem QueueRun.order {i : ServerTid n} {k : Kont Unit Int} {g : Queue.End Int}
    (h : QueueRun s t i k g s' t') (hinv : Inv s t) (w : Fin n) :
    Follows (ServedBy w t) (line s' t' w) (line s t w) := by
  have hk := Monitor.State.kont_of_runnable h.runnable
  cases i with
  | none =>
    obtain ⟨hmain, hworkers, -, point, message, out, rfl, hgo⟩ := h.main_cases hinv
    have hnone : (t'.threads none).kont = g.kont := by rw [h.kont, Function.update_self]
    -- Outside `MQPut` the accept loop brings nothing, nor does a segment that has left.
    have hbrings : s'.main.brings (t'.threads none).kont = kontBrings g.kont := by
      rw [hnone]
      obtain ⟨point', out', -, -, hmain'⟩ | ⟨out', -, hkont, hmain'⟩ := hgo
      · rw [hmain']
        rfl
      · rw [hmain', hkont]
        split <;> rfl
    have hblock : ServedBy w t → t.data.schedPolicy = .block := And.left
    have hfollows := (h.move.put_follows.mono hblock).append_left (s.workers w).serving
    rwa [line, line, hworkers, hbrings, h.data, hmain, MainPoint.brings, hk, kontBrings,
      List.append_assoc, List.append_assoc]
  | some u =>
    -- A segment of a worker changes the line only by the message it takes.
    obtain ⟨hpoint, rfl, hmain, -, -, hgo⟩ := h.worker_cases hinv
    have hnone : (t'.threads none).kont = (t.threads none).kont := by
      rw [h.kont, Function.update_of_ne (Option.some_ne_none u).symm]
    rw [line, line, hmain, hnone, h.data]
    refine Follows.append_right ?_ _
    obtain ⟨hret, hdata⟩ | ⟨m, hret, hdata⟩ := h.move.get_contents
    · obtain ⟨-, -, hworkers⟩ | ⟨m, hret', -⟩ := hgo
      · rw [hworkers, hdata]
        exact .of_eq rfl
      · cases hret.symm.trans hret'
    · obtain ⟨hret', -⟩ | ⟨m', hret', -, -, hworkers⟩ := hgo
      · cases hret.symm.trans hret'
      · cases hret.symm.trans hret'
        rw [hworkers, hdata]
        -- This worker goes on with the message it takes, which was the first of the queue.
        by_cases hwu : w = u
        · subst hwu
          exact .of_eq (by simp [Worker.serving, hpoint])
        · -- The message of another worker is passed over.
          rw [Function.update_of_ne hwu]
          exact ⟨(List.sublist_cons_self _ _).append_left _, fun h => absurd (h.2 u).symm hwu⟩

/-- One step keeps the order. -/
theorem Steps.order (h : Steps s t a s' t') (hinv : Inv s t)
    (hstep : (machine n).step s a = .ok (s', o)) (w : Fin n) :
    Follows (ServedBy w t) (closedBy w o ++ line s' t' w) (line s t w ++ acceptedFds o) := by
  have hobserved := observed hstep
  -- A step through the queue is not observed.
  have hquiet : ∀ {l l' : List Int}, o = [] → Follows (ServedBy w t) l l' →
      Follows (ServedBy w t) (closedBy w o ++ l) (l' ++ acceptedFds o) := by
    rintro l l' rfl hll
    simpa [closedBy, acceptedFds] using hll
  cases h with
  | outside h =>
    cases h with
    -- What the accept loop brings comes last in the line.
    | main next queue workers =>
      obtain ⟨hclosed, hbrings⟩ := hobserved.of_outside_main (w := w) next (t.threads none).kont
      rw [line, line, hclosed, hbrings, workers, List.nil_append, List.append_assoc,
        List.append_assoc, List.append_assoc]
      exact .of_eq rfl
    | @worker u worker next queue main workers =>
      obtain ⟨haccepted, hserving, hother⟩ := hobserved.of_outside_worker (w := w) next
      rw [line, line, haccepted, main, workers, List.append_nil, ← List.append_assoc,
        ← List.append_assoc]
      refine .of_eq ?_
      by_cases hwu : w = u
      · subst hwu
        rw [Function.update_self, hserving]
      · rw [hother hwu, Function.update_of_ne hwu, List.nil_append]
  -- The message goes from the accept loop into its call.
  | @put message out _ _ hmain hwork hcall =>
    obtain ⟨queue, rfl⟩ := hcall.after
    refine hquiet (by cases hobserved; rfl) (.of_eq ?_)
    rw [line, line, hcall.data, hcall.kont, Function.update_self, hmain]
    rfl
  | @get u _ _ hpoint hcall =>
    obtain ⟨queue, rfl⟩ := hcall.after
    refine hquiet (by cases hobserved; rfl) (.of_eq ?_)
    rw [line, line, hcall.data, hcall.kont, Function.update_of_ne (Option.some_ne_none u).symm]
    -- A worker that has called `MQGet` serves nothing, as before.
    have hserving : ((s.setWorker u { s.workers u with point := .getting }).workers w).serving =
        (s.workers w).serving := by
      by_cases hwu : w = u
      · subst hwu
        simp [setWorker, Worker.serving, hpoint]
      · rw [setWorker_of_ne s hwu]
    exact congrArg (fun l => l ++ _ ++ _) hserving
  | run hrun => exact hquiet (by cases hobserved; rfl) (hrun.order hinv w)
  -- A wake-up moves nothing.
  | wake hwake =>
    obtain ⟨queue, rfl⟩ := hwake.after
    refine hquiet (by cases hobserved; rfl) (.of_eq ?_)
    rw [line, line, hwake.data, hwake.kont]

/-! ## Runs -/

/-- The policy does not change. -/
theorem Serving.schedPolicy_eq {capacity : Int} {schedPolicy : MQSchedPolicy}
    (h : Serving capacity schedPolicy s t) : t.data.schedPolicy = schedPolicy := by
  obtain ⟨acts, out, hreached⟩ := h.reached
  exact (Queue.exec_params hreached).2

/-- What a worker has closed, and what is on the way to it. -/
theorem exec_line {queueSize : Int} {schedPolicy : MQSchedPolicy} (hsize : 1 ≤ queueSize)
    (w : Fin n) {acts : List (ServerAction n)} {out : List (ServerEvent n)}
    (h : (machine n).exec (initial n queueSize schedPolicy) acts = .ok (s, out)) :
    ∃ t, Serving queueSize schedPolicy s t ∧
      Follows (ServedBy w t) (closedBy w out ++ line s t w) (acceptedFds out) := by
  refine Machine.exec_invariant (I := fun s out => ∃ t, Serving queueSize schedPolicy s t ∧
    Follows (ServedBy w t) (closedBy w out ++ line s t w) (acceptedFds out))
    ⟨_, serving_initial hsize, .of_eq rfl⟩ ?_ h
  intro s out a s' o hline hstep
  obtain ⟨t, hs, hline⟩ := hline
  obtain ⟨t', hsteps, hs'⟩ := hs.step hstep
  have horder := hsteps.order hs.inv hstep w
  refine ⟨t', hs', ?_⟩
  have hserved : ServedBy w t' → ServedBy w t := fun h =>
    ⟨hs.schedPolicy_eq.trans (hs'.schedPolicy_eq.symm.trans h.1), h.2⟩
  rw [closedBy_append, acceptedFds_append, List.append_assoc]
  refine ((horder.append_left (closedBy w out)).mono hserved).trans ?_
  rw [← List.append_assoc]
  exact (hline.append_right _).mono hserved

/-- In every run each worker closes connections in the order in which they were accepted. With
    one worker and a queue that blocks it closes all of them: those that it has not closed yet
    are the last ones accepted. -/
theorem server_in_order (queueSize : Int) (schedPolicy : MQSchedPolicy) (hsize : 1 ≤ queueSize)
    (acts : List (ServerAction n)) (s : Server n) (out : List (ServerEvent n))
    (h : (machine n).exec (initial n queueSize schedPolicy) acts = .ok (s, out)) (w : Fin n) :
    (closedBy w out).Sublist (acceptedFds out) ∧
      (schedPolicy = .block → (∀ u, u = w) → closedBy w out <+: acceptedFds out) := by
  obtain ⟨t, hs, hline⟩ := exec_line hsize w h
  constructor
  · exact (List.sublist_append_left _ _).trans hline.sublist
  · intro hblock halone
    rw [← hline.eq ⟨hs.schedPolicy_eq.trans hblock, halone⟩]
    exact List.prefix_append _ _

/-- One worker and three connections, of which it has served two. -/
def twoServedRun : List (ServerAction 1) :=
  let w : Fin 1 := .last 0
  let block : MetaData := ⟨⟨0, 0⟩, ⟨0, 0⟩, 0, 0, 0, 0⟩
  [.accept 5, .build block ⟨1, 0⟩, .put, .run none [] none,
   .accept 6, .build block ⟨1, 0⟩, .put, .run none [] none,
   .get w, .run (some w) [] none, .dispatch w ⟨3, 0⟩, .handle w 1, .free w, .close w,
   .accept 7, .build block ⟨1, 0⟩, .put, .run none [] none,
   .get w, .run (some w) [] none, .dispatch w ⟨3, 0⟩, .handle w 1, .free w, .close w]

/-- One worker, and three connections of which it has closed two. -/
theorem server_in_order_twoServedRun :
    ∃ s out, (machine 1).exec (initial 1 3 .block) twoServedRun = .ok (s, out) ∧
      acceptedFds out = [5, 6, 7] ∧ closedBy 0 out = [5, 6] ∧
      (closedBy 0 out).Sublist (acceptedFds out) ∧ closedBy 0 out <+: acceptedFds out :=
  have horder := server_in_order 3 .block (by decide) twoServedRun _ _ rfl 0
  ⟨_, _, rfl, rfl, rfl, horder.1, horder.2 rfl (by decide)⟩

end Server

end OsWet
