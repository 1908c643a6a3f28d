import OsWet.Spec.QueueRefinement
import OsWet.ForStd.MonitorWakeup
import Mathlib.Data.Fintype.Option

/-!
# No wake-up of the queue is lost

Getters sleep on `cond_put` and use up messages; putters sleep on `cond_get` and use
up free places. Both counts meet the rule of `MonitorWakeup`: a thread goes to sleep
only at count zero, and the count goes up only together with a signal. Under the
dropping policies no putter ever sleeps.

- `queue_no_lost_wakeup`: a message and a sleeping getter, or a free place and a
  sleeping putter, come with a signalled getter or putter
-/

namespace OsWet

namespace Queue

variable {α : Type}

/-- The continuations of getters. -/
def IsGet {ν : Type} : Kont ν α → Prop
  | .put _ _ _ _ => False
  | .get => True

/-- The free places a sleeping putter could use. -/
def freePlaces (q : Queue α) : Nat :=
  if q.Blocking then (q.capacity - q.items.length).toNat else 0

/-- One more message takes up a free place. -/
private theorem freePlaces_append (q : Queue α) (m : Message α) :
    (q.append m).freePlaces ≤ q.freePlaces - 1 := by
  have hblocking : (q.append m).Blocking ↔ q.Blocking := Iff.rfl
  simp only [freePlaces, hblocking, append_capacity, append_items, List.length_append,
    List.length_singleton]
  split <;> omega

/-- One message less makes at most one more place. -/
private theorem freePlaces_get {q : Queue α} {m : Message α} {items : List (Message α)}
    (hitems : q.items = m :: items) : ({ q with items := items } : Queue α).freePlaces ≤
      q.freePlaces + 1 := by
  have hblocking : ({ q with items := items } : Queue α).Blocking ↔ q.Blocking := Iff.rfl
  simp only [freePlaces, hblocking, hitems, List.length_cons]
  split <;> omega

/-- Under the dropping policies no place is counted. -/
private theorem freePlaces_of_dropping {q : Queue α} (h : ¬ q.Blocking) : q.freePlaces = 0 :=
  if_neg h

/-- A queue that drops has no places to wait for. -/
private theorem freePlaces_le_of_dropping {q : Queue α} (h : ¬ q.Blocking) (n : Nat) :
    q.freePlaces ≤ n := by
  rw [freePlaces_of_dropping h]
  exact Nat.zero_le n

/-- Getters and messages. -/
theorem getRule : Monitor.WakeupRule (monitor α) .condPut IsGet fun q => q.items.length where
  call c q q' r h := by rw [call_eq_ok h]
  -- A getter sleeps only on an empty queue.
  wait rands k q q' k' h := by
    cases segment_eq_ok h with
    | getWait hitems => exact ⟨by rw [hitems]; rfl, trivial⟩
  leave_mine rands k q q' c' o hk h := by
    cases segment_eq_ok h with
    | get hitems => simp [hitems]
    | _ => exact hk.elim
  -- Every put signals `cond_put`, and adds at most one message.
  leave rands k q q' c' o h := by
    cases segment_eq_ok h with
    | put | putAfterBlock | dropTail => simp
    | get hitems => simp [hitems]
    | dropRandom _ _ _ hlen =>
      have hstay := length_stay_add_gone hlen
      simp only [append_items, dropTo_items, List.length_append, List.length_singleton, if_true]
      omega
  -- A drop only takes messages away.
  again rands k q q' k' h := by
    cases segment_eq_ok h with
    | dropHead _ _ hitems => exact .inr ⟨id, by simp [hitems]⟩
    | spin => exact .inr ⟨id, le_rfl⟩
  wait_other rands k q q' c' k' hne h := by
    cases segment_eq_ok h with
    | block | randomBlock => exact .inr ⟨id, le_rfl⟩
    | getWait => exact absurd rfl hne
  escape rands k q q' o h := nomatch segment_eq_ok h

/-- Putters and free places. -/
theorem putRule : Monitor.WakeupRule (monitor α) .condGet (fun k => ¬ IsGet k) freePlaces where
  call c q q' r h := by rw [call_eq_ok h]
  -- A putter sleeps only on a full queue.
  wait rands k q q' k' h := by
    cases segment_eq_ok h with
    | block hfull | randomBlock hfull =>
      rw [Full] at hfull
      exact ⟨by simp [freePlaces, hfull], id⟩
  leave_mine rands k q q' c' o hk h := by
    cases segment_eq_ok h with
    | put | putAfterBlock => simpa using freePlaces_append q _
    | dropTail _ hpol => exact freePlaces_le_of_dropping (by simp [Blocking, hpol]) _
    | dropRandom _ hpol hcap => exact freePlaces_le_of_dropping (by simp [Blocking, hpol, hcap]) _
    | get => exact absurd trivial hk
  -- A get signals `cond_get` and makes one place; a put makes none.
  leave rands k q q' c' o h := by
    cases segment_eq_ok h with
    | put | putAfterBlock => exact (freePlaces_append q _).trans (by omega)
    | dropTail _ hpol => exact freePlaces_le_of_dropping (by simp [Blocking, hpol]) _
    | dropRandom _ hpol hcap => exact freePlaces_le_of_dropping (by simp [Blocking, hpol, hcap]) _
    | get hitems => simpa using freePlaces_get hitems
  again rands k q q' k' h := by
    cases segment_eq_ok h with
    | dropHead _ hpol => exact .inl (freePlaces_of_dropping (by simp [Blocking, hpol]))
    | spin _ hpol => exact .inl (freePlaces_of_dropping (by simp [Blocking, hpol]))
  wait_other rands k q q' c' k' hne h := by
    cases segment_eq_ok h with
    | block | randomBlock => exact absurd rfl hne
    | getWait => exact .inr ⟨fun hk => hk trivial, le_rfl⟩
  escape rands k q q' o h := nomatch segment_eq_ok h

variable {Tid : Type} [DecidableEq Tid] [Fintype Tid]

/-- Putters sleep only under a policy that makes them. -/
theorem blocking_of_asleep {capacity : Int} {schedPolicy : MQSchedPolicy}
    {acts : List (Monitor.Action Tid (List Nat) (Call α))}
    {s : Monitor.State Tid (Queue α) (Kont Unit α) CondVar} {out : List (Tid × Ret α)}
    (h : (monitor α).machine.exec (Monitor.initial (initial capacity schedPolicy)) acts =
      .ok (s, out)) (hsome : Monitor.SomeAsleep .condGet s.threads) : s.data.Blocking := by
  obtain ⟨t, ht⟩ := hsome
  obtain ⟨k, hk⟩ := Status.waitsOn_eq_true.mp ht
  refine Monitor.exec_waiting (P := Blocking) ?_ ?_ ?_ h hk
  · -- The policy and the capacity never change, and only two branches go to sleep.
    intro c q q' r hq hc
    rwa [call_eq_ok hc]
  · intro rands k q g hq hg
    obtain ⟨hcap, hpol⟩ := (segment_eq_ok hg).params
    rwa [Blocking, hcap, hpol]
  · intro rands k q q' k' hg
    cases segment_eq_ok hg with
    | block _ hpol => exact .inl hpol
    | randomBlock _ hpol hcap => exact .inr ⟨hpol, hcap⟩

end Queue

namespace MessageQueue

variable {α Tid : Type} [DecidableEq Tid] [Fintype Tid]

/-- Some thread with such a continuation waits, woken up or not as `w` says. -/
def WaitsIn (p : Kont Ptr α → Prop) (w : Wake)
    (s : Monitor.State Tid (QueueMem α) (Kont Ptr α) CondVar) : Prop :=
  ∃ t c k, s.threads t = .waiting c w k ∧ p k

omit [DecidableEq Tid] [Fintype Tid] in
/-- A thread of the abstract queue waits where the thread of the code does. -/
private theorem waiting_abstract {s : Monitor.State Tid (QueueMem α) (Kont Ptr α) CondVar}
    {t : Monitor.State Tid (Queue α) (Kont Unit α) CondVar} (hR : Corresponds s t) {i : Tid}
    {c : CondVar} {w : Wake} {k : Kont Unit α} :
    t.threads i = .waiting c w k ↔ ∃ k', s.threads i = .waiting c w k' ∧ k'.forget = k := by
  rw [hR.threads_eq, Status.map_eq_waiting]

/-- A call of `MQGet` is one with and without addresses. -/
private theorem isGet_forget (k : Kont Ptr α) : Queue.IsGet k.forget ↔ Queue.IsGet k := by
  cases k <;> exact Iff.rfl

/-- While a message is there and a getter sleeps, some getter has been signalled and
    wants the mutex, and while a place is free and a putter sleeps, some putter has been
    signalled and wants the mutex. -/
structure NoLostWakeup (s : Monitor.State Tid (QueueMem α) (Kont Ptr α) CondVar) : Prop where
  get : 0 < s.data.mq.size → WaitsIn Queue.IsGet .asleep s → WaitsIn Queue.IsGet .signalled s
  put : s.data.mq.size < s.data.mq.capacity → WaitsIn (fun k => ¬ Queue.IsGet k) .asleep s →
    WaitsIn (fun k => ¬ Queue.IsGet k) .signalled s

/-- No wake-up is lost in any run, for any capacity and policy. -/
theorem queue_no_lost_wakeup (capacity : Int) (schedPolicy : MQSchedPolicy)
    (acts : List (Monitor.Action Tid (List Nat) (Call α)))
    (s : Monitor.State Tid (QueueMem α) (Kont Ptr α) CondVar) (out : List (Tid × Ret α))
    (h : (monitor α .succeed).machine.exec (Monitor.initial (initialMem capacity schedPolicy))
      acts = .ok (s, out)) : NoLostWakeup s := by
  obtain ⟨t, ht, hR⟩ := exec_abstract h
  obtain ⟨l, hrep⟩ := hR.1
  have hget := Queue.getRule.exec_inv ht
  have hput := Queue.putRule.exec_inv ht
  constructor
  · intro hsize h
    obtain ⟨i, c, k, hi, hk⟩ := h
    have hti := (waiting_abstract hR).mpr ⟨k, hi, rfl⟩
    -- A getter can only sleep on `cond_put`.
    have hasleep : Monitor.SomeAsleep .condPut t.threads := by
      cases c with
      | condPut => exact ⟨i, Status.waitsOn_eq_true.mpr ⟨_, hti⟩⟩
      | condGet => exact absurd ((isGet_forget k).mpr hk) (hput.mine_of_waiting i _ _ hti)
    have hneed : 0 < t.data.items.length := by
      have := hrep.size
      omega
    obtain ⟨j, kj, hj⟩ := Queue.getRule.signalled_of_asleep ht hneed hasleep
    obtain ⟨k', hk', rfl⟩ := (waiting_abstract hR).mp hj
    exact ⟨j, _, k', hk', (isGet_forget k').mp (hget.mine_of_waiting j _ _ hj)⟩
  · intro hsize h
    obtain ⟨i, c, k, hi, hk⟩ := h
    have hti := (waiting_abstract hR).mpr ⟨k, hi, rfl⟩
    -- A putter can only sleep on `cond_get`.
    have hasleep : Monitor.SomeAsleep .condGet t.threads := by
      cases c with
      | condGet => exact ⟨i, Status.waitsOn_eq_true.mpr ⟨_, hti⟩⟩
      | condPut => exact absurd ((isGet_forget k).mp (hget.mine_of_waiting i _ _ hti)) hk
    -- A sleeping putter means that the policy blocks, so the free places count.
    have hneed : 0 < t.data.freePlaces := by
      rw [Queue.freePlaces, if_pos (Queue.blocking_of_asleep ht hasleep)]
      have := hrep.size
      have := hrep.capacity
      omega
    obtain ⟨j, kj, hj⟩ := Queue.putRule.signalled_of_asleep ht hneed hasleep
    obtain ⟨k', hk', rfl⟩ := (waiting_abstract hR).mp hj
    exact ⟨j, _, k', hk', fun hg => hput.mine_of_waiting j _ _ hj ((isGet_forget k').mpr hg)⟩

/-- Two getters sleep, and a put of the thread `none` wakes one of them. -/
def twoGettersRun : List (Monitor.Action (Option Bool) (List Nat) (Call Nat)) :=
  [.call (some false) .get, .run (some false) [] none, .call (some true) .get,
   .run (some true) [] none, .call none (.put (some ⟨10, 0⟩)), .run none [] (some (some false))]

theorem queue_no_lost_wakeup_twoGettersRun :
    ∃ s out, (monitor Nat .succeed).machine.exec (Monitor.initial (initialMem 1 .block))
        twoGettersRun = .ok (s, out) ∧ 0 < s.data.mq.size ∧ NoLostWakeup s :=
  ⟨_, _, rfl, by decide, queue_no_lost_wakeup 1 .block twoGettersRun _ _ rfl⟩

end MessageQueue

end OsWet
