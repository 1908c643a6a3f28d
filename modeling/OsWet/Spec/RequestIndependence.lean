import OsWet.Spec.RequestResponse

/-!
# What a response depends on

`requestHandle` reads arrays on its stack that `sscanf` and `Rio_readlineb` may not have
written: at the end of the stream `buf` keeps what it held, and a line without words leaves
`method` and `uri` alone. What they held then comes to the client on an error page.

## Main result

- `independent_iff`: the responses to a stream do not depend on the stack exactly when its
  first line names the method, and the URI of a `GET` request
-/

namespace OsWet

open Text

variable {fs : FileSystem} {fd : Int} {metaData : MetaData} {buffers buffers' : Buffers}
variable {stream : Text} {o o' : Response}

/-- The responses to a stream do not depend on what the arrays on the stack hold before the
    request: all runs that return give the same response, and the arrays of `requestHandle` do
    not decide whether there is a run that returns. -/
structure Independent (stream : Text) : Prop where
  same : ∀ fs fd metaData buffers buffers' o o', Observes fs fd metaData buffers stream o →
    Observes fs fd metaData buffers' stream o' → o = o'
  returns : ∀ fs fd metaData (buffers buffers' : Buffers) o,
    buffers.headerBuf = buffers'.headerBuf → Observes fs fd metaData buffers stream o →
      Observes fs fd metaData buffers' stream o

/-- The first line of the stream has a word, and a second one if the first is `GET`. Without the
    second one there is still no response if the headers never end. -/
def NamesRequest (stream : Text) : Prop :=
  ∃ line method args, (readLine MAXLINE stream).1 = some line ∧
    words (cString line) = method :: args ∧
      (sameUpToCase method (text "GET") →
        args ≠ [] ∨ (readLine MAXLINE stream).2 ≠ [] ∧ ¬ HeadersEnd (readLine MAXLINE stream).2)

/-! ## Streams that name their request -/

/-- The parts of a parsed URI that are looked at: `cgiargs` only if the request is dynamic. -/
structure ParsedURI.SameRequest (parsed parsed' : ParsedURI) : Prop where
  is_static : parsed.is_static = parsed'.is_static
  filename : parsed.filename = parsed'.filename
  cgiargs : parsed.is_static = false → parsed.cgiargs = parsed'.cgiargs

/-- For a URI, nothing else of what is parsed depends on the stack. -/
theorem requestParseURI_sameRequest {uri : Text} (h : uri ≠ []) (cgiargs cgiargs' : Text)
    (beforeUri beforeUri' : Char) : (requestParseURI uri cgiargs beforeUri).SameRequest
      (requestParseURI uri cgiargs' beforeUri') := by
  unfold requestParseURI
  split
  · exact ⟨rfl, rfl, fun h => by cases h⟩
  · split
    · rw [List.getLast?_eq_some_getLast h]
      exact ⟨rfl, rfl, fun h => by cases h⟩
    · exact ⟨rfl, rfl, fun _ => rfl⟩

/-- Serving depends on what is asked for only. -/
theorem requestServe_congr {parsed parsed' : ParsedURI} (h : parsed.SameRequest parsed')
    (sbuf : Stat) :
    requestServe fd metaData parsed sbuf = requestServe fd metaData parsed' sbuf := by
  unfold requestServe
  rw [← h.is_static, ← h.filename]
  by_cases hstatic : parsed.is_static = true
  · rw [if_pos hstatic, if_pos hstatic]
  · rw [h.cgiargs (Bool.not_eq_true _ ▸ hstatic)]

/-- The rest of the request depends on the method, and for GET on the URI. -/
theorem handleLine_congr (hheader : buffers.headerBuf = buffers'.headerBuf) {method uri uri' : Text}
    (h : sameUpToCase method (text "GET") → uri = uri' ∧ uri ≠ []) (rio : Rio) :
    handleLine fd metaData buffers method uri rio =
      handleLine fd metaData buffers' method uri' rio := by
  unfold handleLine
  rw [hheader]
  split
  · rename_i hget
    obtain ⟨rfl, huri⟩ := h hget
    have hsame := requestParseURI_sameRequest huri buffers.cgiargs buffers'.cgiargs
      buffers.beforeUri buffers'.beforeUri
    simp only [hsame.filename, requestServe_congr hsame]
  · rfl

/-- A run for one stack is a run for another one with the same `buf` of `requestReadhdrs`. -/
theorem NamesRequest.observes (h : NamesRequest stream)
    (hheader : buffers.headerBuf = buffers'.headerBuf)
    (ho : Observes fs fd metaData buffers stream o) :
    Observes fs fd metaData buffers' stream o := by
  obtain ⟨line, method, args, hline, hwords, hget⟩ := h
  have hmethod : ∀ b : Buffers, requestMethod b stream = method := by
    intro b
    rw [requestMethod, requestWords_of_line hline, hwords]
    rfl
  have huri : ∀ b : Buffers, requestURI b stream = args[0]?.getD b.uri := by
    intro b
    rw [requestURI, requestWords_of_line hline, hwords]
    rfl
  have hread := fun hget => (ho.eq_response.2 hget).1
  obtain ⟨w', hrun, hwritten⟩ := ho
  obtain ⟨buf, rio, w₁, hfirst, hrun⟩ := runsWith_requestHandle.mp hrun
  refine ⟨w', runsWith_requestHandle.mpr ⟨buf, rio, w₁,
    hfirst.of_line (by decide) hline buffers'.buf, ?_⟩, hwritten⟩
  rw [hmethod] at hrun hread ⊢
  have hcongr : handleLine fd metaData buffers method (requestURI buffers stream) rio =
      handleLine fd metaData buffers' method (requestURI buffers' stream) rio := by
    apply handleLine_congr hheader
    intro hmethod
    rcases hget hmethod with hargs | ⟨hne, hend⟩
    · obtain ⟨uri, rest, rfl⟩ := List.exists_cons_of_ne_nil hargs
      have hmem : uri ∈ words (cString line) := by simp [hwords]
      rw [huri, huri]
      exact ⟨rfl, (of_mem_wordsBy hmem).1⟩
    · -- The request is not answered at all.
      rcases hread hmethod with ⟨hnil, -⟩ | hend'
      · exact absurd hnil hne
      · exact absurd hend' hend
  rw [← hcongr]
  exact hrun

/-- All runs that return give the same response, whatever any array held. -/
theorem NamesRequest.eq_of_observes (h : NamesRequest stream)
    (ho : Observes fs fd metaData buffers stream o)
    (ho' : Observes fs fd metaData buffers' stream o') : o = o' := by
  -- The response does not look at the `buf` of `requestReadhdrs`.
  have hmixed :
      Observes fs fd metaData { buffers with headerBuf := buffers'.headerBuf } stream o' := by
    refine h.observes ?_ ho'
    rfl
  rw [ho.eq_response.1, hmixed.eq_response.1]
  rfl

/-! ## Streams that do not -/

/-- A file system without files. -/
def noFiles : FileSystem := ⟨fun _ => none, fun _ _ => none, fun _ _ => []⟩

/-- A stack that holds one character as method and as URI. -/
def stackOf (c : Char) : Buffers := ⟨[], [c], [c], [], [], '/', text "\r\n"⟩

/-- The metadata of the first request of a thread. -/
def firstMetaData : MetaData := ⟨⟨0, 0⟩, ⟨0, 0⟩, 0, 1, 0, 0⟩

/-- Two stacks for which the error pages differ. -/
theorem not_independent_of_cause {b b' : Buffers} {errnum shortmsg longmsg cause cause' : Text}
    (ho : Observes noFiles 5 firstMetaData b stream
      (errorPage cause errnum shortmsg longmsg, HW3_INVALID_VALUE, firstMetaData))
    (ho' : Observes noFiles 5 firstMetaData b' stream
      (errorPage cause' errnum shortmsg longmsg, HW3_INVALID_VALUE, firstMetaData))
    (hlength : cause.length = cause'.length) (hne : cause ≠ cause') : ¬ Independent stream := by
  intro h
  have hpages := congrArg Prod.fst (h.same _ _ _ _ _ _ _ ho ho')
  exact hne (errorPage_inj hlength hpages)

/-- Without a word the method is what the stack held. -/
theorem observes_stackOf_method {c : Char} (h : requestWords (stackOf c) stream = [])
    (hc : sameUpToCase [c] (text "GET") = false) :
    Observes noFiles fd metaData (stackOf c) stream
      (errorPage [c] (text "501") (text "Not Implemented")
        (text "OS-HW3 Server does not implement this method"), HW3_INVALID_VALUE, metaData) := by
  have hmethod : requestMethod (stackOf c) stream = [c] := by
    rw [requestMethod, h]
    rfl
  have ho : Observes noFiles fd metaData (stackOf c) stream
      (response noFiles metaData (stackOf c) stream) := by
    refine observes_response_of_noFiles (fun _ => rfl) fun hget => ?_
    rw [hmethod, hc] at hget
    cases hget
  rw [response, hmethod, hc, if_neg Bool.false_ne_true] at ho
  exact ho

/-- Without a second word the URI is what the stack held. -/
theorem observes_stackOf_uri {c : Char} {method : Text}
    (h : requestWords (stackOf c) stream = [method])
    (hget : sameUpToCase method (text "GET") = true) (hend : HeadersRead (stackOf c) stream) :
    Observes noFiles fd metaData (stackOf c) stream
      (errorPage (requestParseURI [c] [] '/').filename (text "404") (text "Not found")
        (text "OS-HW3 Server could not find this file"), HW3_INVALID_VALUE, metaData) := by
  have hmethod : requestMethod (stackOf c) stream = method := by
    rw [requestMethod, h]
    rfl
  have hparsed : parsedURI (stackOf c) stream = requestParseURI [c] [] '/' := by
    rw [parsedURI, requestURI, h]
    rfl
  have ho : Observes noFiles fd metaData (stackOf c) stream
      (response noFiles metaData (stackOf c) stream) :=
    observes_response_of_noFiles (fun _ => rfl) fun _ => hend
  rw [response, hmethod, hget, if_pos rfl, hparsed] at ho
  exact ho

/-- Without a word in the line the stack decides. -/
theorem not_independent_of_no_words (h : ∀ c, requestWords (stackOf c) stream = []) :
    ¬ Independent stream :=
  not_independent_of_cause (observes_stackOf_method (h 'A') rfl)
    (observes_stackOf_method (h 'B') rfl) rfl (by decide)

/-- Without a URI the stack decides, if the headers end. -/
theorem not_independent_of_no_uri {method : Text}
    (h : ∀ c, requestWords (stackOf c) stream = [method])
    (hget : sameUpToCase method (text "GET") = true) (hend : ∀ c, HeadersRead (stackOf c) stream) :
    ¬ Independent stream :=
  not_independent_of_cause (observes_stackOf_uri (h 'A') hget (hend 'A'))
    (observes_stackOf_uri (h 'B') hget (hend 'B')) rfl (by decide)

/-- An independent request says what it asks for. -/
theorem Independent.namesRequest (h : Independent stream) : NamesRequest stream := by
  cases hline : (readLine MAXLINE stream).1 with
  | none =>
    refine absurd h (not_independent_of_no_words fun c => ?_)
    rw [requestWords, hline]
    rfl
  | some line =>
    cases hwords : words (cString line) with
    | nil =>
      refine absurd h (not_independent_of_no_words fun c => ?_)
      rw [requestWords_of_line hline, hwords]
    | cons method args =>
      refine ⟨line, method, args, hline, hwords, fun hget => ?_⟩
      by_contra hleak
      simp only [not_or, not_and, not_not] at hleak
      obtain ⟨rfl, hend⟩ := hleak
      refine absurd h (not_independent_of_no_uri (fun c => ?_) hget fun c => ?_)
      · rw [requestWords_of_line hline, hwords]
      · -- The stack holds an empty line where the headers are read.
        by_cases hrest : (readLine MAXLINE stream).2 = []
        · exact .inl ⟨hrest, rfl⟩
        · exact .inr (hend hrest)

end OsWet
