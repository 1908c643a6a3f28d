import OsWet.Spec.RequestInput

/-!
# The response to a request

What `requestHandle` writes to the client, returns, and leaves in the metadata, as a function
`response` of the stream, the files, the metadata and the arrays on the stack.

## Main results

- `observes_iff`: a run that returns gives this response, and there is one if the headers of a
  `GET` request end and its file can be mapped
-/

namespace OsWet

open Text

variable {fs : FileSystem} {w w' : RequestWorld} {fd : Int} {metaData : MetaData}

/-! ## Error pages -/

/-- The page of `requestError`. -/
def errorPage (cause errnum shortmsg longmsg : Text) : Text :=
  text "HTTP/1.0 " ++ errnum ++ text " " ++ shortmsg ++ text "\r\n" ++
  text "Content-Type: text/html\r\n" ++
  (text "Content-Length: " ++ toText (errorBody cause errnum shortmsg longmsg).length ++
    text "\r\n\r\n") ++
  errorBody cause errnum shortmsg longmsg

/-- An error page that is sent is the whole page. -/
theorem runs_requestError {cause errnum shortmsg longmsg : Text}
    (h : RunsWith fs (requestError fd cause errnum shortmsg longmsg) w () w') :
    w' = w.sent (errorPage cause errnum shortmsg longmsg) := by
  obtain ⟨⟨⟩, w₁, hstatus, h⟩ := (Process.runsIn_bind (exitsAt_Rio_writen fd _).causal).mp h
  obtain ⟨⟨⟩, w₂, htype, h⟩ := (Process.runsIn_bind (exitsAt_Rio_writen fd _).causal).mp h
  obtain ⟨⟨⟩, w₃, hlength, hbody⟩ := (Process.runsIn_bind (exitsAt_Rio_writen fd _).causal).mp h
  rw [runs_Rio_writen hbody, runs_Rio_writen hlength, runs_Rio_writen htype,
    runs_Rio_writen hstatus]
  simp only [RequestWorld.sent_sent, errorPage]

/-- An error page can always be sent. -/
theorem exists_requestError (fs : FileSystem) (w : RequestWorld) (fd : Int)
    (cause errnum shortmsg longmsg : Text) :
    RunsWith fs (requestError fd cause errnum shortmsg longmsg) w ()
      (w.sent (errorPage cause errnum shortmsg longmsg)) := by
  refine (exists_Rio_writen fs w fd _).bind (exitsAt_Rio_writen fd _).causal ?_
  refine (exists_Rio_writen fs _ fd _).bind (exitsAt_Rio_writen fd _).causal ?_
  refine (exists_Rio_writen fs _ fd _).bind (exitsAt_Rio_writen fd _).causal ?_
  convert exists_Rio_writen fs _ fd _ using 1
  simp only [RequestWorld.sent_sent, errorPage]

/-- Pages for causes of the same length show which cause it is. -/
theorem errorPage_inj {cause cause' errnum shortmsg longmsg : Text}
    (hlength : cause.length = cause'.length)
    (h : errorPage cause errnum shortmsg longmsg = errorPage cause' errnum shortmsg longmsg) :
    cause = cause' := by
  have hbody : (errorBody cause errnum shortmsg longmsg).length =
      (errorBody cause' errnum shortmsg longmsg).length := by
    simp only [errorBody, List.length_append, hlength]
  rw [errorPage, errorPage, hbody] at h
  simpa [errorBody] using h

/-! ## Served files -/

/-- A dynamic page is its header and what the program prints. -/
theorem runs_requestServeDynamic {filename cgiargs : Text}
    (h : RunsWith fs (requestServeDynamic fd filename cgiargs metaData) w () w') :
    w' = w.sent (dynamicHeader metaData ++ fs.cgi filename cgiargs) := by
  obtain ⟨⟨⟩, w₁, hheader, h⟩ := (Process.runsIn_bind (exitsAt_Rio_writen fd _).causal).mp h
  obtain ⟨pid, w₂, hfork, hwait⟩ := (Process.runsIn_bind (exitsAt_Fork _ _).causal).mp h
  rw [runs_WaitPid hwait, runs_Fork hfork, runs_Rio_writen hheader, RequestWorld.sent_sent]

/-- A dynamic page can always be sent. -/
theorem exists_requestServeDynamic (fs : FileSystem) (w : RequestWorld) (fd : Int)
    (filename cgiargs : Text) (metaData : MetaData) :
    RunsWith fs (requestServeDynamic fd filename cgiargs metaData) w ()
      (w.sent (dynamicHeader metaData ++ fs.cgi filename cgiargs)) := by
  refine (exists_Rio_writen fs w fd _).bind (exitsAt_Rio_writen fd _).causal ?_
  refine (exists_Fork fs _ filename cgiargs).bind (exitsAt_Fork _ _).causal ?_
  rw [RequestWorld.sent_sent]
  exact exists_WaitPid fs _ 1

/-- A static page is its header and what `mmap` shows of the file. -/
theorem runs_requestServeStatic {filename : Text} {filesize : Int}
    (h : RunsWith fs (requestServeStatic fd filename filesize metaData) w () w') :
    ∃ srcp, fs.mmap filename (toSize filesize) = some srcp ∧
      (0 < toSize filesize ∧ srcp.length = toSize filesize) ∧
      w'.written = w.written ++ (staticHeader filename filesize metaData ++ srcp) := by
  obtain ⟨srcfd, w₁, hopen, h⟩ := (Process.runsIn_bind (exitsAt_Open filename).causal).mp h
  obtain ⟨srcp, w₂, hmmap, h⟩ := (Process.runsIn_bind (exitsAt_Mmap _ srcfd).causal).mp h
  obtain ⟨⟨⟩, w₃, hclose, h⟩ := (Process.runsIn_bind (exitsAt_Close srcfd).causal).mp h
  obtain ⟨⟨⟩, w₄, hheader, h⟩ := (Process.runsIn_bind (exitsAt_Rio_writen fd _).causal).mp h
  obtain ⟨⟨⟩, w₅, hfile, hmunmap⟩ := (Process.runsIn_bind (exitsAt_Rio_writen fd _).causal).mp h
  obtain ⟨hbytes, hlength, hsame⟩ := runs_Mmap hmmap
  rw [runs_Open hopen] at hbytes hsame
  refine ⟨srcp, hbytes, hlength, ?_⟩
  rw [runs_Munmap hmunmap, runs_Rio_writen hfile, runs_Rio_writen hheader, runs_Close hclose,
    hsame, RequestWorld.sent_sent, RequestWorld.sent_written]

/-- A static page can be sent when `mmap` shows the file. -/
theorem exists_requestServeStatic {filename srcp : Text} {filesize : Int}
    (hmmap : fs.mmap filename (toSize filesize) = some srcp) (hsize : 0 < toSize filesize)
    (hsrcp : srcp.length = toSize filesize) :
    ∃ w', RunsWith fs (requestServeStatic fd filename filesize metaData) w () w' ∧
      w'.written = w.written ++ (staticHeader filename filesize metaData ++ srcp) := by
  refine ⟨{ w with opened := filename }.sent (staticHeader filename filesize metaData ++ srcp),
    ?_, rfl⟩
  refine (exists_Open fs w filename).bind (exitsAt_Open filename).causal ?_
  refine (exists_Mmap hmmap hsize hsrcp).bind (exitsAt_Mmap _ 0).causal ?_
  refine (exists_Close fs _ 0).bind (exitsAt_Close 0).causal ?_
  refine (exists_Rio_writen fs _ fd _).bind (exitsAt_Rio_writen fd _).causal ?_
  refine (exists_Rio_writen fs _ fd _).bind (exitsAt_Rio_writen fd _).causal ?_
  rw [RequestWorld.sent_sent]
  exact exists_Munmap fs _ _

/-- A part that sends something, and then returns a value. -/
theorem runsWith_thenReturn {β : Type} {p : ServerProcess Unit} (hp : ExitsAt p) {b r : β} :
    RunsWith fs (p >>= fun _ => pure b) w r w' ↔ RunsWith fs p w () w' ∧ r = b := by
  constructor
  · intro h
    obtain ⟨⟨⟩, w₁, hrun, hrest⟩ := (Process.runsIn_bind hp.causal).mp h
    obtain ⟨rfl, rfl⟩ := Process.runsIn_pure.mp hrest
    exact ⟨hrun, rfl⟩
  · intro h
    obtain ⟨hrun, rfl⟩ := h
    exact hrun.thenReturn hp.causal rfl

/-- An error page is all that a request that is not served writes. -/
theorem runsWith_requestError {β : Type} {b r : β} {cause errnum shortmsg longmsg : Text} :
    RunsWith fs (requestError fd cause errnum shortmsg longmsg >>= fun _ => pure b) w r w' ↔
      w' = w.sent (errorPage cause errnum shortmsg longmsg) ∧ r = b := by
  rw [runsWith_thenReturn (exitsAt_requestError fd cause errnum shortmsg longmsg)]
  constructor
  · intro h
    exact ⟨runs_requestError h.1, h.2⟩
  · intro h
    obtain ⟨rfl, hr⟩ := h
    exact ⟨exists_requestError fs w fd cause errnum shortmsg longmsg, hr⟩

/-- What the client is sent, what `requestHandle` returns, and the new metadata. -/
abbrev Response : Type := Text × Int × MetaData

/-- The response of `requestServe`. A file that cannot be mapped has none. -/
def serveResponse (fs : FileSystem) (metaData : MetaData) (parsed : ParsedURI) (sbuf : Stat) :
    Response :=
  if parsed.is_static then
    if !S_ISREG sbuf.st_mode || S_IRUSR &&& sbuf.st_mode = 0 then
      (errorPage parsed.filename (text "403") (text "Forbidden")
        (text "OS-HW3 Server could not read this file"), HW3_INVALID_VALUE, metaData)
    else
      let metaData := { metaData with numStaticRequests := metaData.numStaticRequests + 1 }
      let filesize := toInt sbuf.st_size
      (staticHeader parsed.filename filesize metaData ++
        (fs.mmap parsed.filename (toSize filesize)).getD [], 1, metaData)
  else
    if !S_ISREG sbuf.st_mode || S_IXUSR &&& sbuf.st_mode = 0 then
      (errorPage parsed.filename (text "403") (text "Forbidden")
        (text "OS-HW3 Server could not run this CGI program"), HW3_INVALID_VALUE, metaData)
    else
      let metaData := { metaData with numDynamicRequests := metaData.numDynamicRequests + 1 }
      (dynamicHeader metaData ++ fs.cgi parsed.filename parsed.cgiargs, 0, metaData)

/-- There is a size to report of the file, and it can be mapped with this size if it is served
    as it is. -/
structure CanServe (fs : FileSystem) (parsed : ParsedURI) (sbuf : Stat) : Prop where
  size : 0 ≤ sbuf.st_size
  mmap : parsed.is_static → S_ISREG sbuf.st_mode → S_IRUSR &&& sbuf.st_mode ≠ 0 → ∃ srcp,
    fs.mmap parsed.filename (toSize (toInt sbuf.st_size)) = some srcp ∧
      0 < toSize (toInt sbuf.st_size) ∧ srcp.length = toSize (toInt sbuf.st_size)

/-- What is served is the response, and the result is that of the response. -/
theorem runs_requestServe {parsed : ParsedURI} {sbuf : Stat} {r : Int × MetaData}
    (h : RunsWith fs (requestServe fd metaData parsed sbuf) w r w') (hsize : 0 ≤ sbuf.st_size) :
    w'.written = w.written ++ (serveResponse fs metaData parsed sbuf).1 ∧
      r = (serveResponse fs metaData parsed sbuf).2 ∧ CanServe fs parsed sbuf := by
  unfold requestServe at h
  unfold serveResponse
  -- Static or dynamic, and in each case a file that may be read or run, or the page that says no.
  split at h
  case isTrue hstatic =>
    rw [if_pos hstatic]
    split at h
    case isTrue hmode =>
      obtain ⟨rfl, rfl⟩ := runsWith_requestError.mp h
      rw [if_pos hmode]
      refine ⟨rfl, rfl, hsize, ?_⟩
      intro _ hregular hreadable
      simp [hregular, hreadable] at hmode
    case isFalse hmode =>
      -- The bytes that are written are those that `mmap` gave.
      obtain ⟨hserve, rfl⟩ := (runsWith_thenReturn (exitsAt_requestServeStatic fd _ _ _)).mp h
      obtain ⟨srcp, hbytes, hlength, hwritten⟩ := runs_requestServeStatic hserve
      rw [if_neg hmode, hwritten]
      dsimp only
      rw [hbytes]
      exact ⟨rfl, rfl, hsize, fun _ _ _ => ⟨srcp, hbytes, hlength⟩⟩
  case isFalse hstatic =>
    rw [if_neg hstatic]
    split at h
    case isTrue hmode =>
      obtain ⟨rfl, rfl⟩ := runsWith_requestError.mp h
      rw [if_pos hmode]
      exact ⟨rfl, rfl, hsize, fun h => absurd h hstatic⟩
    case isFalse hmode =>
      -- What the program writes is not among the answers of the server.
      obtain ⟨hserve, rfl⟩ := (runsWith_thenReturn (exitsAt_requestServeDynamic fd _ _ _)).mp h
      rw [if_neg hmode, runs_requestServeDynamic hserve]
      exact ⟨rfl, rfl, hsize, fun h => absurd h hstatic⟩

/-- What can be served can be sent. -/
theorem exists_requestServe {parsed : ParsedURI} {sbuf : Stat} (h : CanServe fs parsed sbuf)
    (w : RequestWorld) (fd : Int) (metaData : MetaData) :
    ∃ w', RunsWith fs (requestServe fd metaData parsed sbuf) w
        (serveResponse fs metaData parsed sbuf).2 w' ∧
      w'.written = w.written ++ (serveResponse fs metaData parsed sbuf).1 := by
  unfold requestServe serveResponse
  -- The same four cases, where only the file that is sent needs a call that succeeds.
  split
  case isTrue hstatic =>
    split
    case isTrue hmode =>
      exact ⟨_, runsWith_requestError.mpr ⟨rfl, rfl⟩, rfl⟩
    case isFalse hmode =>
      obtain ⟨hregular, hreadable⟩ := by simpa using hmode
      obtain ⟨srcp, hmmap, hsize, hsrcp⟩ := h.mmap hstatic hregular hreadable
      obtain ⟨w', hserve, hwritten⟩ := exists_requestServeStatic hmmap hsize hsrcp
      refine ⟨w', (runsWith_thenReturn (exitsAt_requestServeStatic fd _ _ _)).mpr
        ⟨hserve, rfl⟩, ?_⟩
      rw [hwritten]
      dsimp only
      rw [hmmap]
      rfl
  case isFalse hstatic =>
    split
    case isTrue hmode =>
      exact ⟨_, runsWith_requestError.mpr ⟨rfl, rfl⟩, rfl⟩
    case isFalse hmode =>
      exact ⟨_, (runsWith_thenReturn (exitsAt_requestServeDynamic fd _ _ _)).mpr
        ⟨exists_requestServeDynamic fs w fd _ _ _, rfl⟩, rfl⟩

/-! ## The request -/

/-- The words of the request line: those of the first line, or of what `buf` held before when
    there is no line. -/
def requestWords (buffers : Buffers) (stream : Text) : List Text :=
  words (cString ((readLine MAXLINE stream).1.getD buffers.buf))

/-- The words of the request are those of its first line. -/
theorem requestWords_of_line {stream line : Text} (h : (readLine MAXLINE stream).1 = some line)
    (buffers : Buffers) : requestWords buffers stream = words (cString line) := by
  rw [requestWords, h, Option.getD_some]

/-- The method that `requestHandle` compares with `GET`. -/
def requestMethod (buffers : Buffers) (stream : Text) : Text :=
  (requestWords buffers stream)[0]?.getD buffers.method

/-- The URI that `requestHandle` parses. -/
def requestURI (buffers : Buffers) (stream : Text) : Text :=
  (requestWords buffers stream)[1]?.getD buffers.uri

/-- What `requestParseURI` makes of it. -/
def parsedURI (buffers : Buffers) (stream : Text) : ParsedURI :=
  requestParseURI (requestURI buffers stream) buffers.cgiargs buffers.beforeUri

/-- The response of `requestHandle`. -/
def response (fs : FileSystem) (metaData : MetaData) (buffers : Buffers) (stream : Text) :
    Response :=
  if sameUpToCase (requestMethod buffers stream) (text "GET") then
    let parsed := parsedURI buffers stream
    match fs.stat parsed.filename with
    | none =>
      (errorPage parsed.filename (text "404") (text "Not found")
        (text "OS-HW3 Server could not find this file"), HW3_INVALID_VALUE, metaData)
    | some sbuf => serveResponse fs metaData parsed sbuf
  else
    (errorPage (requestMethod buffers stream) (text "501") (text "Not Implemented")
      (text "OS-HW3 Server does not implement this method"), HW3_INVALID_VALUE, metaData)

/-- `requestReadhdrs` can come to an end after the first line. -/
def HeadersRead (buffers : Buffers) (stream : Text) : Prop :=
  (readLine MAXLINE stream).2 = [] ∧ cString buffers.headerBuf = text "\r\n" ∨
    HeadersEnd (readLine MAXLINE stream).2

/-- Nothing is read at the start. -/
theorem start_input (fd : Int) (stream : Text) :
    (Rio_readinitb fd).input (.start stream) = stream := rfl

/-- A run of `requestHandle` on this stream returns with this response. -/
def Observes (fs : FileSystem) (fd : Int) (metaData : MetaData) (buffers : Buffers)
    (stream : Text) (o : Response) : Prop :=
  ∃ w', RunsWith fs (requestHandle fd metaData buffers) (.start stream) o.2 w' ∧ w'.written = o.1

variable {buffers : Buffers} {stream : Text} {o : Response}

/-- The part of `requestHandle` after the request line has been read. -/
def handleLine (fd : Int) (metaData : MetaData) (buffers : Buffers) (method uri : Text)
    (rio : Rio) : ServerProcess (Int × MetaData) := do
  if sameUpToCase method (text "GET") then
    let _ ← requestReadhdrs rio buffers.headerBuf
    let parsed := requestParseURI uri buffers.cgiargs buffers.beforeUri
    match ← stat parsed.filename with
    | none =>
      requestError fd parsed.filename (text "404") (text "Not found")
        (text "OS-HW3 Server could not find this file")
      return (HW3_INVALID_VALUE, metaData)
    | some sbuf => requestServe fd metaData parsed sbuf
  else
    requestError fd method (text "501") (text "Not Implemented")
      (text "OS-HW3 Server does not implement this method")
    return (HW3_INVALID_VALUE, metaData)

/-- A run of `requestHandle` reads the first line and handles it. -/
theorem runsWith_requestHandle {r : Int × MetaData} :
    RunsWith fs (requestHandle fd metaData buffers) (.start stream) r w' ↔ ∃ buf rio w₁,
      RunsWith fs (Rio_readlineb (Rio_readinitb fd) buffers.buf MAXLINE) (.start stream)
          (buf, rio) w₁ ∧
        RunsWith fs (handleLine fd metaData buffers (requestMethod buffers stream)
          (requestURI buffers stream) rio) w₁ r w' := by
  -- The words that are scanned depend on the stream only, not on the pieces it came in.
  have hhandle : ∀ {buf rio w₁}, RunsWith fs
      (Rio_readlineb (Rio_readinitb fd) buffers.buf MAXLINE) (.start stream) (buf, rio) w₁ →
        words (cString buf) = requestWords buffers stream := by
    intro buf rio w₁ hline
    rw [(runs_Rio_readlineb (by decide) hline).2.1]
    rfl
  have hcausal := (exitsAt_Rio_readlineb (Rio_readinitb fd) buffers.buf MAXLINE).causal
  constructor
  · intro h
    obtain ⟨⟨buf, rio⟩, w₁, hline, hrun⟩ := (Process.runsIn_bind hcausal).mp h
    dsimp only at hrun
    rw [hhandle hline] at hrun
    exact ⟨buf, rio, w₁, hline, hrun⟩
  · intro h
    obtain ⟨buf, rio, w₁, hline, hrun⟩ := h
    refine hline.bind hcausal ?_
    dsimp only
    rw [hhandle hline]
    exact hrun

/-- Whether there is a response depends on the headers and the file of a `GET` request: the headers
    must end, and the file must be there for the server as `stat` says. -/
def CanRespond (fs : FileSystem) (buffers : Buffers) (stream : Text) : Prop :=
  sameUpToCase (requestMethod buffers stream) (text "GET") → HeadersRead buffers stream ∧
    ∀ sbuf ∈ fs.stat (parsedURI buffers stream).filename,
      CanServe fs (parsedURI buffers stream) sbuf

/-- A run that returns gives the response. -/
theorem Observes.eq_response (h : Observes fs fd metaData buffers stream o) :
    o = response fs metaData buffers stream ∧ CanRespond fs buffers stream := by
  obtain ⟨w', hrun, hwritten⟩ := h
  obtain ⟨buf, rio, w₁, hline, hrun⟩ := runsWith_requestHandle.mp hrun
  obtain ⟨honly, -, hinput⟩ := runs_Rio_readlineb (by decide) hline
  unfold handleLine at hrun
  rw [← parsedURI] at hrun
  -- A GET request reads the headers, looks for the file and answers.
  split at hrun
  case isTrue hget =>
    obtain ⟨rio', w₂, hheaders, hrun⟩ :=
      (Process.runsIn_bind (exitsAt_requestReadhdrs rio buffers.headerBuf).causal).mp hrun
    obtain ⟨honly', hread⟩ := runs_requestReadhdrs hheaders
    rw [hinput] at hread
    -- Nothing has been written before the answer.
    have hsilent : w₂.written = [] := honly'.written.trans honly.written
    obtain ⟨result, w₃, hstat, hrun⟩ := (Process.runsIn_bind (exitsAt_stat _).causal).mp hrun
    obtain ⟨hresult, hsize, rfl⟩ := runs_stat hstat
    rw [response, if_pos hget, CanRespond]
    dsimp only
    rw [← hresult]
    cases result with
    -- The file was not found.
    | none =>
      obtain ⟨rfl, ho⟩ := runsWith_requestError.mp hrun
      rw [RequestWorld.sent_written, hsilent] at hwritten
      exact ⟨Prod.ext hwritten.symm ho, fun _ => ⟨hread, fun _ hsbuf => by cases hsbuf⟩⟩
    | some sbuf =>
      obtain ⟨hserve, ho, hcan⟩ := runs_requestServe hrun (hsize sbuf rfl)
      rw [hserve, hsilent] at hwritten
      refine ⟨Prod.ext hwritten.symm ho, fun _ => ⟨hread, ?_⟩⟩
      intro sbuf' hsbuf'
      cases hsbuf'
      exact hcan
  -- Any other method is answered at once.
  case isFalse hget =>
    obtain ⟨rfl, ho⟩ := runsWith_requestError.mp hrun
    rw [RequestWorld.sent_written, honly.written] at hwritten
    rw [response, if_neg hget]
    exact ⟨Prod.ext hwritten.symm ho, fun h => absurd h hget⟩

/-- If there can be a response, some run gives it. -/
theorem observes_response (h : CanRespond fs buffers stream) :
    Observes fs fd metaData buffers stream (response fs metaData buffers stream) := by
  obtain ⟨buf, rio, w₁, hline⟩ :=
    exists_Rio_readlineb fs (.start stream) (Rio_readinitb fd) buffers.buf MAXLINE
  obtain ⟨honly, -, hinput⟩ := runs_Rio_readlineb (by decide) hline
  -- The request line can be read; what is left is the run from there.
  suffices hrest : ∃ w', RunsWith fs (handleLine fd metaData buffers
      (requestMethod buffers stream) (requestURI buffers stream) rio) w₁
        (response fs metaData buffers stream).2 w' ∧
          w'.written = (response fs metaData buffers stream).1 by
    obtain ⟨w', hrun, hwritten⟩ := hrest
    exact ⟨w', runsWith_requestHandle.mpr ⟨buf, rio, w₁, hline, hrun⟩, hwritten⟩
  unfold handleLine response
  split
  case isTrue hget =>
    -- The headers end in the input, so reading them ends.
    obtain ⟨hread, hfile⟩ := h hget
    rw [HeadersRead, ← start_input fd stream, ← hinput] at hread
    obtain ⟨rio', w₂, hheaders⟩ := exists_requestReadhdrs fs w₁ hread
    obtain ⟨honly', -⟩ := runs_requestReadhdrs hheaders
    have hsilent : w₂.written = [] := honly'.written.trans honly.written
    rw [← parsedURI]
    dsimp only
    -- The answer of `stat` decides about the rest.
    suffices hrest : ∃ w', RunsWith fs (stat (parsedURI buffers stream).filename >>= _) w₂ _ w' ∧
        w'.written = _ by
      obtain ⟨w', hrun, hwritten⟩ := hrest
      exact ⟨w', hheaders.bind (exitsAt_requestReadhdrs rio _).causal hrun, hwritten⟩
    have hstat := @exists_stat fs w₂ _ _ rfl fun sbuf hsbuf => (hfile sbuf hsbuf).size
    cases hresult : fs.stat (parsedURI buffers stream).filename with
    | none =>
      rw [hresult] at hstat
      refine ⟨_, hstat.bind (exitsAt_stat _).causal (runsWith_requestError.mpr ⟨rfl, rfl⟩), ?_⟩
      rw [RequestWorld.sent_written, hsilent]
      rfl
    | some sbuf =>
      rw [hresult] at hstat
      obtain ⟨w', hserve, hwritten⟩ := exists_requestServe (hfile sbuf hresult) w₂ fd metaData
      refine ⟨w', hstat.bind (exitsAt_stat _).causal hserve, ?_⟩
      rw [hwritten, hsilent]
      rfl
  case isFalse hget =>
    refine ⟨_, runsWith_requestError.mpr ⟨rfl, rfl⟩, ?_⟩
    rw [RequestWorld.sent_written, honly.written]
    rfl

/-- What is observed is the response, and it is observed if there can be one. -/
theorem observes_iff : Observes fs fd metaData buffers stream o ↔
    o = response fs metaData buffers stream ∧ CanRespond fs buffers stream := by
  constructor
  · exact Observes.eq_response
  · intro h
    obtain ⟨rfl, hcan⟩ := h
    exact observes_response hcan

/-- Without files there is a response, unless the headers of a `GET` request do not end. -/
theorem observes_response_of_noFiles (hfs : ∀ filename, fs.stat filename = none)
    (h : sameUpToCase (requestMethod buffers stream) (text "GET") → HeadersRead buffers stream) :
    Observes fs fd metaData buffers stream (response fs metaData buffers stream) := by
  apply observes_response
  intro hget
  refine ⟨h hget, ?_⟩
  rw [hfs]
  intro sbuf hsbuf
  cases hsbuf

end OsWet
