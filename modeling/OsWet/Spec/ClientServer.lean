import OsWet.Spec.ClientRuns
import OsWet.Spec.RequestIndependence
import OsWet.Spec.StringsFit

/-!
# The client and the server

`client.c` asks, `requestHandle` answers, and `client.c` prints: what the client shows of a file
that it asks for, whatever is on the stacks of the two and however their data is split up on
the way.

## Main results

- `client_shows_file`: what the client prints of a file that the server has
- `client_shows_not_found`: and of one that it does not have
-/

namespace OsWet

open Text

/-! ## The request -/

/-- What can stand in a request line as a file name, and fits the buffer of `clientSend` with the
    rest of the request. -/
structure Askable (hostname filename : Text) : Prop where
  ne_nil : filename ≠ []
  word : ∀ c ∈ filename, isSpace c = false ∧ c ≠ '\x00'
  host : '\n' ∉ hostname
  length : (clientRequest hostname filename).length < MAXLINE

section

variable {hostname filename : Text}

/-- The request line without its line feed. -/
def requestLine (filename : Text) : Text := text "GET " ++ filename ++ text " HTTP/1.1"

/-- A file name has no white space and no NUL in it. -/
theorem Askable.not_mem (h : Askable hostname filename) {c : Char}
    (hc : isSpace c = true ∨ c = '\x00') : c ∉ filename := by
  intro hmem
  obtain ⟨hspace, hnul⟩ := h.word c hmem
  obtain hc | hc := hc
  · rw [hc] at hspace
    cases hspace
  · exact hnul hc

/-- The server reads the request line first, and the rest is left. -/
theorem Askable.readLine_request (h : Askable hostname filename) :
    readLine MAXLINE (clientRequest hostname filename) =
      (some (requestLine filename ++ ['\n']), text "host: " ++ hostname ++ text "\n\r\n") := by
  have hlf : '\n' ∉ requestLine filename := by
    simp [requestLine, text, h.not_mem (.inl rfl : isSpace '\n' = true ∨ _)]
  have hlength : (requestLine filename).length < pieceLength := by
    have hfits := h.length
    simp only [clientRequest, requestLine, List.length_append, text, MAXLINE, pieceLength] at *
    simp at *
    omega
  have hsplit : clientRequest hostname filename =
      requestLine filename ++ '\n' :: (text "host: " ++ hostname ++ text "\n\r\n") := by
    simp [clientRequest, requestLine, text]
  rw [hsplit]
  exact readLine_of_lt hlf hlength _

/-- The host line and the empty line end the headers. -/
theorem Askable.headersRead (h : Askable hostname filename) (buffers : Buffers) :
    HeadersRead buffers (clientRequest hostname filename) := by
  right
  rw [h.readLine_request]
  -- The second line of the request is the host, which has no line end of its own.
  have hlf : '\n' ∉ text "host: " ++ hostname := by
    simp [text, h.host]
  -- It fits one piece, because the whole request fits the client's buffer.
  have hlength : (text "host: " ++ hostname).length < pieceLength := by
    have hfits := h.length
    simp only [clientRequest, List.length_append, text, MAXLINE, pieceLength] at *
    simp at *
    omega
  -- The third line is the empty one, where the server stops.
  have hempty : readLine MAXLINE (text "\r\n") = (some (text "\r\n"), []) := by decide
  have hhost : readLine MAXLINE (text "host: " ++ hostname ++ text "\n\r\n") =
      (some (text "host: " ++ hostname ++ ['\n']), text "\r\n") := by
    have hsplit : text "host: " ++ hostname ++ text "\n\r\n" =
        (text "host: " ++ hostname) ++ '\n' :: text "\r\n" := by
      simp [text]
    rw [hsplit]
    exact readLine_of_lt hlf hlength _
  exact .later hhost (.here hempty rfl)

/-- The words of the request line, as `sscanf` finds them. -/
theorem Askable.words_requestLine (h : Askable hostname filename) :
    words (cString (requestLine filename ++ ['\n'])) = [text "GET", filename, text "HTTP/1.1"] := by
  have hnul : '\x00' ∉ requestLine filename ++ ['\n'] := by
    simp [requestLine, text, h.not_mem (.inr rfl : isSpace '\x00' = true ∨ '\x00' = '\x00')]
  have hsplit : requestLine filename ++ ['\n'] =
      text "GET" ++ ' ' :: (filename ++ ' ' :: (text "HTTP/1.1" ++ '\n' :: [])) := by
    simp [requestLine, text]
  have hword := wordsBy_eq_singleton h.ne_nil fun c hc => (h.word c hc).1
  rw [cString_eq_self hnul, hsplit, words, wordsBy_append_cons rfl, wordsBy_append_cons rfl,
    wordsBy_append_cons rfl, hword]
  rfl

/-- The server finds the three words of the request line. -/
theorem Askable.requestWords_eq (h : Askable hostname filename) (buffers : Buffers) :
    requestWords buffers (clientRequest hostname filename) =
      [text "GET", filename, text "HTTP/1.1"] := by
  have hline : (readLine MAXLINE (clientRequest hostname filename)).1 =
      some (requestLine filename ++ ['\n']) := by rw [h.readLine_request]
  rw [requestWords_of_line hline, h.words_requestLine]

/-- The strings of the request fit the arrays of the server when the file name leaves room for
    the page that the server may make about it. -/
theorem Askable.fits (h : Askable hostname filename) {beforeUri : Char} {found : Option Stat}
    (hroom : LeavesRoom (text "GET") filename beforeUri found) (strings : Strings) :
    Fits (requestHandleStrings (requestLine filename ++ ['\n']) beforeUri found)
      (fun _ _ => True) strings := by
  have hlength : filename.length < MAXLINE := by
    have hfits := h.length
    simp only [clientRequest, List.length_append] at hfits
    omega
  rw [fits_requestHandleStrings, h.words_requestLine]
  refine ⟨List.forall_mem_cons.mpr ⟨by decide, List.forall_mem_cons.mpr ⟨hlength,
    List.forall_mem_cons.mpr ⟨by decide, fun _ h => by cases h⟩⟩⟩, hroom⟩

/-- The method of the request is GET. -/
theorem Askable.requestMethod_eq (h : Askable hostname filename) (buffers : Buffers) :
    requestMethod buffers (clientRequest hostname filename) = text "GET" := by
  rw [requestMethod, h.requestWords_eq]
  rfl

/-- The URI of the request is the file name. -/
theorem Askable.requestURI_eq (h : Askable hostname filename) (buffers : Buffers) :
    requestURI buffers (clientRequest hostname filename) = filename := by
  rw [requestURI, h.requestWords_eq]
  rfl

end

/-! ## Numbers in a header -/

/-- `%d` finds the number behind the blank, and leaves the line break. -/
theorem strtol_number {n : Nat} (hn : (n : Int) ≤ LONG_MAX) :
    strtol (text " " ++ toText n ++ text "\r\n") = ((n : Int), text "\r\n") := by
  -- The digits are followed by the end of the line, which is no digit.
  have hdigits : ∀ c ∈ Nat.toDigits 10 n, isDigit c = true := fun _ => isDigit_of_mem
  have htake : (Nat.toDigits 10 n ++ text "\r\n").takeWhile isDigit = Nat.toDigits 10 n := by
    rw [List.takeWhile_append_of_pos hdigits]
    simp [text, isDigit]
  have hrest : (Nat.toDigits 10 n ++ text "\r\n").dropWhile isDigit = text "\r\n" := by
    rw [List.dropWhile_append_of_pos hdigits]
    rfl
  -- the first digit is neither white space nor a sign
  have hfirst : (text " " ++ Nat.toDigits 10 n ++ text "\r\n").dropWhile isSpace =
        Nat.toDigits 10 n ++ text "\r\n" ∧
      sign (Nat.toDigits 10 n ++ text "\r\n") = (false, Nat.toDigits 10 n ++ text "\r\n") := by
    obtain ⟨c, ds, heq⟩ := List.exists_cons_of_ne_nil (Nat.toDigits_ne_nil (n := n) (b := 10))
    -- Some digit is there.
    rw [heq] at hdigits ⊢
    obtain ⟨hspace, hminus, hplus⟩ := digit_first (hdigits c List.mem_cons_self)
    refine ⟨?_, ?_⟩
    · show List.dropWhile isSpace (c :: (ds ++ text "\r\n")) = _
      exact List.dropWhile_cons_of_neg (by simp [hspace])
    · show sign (c :: (ds ++ text "\r\n")) = _
      unfold sign
      split
      · rename_i hsplit
        exact absurd (List.cons.inj hsplit).1 hminus
      · rename_i hsplit
        exact absurd (List.cons.inj hsplit).1 hplus
      · rfl
  -- A number below the limit is not clamped.
  have hclamp : max LONG_MIN (min LONG_MAX (n : Int)) = n := by
    unfold LONG_MIN
    omega
  rw [toText_natCast, strtol, hfirst.1, hfirst.2]
  dsimp only
  rw [htake, if_neg Nat.toDigits_ne_nil, hrest, decimal_toDigits]
  simpa using hclamp

/-- `sscanf` reads back the number that was printed. -/
theorem scanInt_number {n : Nat} (hn : n < 2 ^ 31) :
    scanInt (text " " ++ toText n ++ text "\r\n") = some (n : Int) := by
  have hmax : (n : Int) ≤ LONG_MAX := by
    unfold LONG_MAX
    omega
  rw [scanInt, strtol_number hmax]
  have hne : text "\r\n" ≠ text " " ++ toText n ++ text "\r\n" := by
    simp [text]
  dsimp only
  rw [if_neg hne, (toInt_natCast_iff n).mpr hn]

/-! ## The header as it is printed -/

/-- The line declares the length of the body. -/
def DeclaresLength (line : Text) : Prop := (text "Content-Length:").isPrefixOf line

instance (line : Text) : Decidable (DeclaresLength line) :=
  inferInstanceAs (Decidable (_ = true))

/-- What the client prints of a header with these lines before and after the one that declares the
    length `n`. -/
def pageShown (before after : List Text) (n : Nat) : Text :=
  before.flatMap headerShown ++ (text "Length = " ++ toText n ++ text "\n") ++
    ((text "Content-Length: " ++ toText n) :: after).flatMap headerShown

/-- A line without a length shows nothing more. -/
theorem lengthShown_of_not {lines : List Text} (hlines : ∀ line ∈ lines, FitsClient line)
    (h : ¬ DeclaresLength (firstLine lines)) : lengthShown (firstLine lines) = [] := by
  rw [lengthShown, cString_firstLine hlines]
  exact if_neg h

/-- A line with a length shows the number. -/
theorem lengthShown_number {n : Nat} {lines : List Text} (hn : n < 2 ^ 31)
    (hline : FitsClient (text "Content-Length: " ++ toText n))
    (hlines : ∀ line ∈ lines, FitsClient line) :
    lengthShown (firstLine ((text "Content-Length: " ++ toText n) :: lines)) =
      text "Length = " ++ toText n ++ text "\n" := by
  rw [lengthShown, cString_firstLine (List.forall_mem_cons.mpr ⟨hline, hlines⟩)]
  have hdrop : (firstLine ((text "Content-Length: " ++ toText n) :: lines)).drop
      (text "Content-Length:").length = text " " ++ toText n ++ text "\r\n" := by
    simp [firstLine, text]
  rw [hdrop, scanInt_number hn]
  rfl

/-- Lines that declare no length are printed one by one. -/
theorem headersShown_eq_flatMap {lines : List Text} (hlines : ∀ line ∈ lines, FitsClient line)
    (h : ∀ line ∈ lines.tail, ¬ DeclaresLength (line ++ text "\r\n")) :
    headersShown lines = lines.flatMap headerShown := by
  induction lines with
  | nil => rfl
  | cons line lines ih =>
    have hfits := (List.forall_mem_cons.mp hlines).2
    have hnone : lengthShown (firstLine lines) = [] := by
      refine lengthShown_of_not hfits ?_
      cases lines with
      | nil => decide
      | cons next lines => exact h next List.mem_cons_self
    rw [headersShown, hnone, List.append_nil, List.flatMap_cons,
      ih hfits fun next hnext => h next (List.mem_of_mem_tail hnext)]

/-- The third line of a header declares the length. -/
theorem headersShown_eq_pageShown {first second : Text} {lines : List Text} {n : Nat}
    (hn : n < 2 ^ 31)
    (hlines : ∀ line ∈ first :: second :: (text "Content-Length: " ++ toText n) :: lines,
      FitsClient line)
    (h : ∀ line ∈ second :: lines, ¬ DeclaresLength (line ++ text "\r\n")) :
    headersShown (first :: second :: (text "Content-Length: " ++ toText n) :: lines) =
      pageShown [first, second] lines n := by
  obtain ⟨hfirst, hlines₁⟩ := List.forall_mem_cons.mp hlines
  obtain ⟨hsecond, hlines₂⟩ := List.forall_mem_cons.mp hlines₁
  obtain ⟨hlength, hlines₃⟩ := List.forall_mem_cons.mp hlines₂
  obtain ⟨hsecond', h'⟩ := List.forall_mem_cons.mp h
  have hnone := lengthShown_of_not hlines₁ hsecond'
  rw [headersShown, headersShown, hnone, lengthShown_number hn hlength hlines₃,
    headersShown_eq_flatMap hlines₂ h', pageShown]
  simp

/-! ## The lines of the server -/

instance (line : Text) : Decidable (FitsClient line) :=
  decidable_of_iff (IsHeaderLine line ∧ '\x00' ∉ line ∧ line.length + 1 < pieceLength)
    ⟨fun h => ⟨h.1, h.2.1, h.2.2⟩, fun h => ⟨h.toIsHeaderLine, h.nul, h.length⟩⟩

/-- A number of at most `k` digits, and perhaps a minus. -/
theorem length_toText_int_le {n : Int} {k : Nat} (hk : 0 < k) (h : n.natAbs < 10 ^ k) :
    (toText n).length ≤ k + 1 := by
  cases n with
  | ofNat n => exact Nat.le_succ_of_le (length_toText_le hk h)
  | negSucc n =>
    rw [toText_neg, List.length_cons]
    exact Nat.succ_le_succ ((Nat.length_toDigits_le_iff (by decide) hk).mpr h)

/-- A number can follow a short text in a header line. -/
theorem FitsClient.append_toText {line : Text} (h : FitsClient line) (hline : line.length ≤ 100)
    {n : Int} (hn : n.natAbs < 10 ^ 20) : FitsClient (line ++ toText n) where
  toIsHeaderLine := h.toIsHeaderLine.append_toText n
  nul := by
    have hnul := not_mem_toText n (c := '\x00') (by decide) (by decide)
    simp [h.nul, hnul]
  length := by
    have hlength := length_toText_int_le (by decide) hn
    rw [List.length_append, pieceLength, MAXLINE]
    omega

/-- The counters of a thread are `int`s. -/
structure MetaData.Fits (metaData : MetaData) : Prop where
  threadID : FitsInt metaData.threadID
  requestsCount : FitsInt metaData.requestsCount
  numStaticRequests : FitsInt metaData.numStaticRequests
  numDynamicRequests : FitsInt metaData.numDynamicRequests

/-- Milliseconds since a time have at most 20 digits. -/
theorem convertTimeValToMSULong_bounds (timeV : Timeval) :
    (convertTimeValToMSULong timeV).natAbs < 10 ^ 20 := by
  unfold convertTimeValToMSULong
  omega

/-- The lines of the statistics fit the buffer of the client. -/
theorem fitsClient_statisticsLines {metaData : MetaData} (h : metaData.Fits) :
    ∀ line ∈ statisticsLines
        { metaData with numStaticRequests := metaData.numStaticRequests + 1 },
      FitsClient line := by
  obtain ⟨hthread, hcount, hstatic, hdynamic⟩ := h
  unfold FitsInt at *
  unfold statisticsLines
  simp only [List.forall_mem_cons]
  refine ⟨.append_toText (by decide) (by decide) (convertTimeValToMSULong_bounds _),
    .append_toText (by decide) (by decide) (convertTimeValToMSULong_bounds _),
    .append_toText (by decide) (by decide) (by omega),
    .append_toText (by decide) (by decide) (by omega),
    .append_toText (by decide) (by decide) (by omega),
    .append_toText (by decide) (by decide) (by omega), ?_⟩
  intro line hmem
  cases hmem

/-- So does the line of the content type. -/
theorem fitsClient_contentType (filename : Text) :
    FitsClient (text "Content-Type: " ++ requestGetFiletype filename) := by
  unfold requestGetFiletype
  split
  · decide
  · split
    · decide
    · split <;> decide

/-- And the line of the content length. -/
theorem fitsClient_contentLength {n : Nat} (hn : n < 2 ^ 31) :
    FitsClient (text "Content-Length: " ++ toText n) :=
  .append_toText (by decide) (by decide) (by omega)

/-- Only the third line of a static header declares a length. -/
theorem headersShown_static (filename : Text) {n : Nat} (hn : n < 2 ^ 31) {metaData : MetaData}
    (h : metaData.Fits) :
    let metaData := { metaData with numStaticRequests := metaData.numStaticRequests + 1 }
    (∀ line ∈ staticHeaderLines filename n metaData, FitsClient line) ∧
      headersShown (staticHeaderLines filename n metaData) =
        pageShown [text "HTTP/1.0 200 OK", text "Server: OS-HW3 Web Server"]
          ((text "Content-Type: " ++ requestGetFiletype filename) :: statisticsLines metaData)
          n := by
  intro metaData'
  have hlines : ∀ line ∈ staticHeaderLines filename n metaData', FitsClient line :=
    List.forall_mem_cons.mpr ⟨by decide, List.forall_mem_cons.mpr ⟨by decide,
      List.forall_mem_cons.mpr ⟨fitsClient_contentLength hn,
        List.forall_mem_cons.mpr ⟨fitsClient_contentType filename,
          fitsClient_statisticsLines h⟩⟩⟩⟩
  refine ⟨hlines, headersShown_eq_pageShown hn hlines ?_⟩
  intro line hmem hprefix
  simp only [statisticsLines, List.mem_cons, List.not_mem_nil, or_false] at hmem
  rcases hmem with rfl | rfl | rfl | rfl | rfl | rfl | rfl | rfl <;>
    exact Bool.noConfusion (show false = true from hprefix)

/-- The file name that is parsed is little longer than the URI, and has no other characters than it
    and the fixed names. -/
theorem requestParseURI_filename_le (uri cgiargs : Text) (beforeUri : Char) :
    (requestParseURI uri cgiargs beforeUri).filename.length ≤ uri.length + 18 ∧
      ∀ c ∈ (requestParseURI uri cgiargs beforeUri).filename,
        c ∈ uri ∨ c ∈ text "./public/home.html" := by
  -- Both texts that the server adds are part of one name, whose letters are known.
  have happend : text "./public/home.html" = text "./public/" ++ text "home.html" := by decide
  have hname : ∀ c ∈ text "./public/", c ∈ text "./public/home.html" := by
    rw [happend]
    exact fun c hc => List.mem_append_left _ hc
  have hhome : ∀ c ∈ text "home.html", c ∈ text "./public/home.html" := by
    rw [happend]
    exact fun c hc => List.mem_append_right _ hc
  -- The part before the `?` is no longer than the URI.
  have hbefore := List.takeWhile_prefix (l := uri) (· ≠ '?')
  unfold requestParseURI
  -- A URI with `..`, a static one with and without a final `/`, a dynamic one.
  split
  · exact ⟨Nat.le_add_left _ _, fun c hc => .inr hc⟩
  · split
    · dsimp only
      split
      · refine ⟨by simp [text], fun c hc => ?_⟩
        rw [List.mem_append, List.mem_append] at hc
        obtain (hc | hc) | hc := hc
        · exact .inr (hname c hc)
        · exact .inl hc
        · exact .inr (hhome c hc)
      · refine ⟨by simp [text], fun c hc => ?_⟩
        obtain hc | hc := List.mem_append.mp hc
        · exact .inr (hname c hc)
        · exact .inl hc
    · refine ⟨?_, fun c hc => ?_⟩
      · have hle := hbefore.length_le
        simp only [List.length_append, text] at *
        simp at *
        omega
      · obtain hc | hc := List.mem_append.mp hc
        · exact .inr (hname c hc)
        · exact .inl (hbefore.mem hc)

/-- An error page is a header and a body. -/
theorem errorPage_eq (cause errnum shortmsg longmsg : Text) :
    errorPage cause errnum shortmsg longmsg =
      headerBlock [text "HTTP/1.0 " ++ errnum ++ text " " ++ shortmsg,
          text "Content-Type: text/html",
          text "Content-Length: " ++ toText (errorBody cause errnum shortmsg longmsg).length] ++
        errorBody cause errnum shortmsg longmsg := by
  simp [errorPage, headerBlock, text]

/-! ## The conversation -/

/-- The server has a readable file with these contents for the name. -/
structure HasFile (fs : FileSystem) (filename contents : Text) : Prop where
  is_static : (requestParseURI filename [] '/').is_static
  stat : ∃ st_mode, S_ISREG st_mode ∧ S_IRUSR &&& st_mode ≠ 0 ∧
    fs.stat (requestParseURI filename [] '/').filename = some ⟨st_mode, contents.length⟩
  mmap : ∀ len, 0 < len → len ≤ contents.length →
    fs.mmap (requestParseURI filename [] '/').filename len = some (contents.take len)

/-- The client asks for a file, the server answers, and the client prints. -/
def Conversation (fs : FileSystem) (metaData : MetaData) (buffers : Buffers)
    (hostname filename buf printed : Text) : Prop :=
  ∃ w o w', RunsWith fs (clientSend 3 hostname filename) (.start []) () w ∧
    Observes fs 4 metaData buffers w.written o ∧
    RunsWith fs (clientPrint 3 buf) (.start o.1) printed w'

section

variable {fs : FileSystem} {metaData : MetaData} {buffers : Buffers}
  {hostname filename contents buf printed : Text}

/-- What the server parses of the request of the client. -/
theorem Askable.parsedURI_sameRequest (h : Askable hostname filename) (buffers : Buffers) :
    (parsedURI buffers (clientRequest hostname filename)).SameRequest
      (requestParseURI filename [] '/') := by
  rw [parsedURI, h.requestURI_eq]
  exact requestParseURI_sameRequest h.ne_nil _ _ _ _

/-- The server reads what the client has sent, and the client reads the response. -/
theorem conversation_iff : Conversation fs metaData buffers hostname filename buf printed ↔
    ∃ o w', Observes fs 4 metaData buffers (clientRequest hostname filename) o ∧
      RunsWith fs (clientPrint 3 buf) (.start o.1) printed w' := by
  constructor
  · intro h
    obtain ⟨w, o, w', hsend, hobserves, hprint⟩ := h
    have hw := runs_Rio_writen hsend
    rw [hw] at hobserves
    exact ⟨o, w', hobserves, hprint⟩
  · intro h
    obtain ⟨o, w', hobserves, hprint⟩ := h
    exact ⟨_, o, w', exists_Rio_writen fs (.start []) 3 _, hobserves, hprint⟩

/-- The request asks for the file. -/
theorem HasFile.asksFor (hfile : HasFile fs filename contents) (h : Askable hostname filename)
    (buffers : Buffers) :
    AsksFor fs buffers (clientRequest hostname filename) contents := by
  have hsame := h.parsedURI_sameRequest buffers
  refine ⟨?_, h.headersRead buffers, ?_, ?_, ?_⟩
  · rw [h.requestMethod_eq]
    decide
  · rw [hsame.is_static]
    exact hfile.is_static
  · rw [hsame.filename]
    exact hfile.stat
  · rw [hsame.filename]
    exact hfile.mmap

/-- The client shows the error page for a file that the server does not have, as the server
    sends it. The file name has to leave room for the page, or the page does not fit the array
    that the server makes it in. -/
theorem client_shows_not_found (fs : FileSystem) (metaData : MetaData) (buffers : Buffers)
    (hostname filename buf : Text) (hask : Askable hostname filename)
    (hfile : fs.stat (requestParseURI filename [] '/').filename = none)
    (hroom : LeavesRoom (text "GET") filename buffers.beforeUri none) :
    (∀ strings, Fits (requestHandleStrings (requestLine filename ++ ['\n']) buffers.beforeUri none)
      (fun _ _ => True) strings) ∧
    (∃ printed, Conversation fs metaData buffers hostname filename buf printed) ∧
    ∀ printed, Conversation fs metaData buffers hostname filename buf printed →
      printed = pageShown [text "HTTP/1.0 404 Not found", text "Content-Type: text/html"] []
          (errorBody (requestParseURI filename [] '/').filename (text "404") (text "Not found")
            (text "OS-HW3 Server could not find this file")).length ++
        errorBody (requestParseURI filename [] '/').filename (text "404") (text "Not found")
          (text "OS-HW3 Server could not find this file") := by
  -- The cause on the page is the name of the file.
  generalize hcause : (requestParseURI filename [] '/').filename = cause at *
  generalize hbody : errorBody cause (text "404") (text "Not found")
    (text "OS-HW3 Server could not find this file") = body
  obtain ⟨hlength, hchars⟩ := requestParseURI_filename_le filename [] '/'
  have hname := (hask.parsedURI_sameRequest buffers).filename
  rw [hcause] at hlength hchars hname
  -- The server can answer: no file has to be mapped.
  have hcan : CanRespond fs buffers (clientRequest hostname filename) := by
    refine fun _ => ⟨hask.headersRead buffers, ?_⟩
    rw [hname, hfile]
    intro sbuf hsbuf
    cases hsbuf
  -- The page is short, because the request fits the client's buffer.
  have hsmall : body.length < 2 ^ 31 := by
    have hfits := hask.length
    rw [← hbody]
    simp only [clientRequest, errorBody, List.length_append, text, MAXLINE] at *
    simp at *
    omega
  -- The page has no NUL, because the URI has none.
  have hnul : '\x00' ∉ body := by
    have hcause : '\x00' ∉ cause := by
      intro hmem
      obtain hmem | hmem := hchars _ hmem
      · exact hask.not_mem (.inr rfl) hmem
      · exact absurd hmem (by decide)
    rw [← hbody]
    simp [errorBody, text, hcause]
  -- Each header fits a line of the client.
  have hlines : ∀ line ∈ [text "HTTP/1.0 404 Not found", text "Content-Type: text/html",
      text "Content-Length: " ++ toText body.length], FitsClient line :=
    List.forall_mem_cons.mpr ⟨by decide, List.forall_mem_cons.mpr ⟨by decide,
      List.forall_mem_cons.mpr ⟨fitsClient_contentLength hsmall, fun _ h => by cases h⟩⟩⟩
  have hheaders := headersShown_eq_pageShown hsmall hlines (by decide)
  -- The server sends the page that says that the file was not found.
  have hresponse : (response fs metaData buffers (clientRequest hostname filename)).1 =
      headerBlock [text "HTTP/1.0 404 Not found", text "Content-Type: text/html",
        text "Content-Length: " ++ toText body.length] ++ body := by
    have hget : sameUpToCase (requestMethod buffers (clientRequest hostname filename))
        (text "GET") := by
      rw [hask.requestMethod_eq]
      decide
    rw [response, if_pos hget]
    dsimp only
    rw [hname, hfile]
    dsimp only
    rw [errorPage_eq, hbody]
    rfl
  refine ⟨hask.fits hroom, ?_, ?_⟩
  · -- Some conversation exists.
    obtain ⟨printed, w', hprint⟩ := exists_clientPrint fs
      (.start (response fs metaData buffers (clientRequest hostname filename)).1) 3 buf
    exact ⟨printed, conversation_iff.mpr ⟨_, w', observes_response hcan, hprint⟩⟩
  · -- Every conversation prints the headers and the page.
    intro printed hconversation
    obtain ⟨o, w', hobserves, hprint⟩ := conversation_iff.mp hconversation
    rw [hobserves.eq_response.1, hresponse] at hprint
    obtain ⟨shown, hprinted, hshown⟩ := runs_clientPrint hlines hprint
    rw [hheaders, hshown.eq_iff.mpr hnul] at hprinted
    exact hprinted

/-- A short name can be asked for. -/
theorem askable_a : Askable (text "h") (text "/a") where
  ne_nil := by decide
  word := by simp [text, isSpace, WHITESPACE]
  host := by simp [text]
  length := by decide

/-- The server with one file has it under the name `/a`. -/
theorem hasFile_oneFile (contents : Text) : HasFile (oneFile contents) (text "/a") contents := by
  have hname : (requestParseURI (text "/a") [] '/').filename = text "./public//a" := by decide
  refine ⟨by decide, ?_, ?_⟩
  · rw [hname]
    exact ⟨0o100644, by decide, by decide, by simp [oneFile]⟩
  · rw [hname]
    simp [oneFile]

/-- A server without files. -/
theorem client_shows_not_found_noFiles :
    (∀ strings, Fits (requestHandleStrings (requestLine (text "/a") ++ ['\n'])
      emptyBuffers.beforeUri none) (fun _ _ => True) strings) ∧
    (∃ printed, Conversation noFiles firstMetaData emptyBuffers (text "h") (text "/a") [] printed) ∧
    ∀ printed, Conversation noFiles firstMetaData emptyBuffers (text "h") (text "/a") [] printed →
      printed = pageShown [text "HTTP/1.0 404 Not found", text "Content-Type: text/html"] []
          (errorBody (requestParseURI (text "/a") [] '/').filename (text "404") (text "Not found")
            (text "OS-HW3 Server could not find this file")).length ++
        errorBody (requestParseURI (text "/a") [] '/').filename (text "404") (text "Not found")
          (text "OS-HW3 Server could not find this file") :=
  client_shows_not_found noFiles firstMetaData emptyBuffers (text "h") (text "/a") [] askable_a rfl
    (by unfold LeavesRoom; decide)

end

end OsWet
