import OsWet.Native.RequestStrings
import OsWet.Spec.NumberText
import OsWet.Spec.RequestHeaders
import OsWet.Spec.RequestResponse

/-!
# Which strings fit their arrays

The arrays of `requestHandle` are as large as the line that it reads, but the file name is longer
than the URI, and an error page is longer than what it is about. So a method or a URI can be too
long, by the length of what is put around it.

## Main results

- `strings_fit_iff`: the lines for which all strings fit their arrays
- `fits_response`: then the arrays hold what `response` is made of
-/

namespace OsWet

open Text

variable {strings : Strings}

/-- `strcpy` needs room for the string and its end. -/
theorem fits_strcpy {dest : StringArray} {s : Text} {Q : Unit → Strings → Prop} :
    Fits (strcpy dest s) Q strings ↔
      s.length < dest.size ∧ Q () (Function.update strings dest s) :=
  fits_store

/-- `strcat` needs room for both strings. -/
theorem fits_strcat {dest : StringArray} {s : Text} {Q : Unit → Strings → Prop} :
    Fits (strcat dest s) Q strings ↔ (strings dest ++ s).length < dest.size ∧
      Q () (Function.update strings dest (strings dest ++ s)) := by
  rw [strcat, fits_bind, fits_held, fits_strcpy]

/-! ## Error pages -/

/-- The line of `requestError` with the length of the body. -/
def lengthLine (body : Text) : Text :=
  text "Content-Length: " ++ toText body.length ++ text "\r\n\r\n"

/-- How long an error page is. -/
theorem length_errorBody (cause errnum shortmsg longmsg : Text) :
    (errorBody cause errnum shortmsg longmsg).length =
      errnum.length + shortmsg.length + longmsg.length + cause.length + 89 := by
  simp [errorBody, text]
  omega

/-- The line with the length is short when the length is. -/
theorem length_lengthLine_lt {body : Text} (h : body.length < 10 ^ 4) :
    (lengthLine body).length < MAXLINE := by
  have hdigits := length_toText_le (by decide) h
  simp [lengthLine, text, MAXLINE]
  omega

/-- An error page fits if its body does. -/
theorem fits_requestErrorStrings {cause errnum shortmsg longmsg : Text}
    {Q : Unit → Strings → Prop} :
    Fits (requestErrorStrings cause errnum shortmsg longmsg) Q strings ↔
      (errorBody cause errnum shortmsg longmsg).length < MAXBUF ∧
        Q () (Function.update
          (Function.update strings .body (errorBody cause errnum shortmsg longmsg)) .buf
          (lengthLine (errorBody cause errnum shortmsg longmsg))) := by
  have hne : StringArray.body ≠ .buf := by decide
  -- The text after the five `strcat` of the page is the page itself.
  have hbody : text "<html><title>OS-HW3 Error</title>" ++ text "<body bgcolor=fffff>\r\n" ++
      (errnum ++ text ": " ++ shortmsg ++ text "\r\n") ++
      (text "<p>" ++ longmsg ++ text ": " ++ cause ++ text "\r\n") ++
      text "<hr>OS-HW3 Web Server\r\n" = errorBody cause errnum shortmsg longmsg := by
    simp only [errorBody, List.append_assoc]
  have hline : ∀ body : Text, text "Content-Length: " ++ toText body.length ++
      text "\r\n\r\n" = lengthLine body := fun _ => rfl
  unfold requestErrorStrings
  simp only [fits_bind, fits_strcpy, fits_strcat, fits_held]
  simp only [Function.update_self, Function.update_idem, Function.update_of_ne hne, hbody, hline]
  -- Of the copies only the whole page can be too long; the others are parts of it.
  constructor
  · intro h
    obtain ⟨-, -, -, -, hlength, -, -, -, hQ⟩ := h
    exact ⟨hlength, hQ⟩
  · intro h
    obtain ⟨hlength, hQ⟩ := h
    -- A page shorter than the buffer has a length that fits its line.
    have hshort : (lengthLine (errorBody cause errnum shortmsg longmsg)).length < MAXLINE :=
      length_lengthLine_lt (Nat.lt_trans hlength (by decide))
    rw [length_errorBody] at hlength
    simp only [StringArray.size, MAXLINE, MAXBUF] at hlength ⊢
    refine ⟨by decide, by decide, ?_, ?_, ?_, ?_, by decide, hshort, hQ⟩
    · simp [text]
      omega
    · simp [text]
      omega
    · rw [length_errorBody]
      exact hlength
    · simp [text]
      omega

/-! ## Parsing -/

/-- The arrays after `requestParseURI`. -/
def parsedStrings (strings : Strings) (parsed : ParsedURI) : Strings
  | .uri => parsed.uri
  | .filename => parsed.filename
  | .cgiargs => parsed.cgiargs
  | array => strings array

/-- What `requestParseURI` leaves in the arrays. -/
theorem parsedStrings_eq (strings : Strings) (parsed : ParsedURI) :
    parsedStrings strings parsed = Function.update (Function.update
      (Function.update strings .uri parsed.uri) .cgiargs parsed.cgiargs) .filename
        parsed.filename := by
  funext array
  cases array <;> rfl

/-- Cutting a string off where a prefix ends. -/
theorem takeWhile_eq_take (p : Char → Bool) (s : Text) :
    s.take (s.takeWhile p).length = s.takeWhile p :=
  (List.prefix_iff_eq_take.mp (List.takeWhile_prefix p)).symm

/-- `requestParseURI` fills the arrays with what it computes, if the file name and the arguments
    fit. -/
theorem fits_requestParseURIStrings {beforeUri : Char} {Q : Bool → Strings → Prop} :
    Fits (requestParseURIStrings beforeUri) Q strings ↔
      let parsed := requestParseURI (strings .uri) (strings .cgiargs) beforeUri
      (parsed.filename.length < MAXLINE ∧
          (parsed.is_static = false → parsed.cgiargs.length < MAXLINE)) ∧
        Q parsed.is_static (parsedStrings strings parsed) := by
  unfold requestParseURIStrings requestParseURI
  simp only [fits_bind, fits_held]
  split
  -- A URI with `..` is replaced by a short one.
  case isTrue hdots =>
    simp only [fits_bind, fits_strcpy, fits_pure, parsedStrings_eq, Function.update_eq_self]
    simp [StringArray.size, text, MAXLINE]
  case isFalse hdots =>
    have hne : StringArray.uri ≠ .cgiargs := by decide
    split
    -- Static: the name is `./public/` and the URI, with `home.html` behind a final `/`.
    case isTrue hstatic =>
      simp only [fits_bind, fits_strcpy, fits_ite, fits_strcat, fits_pure, Function.update_self,
        Function.update_idem]
      rw [parsedStrings_eq, Function.update_eq_self]
      by_cases hslash : (strings .uri).getLast?.getD beforeUri = '/'
      · simp only [if_pos hslash]
        constructor
        · intro h
          obtain ⟨-, -, hlength, hQ⟩ := h
          exact ⟨⟨hlength, fun h => by cases h⟩, hQ⟩
        · intro h
          obtain ⟨⟨hlength, -⟩, hQ⟩ := h
          -- The shorter name without `home.html` fits all the more.
          refine ⟨by decide, ?_, hlength, hQ⟩
          rw [List.length_append] at hlength
          exact Nat.lt_of_le_of_lt (Nat.le_add_right _ _) hlength
      · simp only [if_neg hslash]
        constructor
        · intro h
          obtain ⟨-, hlength, hQ⟩ := h
          exact ⟨⟨hlength, fun h => by cases h⟩, hQ⟩
        · intro h
          obtain ⟨⟨hlength, -⟩, hQ⟩ := h
          exact ⟨by decide, hlength, hQ⟩
    -- Dynamic: what is behind the `?` goes to the arguments, and the URI is cut there.
    case isFalse hdynamic =>
      simp only [fits_bind, fits_strcpy, fits_ite, fits_cut, fits_held, fits_pure,
        Function.update_self, Function.update_of_ne hne]
      rw [parsedStrings_eq]
      -- A URI without `?` has no arguments and is not cut.
      by_cases hquery : '?' ∈ strings .uri
      · rw [if_pos hquery, takeWhile_eq_take, Function.update_comm hne.symm]
        constructor
        · intro h
          obtain ⟨hargs, hlength, hQ⟩ := h
          exact ⟨⟨hlength, fun _ => hargs⟩, hQ⟩
        · intro h
          obtain ⟨⟨hlength, hargs⟩, hQ⟩ := h
          exact ⟨hargs trivial, hlength, hQ⟩
      · -- The URI is not cut.
        have hall : ∀ c ∈ strings .uri, decide (c ≠ '?') = true := by
          intro c hc
          exact decide_eq_true fun heq => hquery (heq ▸ hc)
        simp only [if_neg hquery, List.takeWhile_eq_self_iff.mpr hall,
          List.dropWhile_eq_nil_iff.mpr hall, List.drop_nil, Function.update_eq_self]
        constructor
        · intro h
          obtain ⟨hargs, hlength, hQ⟩ := h
          exact ⟨⟨hlength, fun _ => hargs⟩, hQ⟩
        · intro h
          obtain ⟨⟨hlength, hargs⟩, hQ⟩ := h
          exact ⟨hargs trivial, hlength, hQ⟩

/-! ## A request -/

/-- The arrays after `sscanf` has found these words. -/
def scannedStrings (strings : Strings) (found : List Text) : Strings
  | .method => found[0]?.getD (strings .method)
  | .uri => found[1]?.getD (strings .uri)
  | .version => found[2]?.getD (strings .version)
  | array => strings array

/-- `sscanf` stores no more than three words. -/
theorem fits_sscanf {buf : Text} {Q : Unit → Strings → Prop} :
    Fits (sscanf buf) Q strings ↔
      (∀ word ∈ (words (cString buf)).take 3, word.length < MAXLINE) ∧
        Q () (scannedStrings strings (words (cString buf))) := by
  unfold sscanf
  split
  -- As many words as were found are copied, each into its own array.
  case h_1 hfound =>
    have hstate : strings = scannedStrings strings [] := by
      funext array
      cases array <;> rfl
    rw [hfound, fits_pure, ← hstate]
    simp
  case h_2 method hfound =>
    have hstate : Function.update strings .method method = scannedStrings strings [method] := by
      funext array
      cases array <;> rfl
    rw [hfound, fits_strcpy, hstate]
    simp [StringArray.size]
  case h_3 method uri hfound =>
    have hstate : Function.update (Function.update strings .method method) .uri uri =
        scannedStrings strings [method, uri] := by
      funext array
      cases array <;> rfl
    rw [hfound, fits_bind, fits_strcpy, fits_strcpy, hstate]
    simp [StringArray.size, and_assoc]
  case h_4 method uri version rest hfound =>
    have hstate : Function.update (Function.update (Function.update strings .method method) .uri
        uri) .version version = scannedStrings strings (method :: uri :: version :: rest) := by
      funext array
      cases array <;> rfl
    simp only [hfound, fits_bind, fits_strcpy, hstate]
    simp [StringArray.size, and_assoc]

/-- How many characters an error page has besides the file name; none if there is no such page. -/
def besidesFilename (is_static : Bool) : Option Stat → Nat
  | none => 139
  | some sbuf =>
    if is_static then
      if !S_ISREG sbuf.st_mode || S_IRUSR &&& sbuf.st_mode = 0 then 139 else 0
    else
      if !S_ISREG sbuf.st_mode || S_IXUSR &&& sbuf.st_mode = 0 then 145 else 0

/-- The method or the URI leaves room for what is put around it. -/
def LeavesRoom (method uri : Text) (beforeUri : Char) (found : Option Stat) : Prop :=
  if sameUpToCase method (text "GET") then
    if (find (text "..") uri).isSome then True
    else if (find (text "cgi") uri).isNone then
      uri.length + (if uri.getLast?.getD beforeUri = '/' then 18 else 9) +
        besidesFilename true found < 8192
    else
      (uri.takeWhile (· ≠ '?')).length + 9 + besidesFilename false found < 8192 ∧
        ((uri.dropWhile (· ≠ '?')).drop 1).length < 8192
  else method.length + 151 < 8192

/-- A page on a file leaves room for the file name in its array, too. -/
theorem fits_filenamePage {filename errnum shortmsg longmsg : Text} :
    (filename.length < MAXLINE ∧
        Fits (requestErrorStrings filename errnum shortmsg longmsg) (fun _ _ => True) strings) ↔
      filename.length + (errnum.length + shortmsg.length + longmsg.length + 89) < 8192 := by
  rw [fits_requestErrorStrings, length_errorBody]
  simp only [and_true, MAXBUF, MAXLINE]
  omega

/-- A file name and what is served of the file fit if there is room for the page, if any. -/
theorem fits_requestServeStrings {is_static : Bool} {filename : Text} {found : Option Stat} :
    (filename.length < MAXLINE ∧
        Fits (requestServeStrings is_static filename found) (fun _ _ => True) strings) ↔
      filename.length + besidesFilename is_static found < 8192 := by
  unfold requestServeStrings besidesFilename
  cases found with
  | none => exact fits_filenamePage
  | some sbuf =>
    dsimp only
    split
    case isTrue =>
      split
      case isTrue => exact fits_filenamePage
      case isFalse => simp [MAXLINE]
    case isFalse =>
      split
      case isTrue => exact fits_filenamePage
      case isFalse => simp [MAXLINE]

/-- Room for the file name and its page is room in terms of the URI. -/
theorem leavesRoom_iff {method : Text} (hget : sameUpToCase method (text "GET"))
    (uri cgiargs : Text) (beforeUri : Char) (found : Option Stat) :
    let parsed := requestParseURI uri cgiargs beforeUri
    (parsed.filename.length + besidesFilename parsed.is_static found < 8192 ∧
        (parsed.is_static = false → parsed.cgiargs.length < MAXLINE)) ↔
      LeavesRoom method uri beforeUri found := by
  -- Page and headers take at most so much besides the name.
  have hbesides : besidesFilename true found ≤ 139 := by
    unfold besidesFilename
    split
    · exact Nat.le_refl _
    · rw [if_pos rfl]
      split
      · exact Nat.le_refl _
      · exact Nat.zero_le _
  rw [LeavesRoom, if_pos hget]
  -- In each of the three branches the name is bounded by the same number.
  unfold requestParseURI
  split
  case isTrue =>
    simp [text]
    omega
  case isFalse =>
    split
    case isTrue =>
      dsimp only
      split
      · simp [text]
      · simp [text]
    case isFalse => simp [text, MAXLINE]

/-- The strings of a request fit if its words do and leave room. -/
theorem fits_requestHandleStrings {buf : Text} {beforeUri : Char} {found : Option Stat} :
    Fits (requestHandleStrings buf beforeUri found) (fun _ _ => True) strings ↔
      (∀ word ∈ (words (cString buf)).take 3, word.length < MAXLINE) ∧
        LeavesRoom ((words (cString buf))[0]?.getD (strings .method))
          ((words (cString buf))[1]?.getD (strings .uri)) beforeUri found := by
  unfold requestHandleStrings
  simp only [fits_bind, fits_sscanf, fits_held, fits_ite]
  apply and_congr_right
  intro _
  -- What `requestHandle` has in its arrays after `sscanf`.
  generalize hscanned : scannedStrings strings (words (cString buf)) = scanned
  have hmethod : scanned .method = (words (cString buf))[0]?.getD (strings .method) := by
    rw [← hscanned]
    rfl
  have huri : scanned .uri = (words (cString buf))[1]?.getD (strings .uri) := by
    rw [← hscanned]
    rfl
  rw [← hmethod, ← huri]
  split
  -- A GET request needs room for the URI in the file name, and then for its response.
  case isTrue hget =>
    refine Iff.trans ?_ (leavesRoom_iff hget _ (scanned .cgiargs) beforeUri found)
    rw [fits_requestParseURIStrings]
    simp only [fits_bind, fits_held]
    rw [and_right_comm]
    exact and_congr_left fun _ => fits_requestServeStrings
  -- Any other method needs room for the page that repeats it.
  case isFalse hget =>
    rw [LeavesRoom, if_neg hget, fits_requestErrorStrings, length_errorBody]
    simp [text, MAXBUF]
    omega

/-! ## The response -/

/-- What the arrays hold before anything is stored in them. -/
def Buffers.onStack (buffers : Buffers) (version buf body : Text) : Strings
  | .method => buffers.method
  | .uri => buffers.uri
  | .version => version
  | .filename => buffers.filename
  | .cgiargs => buffers.cgiargs
  | .buf => buf
  | .body => body

/-- The arrays of `requestHandle` hold what the request is taken for. -/
structure HoldRequest (strings : Strings) (buffers : Buffers) (stream : Text) : Prop where
  method : strings .method = requestMethod buffers stream
  uri : sameUpToCase (requestMethod buffers stream) (text "GET") →
    strings .uri = (parsedURI buffers stream).uri
  filename : sameUpToCase (requestMethod buffers stream) (text "GET") →
    strings .filename = (parsedURI buffers stream).filename
  cgiargs : sameUpToCase (requestMethod buffers stream) (text "GET") →
    strings .cgiargs = (parsedURI buffers stream).cgiargs

/-- The arrays of `requestError` hold the end of the response, if it is an error page. -/
def HoldPage (strings : Strings) (o : Response) : Prop :=
  o.2.1 = HW3_INVALID_VALUE → ∃ start, o.1 = start ++ strings .buf ++ strings .body

variable {fs : FileSystem} {metaData : MetaData} {buffers : Buffers} {stream : Text}

/-- When an error page fits, its arrays hold it. -/
theorem fits_page {cause errnum shortmsg longmsg : Text} {returned : Int × MetaData}
    (hstrings : HoldRequest strings buffers stream)
    (h : Fits (requestErrorStrings cause errnum shortmsg longmsg) (fun _ _ => True) strings) :
    Fits (requestErrorStrings cause errnum shortmsg longmsg) (fun _ strings =>
      HoldRequest strings buffers stream ∧
        HoldPage strings (errorPage cause errnum shortmsg longmsg, returned)) strings := by
  rw [fits_requestErrorStrings] at h ⊢
  exact ⟨h.1, ⟨hstrings.method, hstrings.uri, hstrings.filename, hstrings.cgiargs⟩,
    fun _ => ⟨_, rfl⟩⟩

/-- What is served fits when its strings do. -/
theorem fits_served {parsed : ParsedURI} (hstrings : HoldRequest strings buffers stream)
    (h : Fits (requestServeStrings parsed.is_static parsed.filename (fs.stat parsed.filename))
      (fun _ _ => True) strings) :
    Fits (requestServeStrings parsed.is_static parsed.filename (fs.stat parsed.filename))
      (fun _ strings => HoldRequest strings buffers stream ∧ HoldPage strings
        (match fs.stat parsed.filename with
        | none => (errorPage parsed.filename (text "404") (text "Not found")
            (text "OS-HW3 Server could not find this file"), HW3_INVALID_VALUE, metaData)
        | some sbuf => serveResponse fs metaData parsed sbuf)) strings := by
  unfold requestServeStrings at h ⊢
  -- The pages that name the file are those of the three errors.
  cases hstat : fs.stat parsed.filename with
  | none =>
    rw [hstat] at h
    exact fits_page hstrings h
  | some sbuf =>
    rw [hstat] at h
    dsimp only at h ⊢
    unfold serveResponse
    split at h
    case isTrue hstatic =>
      simp only [if_pos hstatic]
      split at h
      case isTrue hmode =>
        simp only [if_pos hmode]
        exact fits_page hstrings h
      -- The file is sent: no page is made.
      case isFalse hmode =>
        simp only [if_neg hmode, fits_pure]
        exact ⟨hstrings, fun h => by cases h⟩
    case isFalse hstatic =>
      simp only [if_neg hstatic]
      split at h
      case isTrue hmode =>
        simp only [if_pos hmode]
        exact fits_page hstrings h
      -- The program is run: no page is made.
      case isFalse hmode =>
        simp only [if_neg hmode, fits_pure]
        exact ⟨hstrings, fun h => by cases h⟩

/-- When the strings fit, they are those that the response is made of. -/
theorem fits_response {line version buf body : Text}
    (hline : (readLine MAXLINE stream).1 = some line)
    (h : Fits (requestHandleStrings line buffers.beforeUri
        (fs.stat (parsedURI buffers stream).filename)) (fun _ _ => True)
      (buffers.onStack version buf body)) :
    Fits (requestHandleStrings line buffers.beforeUri
        (fs.stat (parsedURI buffers stream).filename))
      (fun _ strings => HoldRequest strings buffers stream ∧
        HoldPage strings (response fs metaData buffers stream))
      (buffers.onStack version buf body) := by
  unfold requestHandleStrings at h ⊢
  simp only [fits_bind, fits_sscanf, fits_held, fits_ite] at h ⊢
  -- The words of the request line fit, whatever follows.
  obtain ⟨hwords, h⟩ := h
  refine ⟨hwords, ?_⟩
  rw [← requestWords_of_line hline buffers] at h ⊢
  generalize hscanned : scannedStrings (buffers.onStack version buf body)
    (requestWords buffers stream) = scanned at h ⊢
  -- The arrays hold the method and the parsed URI of the request.
  have hmethod : scanned .method = requestMethod buffers stream := by
    rw [← hscanned]
    rfl
  have hparsed : requestParseURI (scanned .uri) (scanned .cgiargs) buffers.beforeUri =
      parsedURI buffers stream := by
    rw [← hscanned]
    rfl
  rw [hmethod] at h ⊢
  split at h
  case isTrue hget =>
    rw [if_pos hget, response, if_pos hget]
    rw [fits_requestParseURIStrings] at h ⊢
    dsimp only at h ⊢
    rw [hparsed] at h ⊢
    obtain ⟨hlength, h⟩ := h
    refine ⟨hlength, ?_⟩
    rw [fits_bind, fits_held] at h ⊢
    -- What is written next depends on the arrays only through these three.
    exact fits_served ⟨hmethod, fun _ => rfl, fun _ => rfl, fun _ => rfl⟩ h
  case isFalse hget =>
    rw [if_neg hget, response, if_neg hget]
    exact fits_page ⟨hmethod, fun h => absurd h hget, fun h => absurd h hget,
      fun h => absurd h hget⟩ h

/-! ## Lines -/

/-- A word of a line is no longer than the line. -/
theorem length_of_mem_words {buf word : Text} (h : word ∈ words (cString buf)) :
    word.length ≤ buf.length :=
  (infix_of_mem_wordsBy h).length_le.trans (List.takeWhile_prefix _).length_le

/-- For every line that `Rio_readlineb` can bring, whatever the arrays held and whatever `stat`
    finds: the strings fit if the method or the URI leaves room. -/
theorem strings_fit_iff {buf : Text} (hbuf : buf.length ≤ MAXLINE - 1) (strings : Strings)
    (beforeUri : Char) (found : Option Stat) :
    Fits (requestHandleStrings buf beforeUri found) (fun _ _ => True) strings ↔
      LeavesRoom ((words (cString buf))[0]?.getD (strings .method))
        ((words (cString buf))[1]?.getD (strings .uri)) beforeUri found := by
  rw [fits_requestHandleStrings]
  apply and_iff_right
  intro word hmem
  have hlength := length_of_mem_words (List.mem_of_mem_take hmem)
  unfold MAXLINE at hbuf ⊢
  omega

/-- A short line. -/
theorem strings_fit_short : (text "GET / HTTP/1.0\r\n").length ≤ MAXLINE - 1 ∧
    (Fits (requestHandleStrings (text "GET / HTTP/1.0\r\n") '/' none) (fun _ _ => True)
        (fun _ => []) ↔
      LeavesRoom (text "GET") (text "/") '/' none) :=
  ⟨by decide, strings_fit_iff (by decide) (fun _ => []) '/' none⟩

/-- The line is one word. -/
theorem words_longLine : words (cString longLine) = [longLine] := by
  have hmem : ∀ c ∈ longLine, c = 'a' := fun c hc => List.eq_of_mem_replicate hc
  have hstring : cString longLine = longLine :=
    List.takeWhile_eq_self_iff.mpr fun c hc => by rw [hmem c hc]; decide
  rw [hstring, words, wordsBy_eq_singleton longLine_ne_nil]
  intro c hc
  rw [hmem c hc]
  decide

/-- A line of `a`s that fills `buf` is a method that leaves no room for its error page. -/
theorem strings_do_not_fit :
    (readLine MAXLINE (longLine ++ text "\r\n")).1 = some longLine ∧
      longLine.length ≤ MAXLINE - 1 ∧
        ¬ Fits (requestHandleStrings longLine '/' none) (fun _ _ => True) (fun _ => []) := by
  refine ⟨?_, Nat.le_of_eq longLine_length, ?_⟩
  · -- The piece that is read is the whole line, since no line end comes earlier.
    rw [readLine_of_le not_mem_longLine (Nat.le_of_eq longLine_length.symm)]
    rw [List.take_of_length_le (Nat.le_of_eq longLine_length)]
  · rw [fits_requestHandleStrings, words_longLine]
    intro h
    have hroom : LeavesRoom longLine [] '/' none := h.2
    -- 8191 letters are not `GET`, so the page repeats them.
    have hget : ¬ sameUpToCase longLine (text "GET") := by
      intro hsame
      have hlength := congrArg List.length (of_decide_eq_true hsame)
      rw [List.length_map, longLine_length] at hlength
      exact absurd hlength (by decide)
    have hlength : longLine.length + 151 < 8192 := by
      rw [LeavesRoom, if_neg hget] at hroom
      exact hroom
    rw [longLine_length] at hlength
    exact absurd hlength (by decide)

end OsWet
