import OsWet.Spec.NumberText
import OsWet.Spec.RequestHeaders
import OsWet.Spec.RequestResponse

/-!
# How a static response is framed

The size of the file is declared in the header and decides how many bytes follow, after it was
converted to an `int`. So a client can tell where the file ends only when the size fits one; and an
empty file cannot be mapped, so that nothing is sent at all.

## Main results

- `headerBlock_inj`: the header of a response is determined by its bytes
- `static_framed_iff`: the sizes for which a static response is framed correctly
-/

namespace OsWet

open Text

/-! ## Header lines -/

/-- A client takes the line for a header line: there is something in it, and no line break. -/
structure IsHeaderLine (line : Text) : Prop where
  ne_nil : line ≠ []
  cr : '\r' ∉ line
  lf : '\n' ∉ line

instance (line : Text) : Decidable (IsHeaderLine line) :=
  decidable_of_iff (line ≠ [] ∧ '\r' ∉ line ∧ '\n' ∉ line)
    ⟨fun h => ⟨h.1, h.2.1, h.2.2⟩, fun h => ⟨h.ne_nil, h.cr, h.lf⟩⟩

/-- A header line with more in it. -/
theorem IsHeaderLine.append {line s : Text} (h : IsHeaderLine line) (hcr : '\r' ∉ s)
    (hlf : '\n' ∉ s) : IsHeaderLine (line ++ s) where
  ne_nil := List.append_ne_nil_of_left_ne_nil h.ne_nil s
  cr := by simp [h.cr, hcr]
  lf := by simp [h.lf, hlf]

/-- A printed number has only digits and a minus in it. -/
theorem not_mem_toText {c : Char} (n : Int) (hminus : c ≠ '-') (hdigit : isDigit c = false) :
    c ∉ toText n := by
  intro h
  rcases eq_of_mem_toText h with hc | hc
  · exact hminus hc
  · exact absurd hc (by simp [hdigit])

/-- A number can follow anything in a header line. -/
theorem IsHeaderLine.append_toText {line : Text} (h : IsHeaderLine line) (n : Int) :
    IsHeaderLine (line ++ toText n) :=
  h.append (not_mem_toText n (by decide) (by decide)) (not_mem_toText n (by decide) (by decide))

/-- The empty line does not start with a header line. -/
theorem headerBlock_nil_ne {line : Text} (hline : IsHeaderLine line) {lines : List Text}
    {body body' : Text} : headerBlock [] ++ body ≠ headerBlock (line :: lines) ++ body' := by
  intro heq
  rw [headerBlock_cons] at heq
  cases line with
  | nil => exact hline.ne_nil rfl
  | cons c line =>
    obtain ⟨rfl, -⟩ := List.cons.inj heq
    exact hline.cr List.mem_cons_self

/-- The header and the body can be read off the bytes of a response. -/
theorem headerBlock_inj {lines lines' : List Text} {body body' : Text}
    (hlines : ∀ line ∈ lines, IsHeaderLine line) (hlines' : ∀ line ∈ lines', IsHeaderLine line)
    (h : headerBlock lines ++ body = headerBlock lines' ++ body') :
    lines = lines' ∧ body = body' := by
  induction lines generalizing lines' with
  | nil =>
    cases lines' with
    | nil => exact ⟨rfl, List.append_cancel_left h⟩
    | cons line' lines' => exact absurd h (headerBlock_nil_ne (List.forall_mem_cons.mp hlines').1)
  | cons line lines ih =>
    cases lines' with
    | nil => exact absurd h.symm (headerBlock_nil_ne (List.forall_mem_cons.mp hlines).1)
    | cons line' lines' =>
      rw [List.forall_mem_cons] at hlines hlines'
      simp only [headerBlock_cons, List.append_assoc] at h
      obtain ⟨rfl, hrest⟩ := append_cons_inj hlines.1.cr hlines'.1.cr h
      obtain ⟨rfl, hbody⟩ := ih hlines.2 hlines'.2 (List.cons.inj hrest).2
      exact ⟨rfl, hbody⟩

/-- The values of the headers with this name. -/
def headerValues (name : Text) (lines : List Text) : List Text :=
  lines.filterMap fun line =>
    if name.isPrefixOf line then some (line.drop name.length) else none

/-- The response is a header block that declares one length, and then the contents of this
    length. -/
def Framed (written contents : Text) : Prop :=
  ∃ lines, written = headerBlock lines ++ contents ∧ (∀ line ∈ lines, IsHeaderLine line) ∧
    (headerValues (text "Content-Length: ") lines).map strtol = [((contents.length : Int), [])]

/-! ## The header of a static response -/

/-- The lines of `statistics`. -/
def statisticsLines (metaData : MetaData) : List Text :=
  [text "Stat-Req-Arrival: " ++ toText (convertTimeValToMSULong metaData.arrivalTime),
    text "Stat-Req-Dispatch: " ++ toText (convertTimeValToMSULong metaData.dispatchTime),
    text "Stat-Thread-Id: " ++ toText metaData.threadID,
    text "Stat-Thread-Count: " ++ toText metaData.requestsCount,
    text "Stat-Thread-Static: " ++ toText metaData.numStaticRequests,
    text "Stat-Thread-Dynamic: " ++ toText metaData.numDynamicRequests]

/-- The lines of `staticHeader`. -/
def staticHeaderLines (filename : Text) (filesize : Int) (metaData : MetaData) : List Text :=
  text "HTTP/1.0 200 OK" :: text "Server: OS-HW3 Web Server" ::
    (text "Content-Length: " ++ toText filesize) ::
    (text "Content-Type: " ++ requestGetFiletype filename) :: statisticsLines metaData

variable (filename : Text) (filesize : Int) (metaData : MetaData)

/-- The header of a static page is the block of its lines. -/
theorem staticHeader_eq : staticHeader filename filesize metaData =
    headerBlock (staticHeaderLines filename filesize metaData) := by
  have hstatus : text "HTTP/1.0 200 OK\r\n" = text "HTTP/1.0 200 OK" ++ text "\r\n" := rfl
  have hserver : text "Server: OS-HW3 Web Server\r\n" =
      text "Server: OS-HW3 Web Server" ++ text "\r\n" := rfl
  unfold staticHeader statistics headerBlock staticHeaderLines statisticsLines
  rw [hstatus, hserver]
  simp only [List.flatMap_cons, List.flatMap_nil, List.append_assoc, List.nil_append]

/-- A content type has no line break in it. -/
theorem not_mem_requestGetFiletype {c : Char} (h : c = '\r' ∨ c = '\n') :
    c ∉ requestGetFiletype filename := by
  unfold requestGetFiletype
  split
  · rcases h with rfl | rfl <;> decide
  · split
    · rcases h with rfl | rfl <;> decide
    · split
      · rcases h with rfl | rfl <;> decide
      · rcases h with rfl | rfl <;> decide

/-- The lines of the header are header lines. -/
theorem isHeaderLine_staticHeaderLines :
    ∀ line ∈ staticHeaderLines filename filesize metaData, IsHeaderLine line := by
  have htype : IsHeaderLine (text "Content-Type: " ++ requestGetFiletype filename) :=
    .append (by decide) (not_mem_requestGetFiletype _ (.inl rfl))
      (not_mem_requestGetFiletype _ (.inr rfl))
  unfold staticHeaderLines statisticsLines
  simp only [List.forall_mem_cons]
  refine ⟨by decide, by decide, .append_toText (by decide) _, htype, .append_toText (by decide) _,
    .append_toText (by decide) _, .append_toText (by decide) _, .append_toText (by decide) _,
    .append_toText (by decide) _, .append_toText (by decide) _, ?_⟩
  intro line hmem
  cases hmem

/-- The only declared length is `filesize`. -/
theorem headerValues_staticHeaderLines :
    headerValues (text "Content-Length: ") (staticHeaderLines filename filesize metaData) =
      [toText filesize] :=
  rfl

/-- A static header before some bytes frames the contents if it declares their length, and these
    bytes are the contents. -/
theorem framed_staticHeader_iff {srcp contents : Text} (hmin : LONG_MIN ≤ filesize)
    (hmax : filesize ≤ LONG_MAX) :
    Framed (staticHeader filename filesize metaData ++ srcp) contents ↔
      filesize = contents.length ∧ srcp = contents := by
  have hlines := isHeaderLine_staticHeaderLines filename filesize metaData
  have hvalues := headerValues_staticHeaderLines filename filesize metaData
  rw [staticHeader_eq]
  constructor
  · intro h
    obtain ⟨lines, hwritten, hall, hlength⟩ := h
    obtain ⟨rfl, hbody⟩ := headerBlock_inj hlines hall hwritten
    rw [hvalues, List.map_singleton, strtol_toText hmin hmax] at hlength
    exact ⟨congrArg Prod.fst (List.singleton_inj.mp hlength), hbody⟩
  · intro h
    obtain ⟨hsize, rfl⟩ := h
    refine ⟨_, rfl, hlines, ?_⟩
    rw [hvalues, List.map_singleton, strtol_toText hmin hmax, hsize]

/-! ## The size of the file -/

/-- A size that is not negative survives the conversion to `int` if it is below `2 ^ 31`. -/
theorem toInt_natCast_iff (n : Nat) : toInt n = n ↔ n < 2 ^ 31 := by
  rw [toInt_eq_iff, FitsInt]
  omega

/-- A size below 2^31 is kept. -/
theorem toSize_natCast {n : Nat} (h : n < 2 ^ 31) : toSize n = n := by
  unfold toSize
  omega

/-- The request is for a readable file with these contents, and every part of it from the start
    can be mapped. -/
structure AsksFor (fs : FileSystem) (buffers : Buffers) (stream contents : Text) : Prop where
  get : sameUpToCase (requestMethod buffers stream) (text "GET")
  headers : HeadersRead buffers stream
  is_static : (parsedURI buffers stream).is_static
  stat : ∃ st_mode, S_ISREG st_mode ∧ S_IRUSR &&& st_mode ≠ 0 ∧
    fs.stat (parsedURI buffers stream).filename = some ⟨st_mode, contents.length⟩
  mmap : ∀ len, 0 < len → len ≤ contents.length →
    fs.mmap (parsedURI buffers stream).filename len = some (contents.take len)

section

variable {fs : FileSystem} {fd : Int} {buffers : Buffers} {stream contents : Text}

/-- The header of the response declares what the size becomes as an `int`. -/
theorem AsksFor.response_eq (h : AsksFor fs buffers stream contents) (metaData : MetaData) :
    (response fs metaData buffers stream).1 =
      staticHeader (parsedURI buffers stream).filename (toInt contents.length)
          { metaData with numStaticRequests := metaData.numStaticRequests + 1 } ++
        (fs.mmap (parsedURI buffers stream).filename (toSize (toInt contents.length))).getD [] := by
  obtain ⟨st_mode, hregular, hreadable, hstat⟩ := h.stat
  rw [response, if_pos h.get]
  dsimp only
  rw [hstat]
  dsimp only
  rw [serveResponse, if_pos h.is_static, if_neg (by simp [hregular, hreadable])]

/-- A response is given only if something can be mapped. -/
theorem AsksFor.toSize_pos (h : AsksFor fs buffers stream contents) {metaData : MetaData}
    {o : Response} (ho : Observes fs fd metaData buffers stream o) :
    0 < toSize (toInt contents.length) := by
  obtain ⟨st_mode, hregular, hreadable, hstat⟩ := h.stat
  have hserve := (ho.eq_response.2 h.get).2 _ hstat
  obtain ⟨srcp, -, hsize, -⟩ := hserve.mmap h.is_static hregular hreadable
  exact hsize

/-- A file that is not empty and whose size fits an `int` is served. -/
theorem AsksFor.canRespond (h : AsksFor fs buffers stream contents) (hpos : 0 < contents.length)
    (hlt : contents.length < 2 ^ 31) : CanRespond fs buffers stream := by
  intro _
  obtain ⟨st_mode, -, -, hstat⟩ := h.stat
  have hmmap := h.mmap _ hpos (Nat.le_refl _)
  rw [List.take_length] at hmmap
  refine ⟨h.headers, ?_⟩
  rw [hstat]
  intro sbuf hsbuf
  cases hsbuf
  refine ⟨Int.natCast_nonneg _, fun _ _ _ => ⟨contents, ?_⟩⟩
  rw [(toInt_natCast_iff _).mpr hlt, toSize_natCast hlt]
  exact ⟨hmmap, hpos, rfl⟩

/-- A static response is framed correctly if the file is not empty and its size fits an `int`, and
    not otherwise. -/
theorem static_framed_iff (h : AsksFor fs buffers stream contents) (metaData : MetaData) :
    ((∃ o, Observes fs fd metaData buffers stream o) ∧
        ∀ o, Observes fs fd metaData buffers stream o → Framed o.1 contents) ↔
      0 < contents.length ∧ contents.length < 2 ^ 31 := by
  obtain ⟨hmin, hmax⟩ := toInt_bounds contents.length
  have hframed := @framed_staticHeader_iff (parsedURI buffers stream).filename
    (toInt contents.length) { metaData with numStaticRequests := metaData.numStaticRequests + 1 }
    ((fs.mmap (parsedURI buffers stream).filename (toSize (toInt contents.length))).getD [])
    contents (by unfold LONG_MIN; omega) (by unfold LONG_MAX; omega)
  constructor
  · intro hall
    obtain ⟨⟨o, ho⟩, hall⟩ := hall
    have hpage := hall o ho
    rw [ho.eq_response.1, h.response_eq, hframed, toInt_natCast_iff] at hpage
    obtain ⟨hlt, -⟩ := hpage
    have hpos := h.toSize_pos ho
    rw [(toInt_natCast_iff _).mpr hlt, toSize_natCast hlt] at hpos
    exact ⟨hpos, hlt⟩
  · intro hsize
    obtain ⟨hpos, hlt⟩ := hsize
    have hint := (toInt_natCast_iff _).mpr hlt
    refine ⟨⟨_, observes_response (h.canRespond hpos hlt)⟩, ?_⟩
    intro o ho
    rw [ho.eq_response.1, h.response_eq, hframed]
    refine ⟨hint, ?_⟩
    rw [hint, toSize_natCast hlt, h.mmap _ hpos (Nat.le_refl _), List.take_length]
    rfl

end

/-! ## One file -/

/-- The file system of a server with one file. -/
def oneFile (contents : Text) : FileSystem where
  stat filename :=
    if filename = text "./public//a" then some ⟨0o100644, contents.length⟩ else none
  mmap filename len :=
    if filename = text "./public//a" then some (contents.take len) else none
  cgi _ _ := []

/-- A request for the file, without headers. -/
def oneFileRequest : Text := text "GET /a HTTP/1.0\r\n\r\n"

/-- A stack with nothing on it. -/
def emptyBuffers : Buffers := ⟨[], [], [], [], [], '/', []⟩

/-- The file that the request asks for. -/
theorem oneFileRequest_filename :
    (parsedURI emptyBuffers oneFileRequest).filename = text "./public//a" := by
  decide

/-- The request asks for the file. -/
theorem asksFor_oneFile (contents : Text) :
    AsksFor (oneFile contents) emptyBuffers oneFileRequest contents where
  get := by decide
  headers := by
    have hrest : (readLine MAXLINE oneFileRequest).2 = text "\r\n" := by decide
    rw [HeadersRead, hrest, headersEnd_iff_exists]
    exact .inr ⟨[], headersEndBefore_of_dvd List.not_mem_nil (Nat.dvd_zero _) []⟩
  is_static := by decide
  stat := by
    rw [oneFileRequest_filename]
    exact ⟨0o100644, by decide, by decide, by simp [oneFile]⟩
  mmap := by
    rw [oneFileRequest_filename]
    simp [oneFile]

/-- A file of two bytes. -/
theorem static_framed_two : AsksFor (oneFile (text "hi")) emptyBuffers oneFileRequest (text "hi") ∧
    (((∃ o, Observes (oneFile (text "hi")) 4 ⟨⟨0, 0⟩, ⟨0, 0⟩, 0, 1, 0, 0⟩ emptyBuffers
          oneFileRequest o) ∧
        ∀ o, Observes (oneFile (text "hi")) 4 ⟨⟨0, 0⟩, ⟨0, 0⟩, 0, 1, 0, 0⟩ emptyBuffers
          oneFileRequest o → Framed o.1 (text "hi")) ↔
      0 < (text "hi").length ∧ (text "hi").length < 2 ^ 31) :=
  ⟨asksFor_oneFile _, static_framed_iff (asksFor_oneFile _) _⟩

/-- An empty file is not served: the server ends. -/
theorem empty_file_not_served : AsksFor (oneFile []) emptyBuffers oneFileRequest [] ∧
    ¬ ∃ o, Observes (oneFile []) 4 ⟨⟨0, 0⟩, ⟨0, 0⟩, 0, 1, 0, 0⟩ emptyBuffers oneFileRequest o := by
  refine ⟨asksFor_oneFile [], ?_⟩
  intro h
  obtain ⟨o, ho⟩ := h
  exact absurd ((asksFor_oneFile []).toSize_pos ho) (by decide)

end OsWet
