import OsWet.Native.Message
import OsWet.Native.Segel

/-!
# Handling a request

`request.c` in the server process, down to its system calls. What the CGI child does, and
what the server prints on its own terminal, is not in the model. `sprintf` into the buffer
that it also reads from appends, as it does in glibc.
-/

namespace OsWet

open Text

/-- The size of the arrays of strings. -/
def MAXLINE : Nat := 8192

/-- What `requestHandle` returns for a request that it answers with an error page. -/
def HW3_INVALID_VALUE : Int := -1

/-- The string in a buffer: what stands before the first NUL. -/
def cString (buf : Text) : Text := buf.takeWhile (· ≠ '\x00')

/-- `strcasecmp` finds no difference. -/
def sameUpToCase (s s' : Text) : Bool := s.map Char.toLower = s'.map Char.toLower

/-- What the arrays on the stack hold before they are written to, as strings:
    those of `requestHandle`, the character before `uri`, and `buf` of `requestReadhdrs`. -/
structure Buffers where
  buf : Text
  method : Text
  uri : Text
  filename : Text
  cgiargs : Text
  beforeUri : Char
  headerBuf : Text
  deriving DecidableEq, Repr

/-! ## Error pages -/

/-- The `body` of `requestError`. -/
def errorBody (cause errnum shortmsg longmsg : Text) : Text :=
  text "<html><title>OS-HW3 Error</title>" ++
  text "<body bgcolor=fffff>\r\n" ++
  errnum ++ text ": " ++ shortmsg ++ text "\r\n" ++
  text "<p>" ++ longmsg ++ text ": " ++ cause ++ text "\r\n" ++
  text "<hr>OS-HW3 Web Server\r\n"

def requestError (fd : Int) (cause errnum shortmsg longmsg : Text) : ServerProcess Unit := do
  let body := errorBody cause errnum shortmsg longmsg
  -- header
  Rio_writen fd (text "HTTP/1.0 " ++ errnum ++ text " " ++ shortmsg ++ text "\r\n")
  Rio_writen fd (text "Content-Type: text/html\r\n")
  Rio_writen fd (text "Content-Length: " ++ toText body.length ++ text "\r\n\r\n")
  -- content
  Rio_writen fd body

/-! ## Reading and parsing -/

/-- A round of the loop of `requestReadhdrs`, on `buf` and `*rp`. -/
def requestReadhdrsRound (s : Text × Rio) : ServerProcess (Text × Rio ⊕ Rio) := do
  if cString s.1 = text "\r\n" then return .inr s.2
  else return .inl (← Rio_readlineb s.2 s.1 MAXLINE)

/-- `requestReadhdrs`, with what its `buf` holds at the start; the new `*rp`. -/
def requestReadhdrs (rp : Rio) (buf : Text) : ServerProcess Rio := do
  Process.iterate (fun s => s.2.inputLeft) requestReadhdrsRound
    (← Rio_readlineb rp buf MAXLINE)

/-- What `requestParseURI` returns and leaves in its arguments. -/
structure ParsedURI where
  is_static : Bool
  uri : Text
  filename : Text
  cgiargs : Text
  deriving DecidableEq, Repr

/-- `requestParseURI`. For an empty `uri` it looks at the character before the array. -/
def requestParseURI (uri cgiargs : Text) (beforeUri : Char) : ParsedURI :=
  -- `cgiargs` is left alone here
  if (find (text "..") uri).isSome then
    { is_static := true, uri, filename := text "./public/home.html", cgiargs }
  else if (find (text "cgi") uri).isNone then
    -- static
    let filename := text "./public/" ++ uri
    { is_static := true, uri, cgiargs := []
      filename :=
        if uri.getLast?.getD beforeUri = '/' then filename ++ text "home.html" else filename }
  else
    -- dynamic
    let beforePtr := uri.takeWhile (· ≠ '?')
    { is_static := false, uri := beforePtr, filename := text "./public/" ++ beforePtr
      cgiargs := (uri.dropWhile (· ≠ '?')).drop 1 }

def requestGetFiletype (filename : Text) : Text :=
  if (find (text ".html") filename).isSome then text "text/html"
  else if (find (text ".gif") filename).isSome then text "image/gif"
  else if (find (text ".jpg") filename).isSome then text "image/jpeg"
  else text "text/plain"

/-! ## Serving -/

/-- The lines on the request and on the thread in the header of a response. -/
def statistics (metaData : MetaData) : Text :=
  text "Stat-Req-Arrival: " ++ toText (convertTimeValToMSULong metaData.arrivalTime) ++
    text "\r\n" ++
  text "Stat-Req-Dispatch: " ++ toText (convertTimeValToMSULong metaData.dispatchTime) ++
    text "\r\n" ++
  text "Stat-Thread-Id: " ++ toText metaData.threadID ++ text "\r\n" ++
  text "Stat-Thread-Count: " ++ toText metaData.requestsCount ++ text "\r\n" ++
  text "Stat-Thread-Static: " ++ toText metaData.numStaticRequests ++ text "\r\n" ++
  text "Stat-Thread-Dynamic: " ++ toText metaData.numDynamicRequests ++ text "\r\n"

/-- The server's part of the header of a dynamic response. -/
def dynamicHeader (metaData : MetaData) : Text :=
  text "HTTP/1.0 200 OK\r\n" ++
  text "Server: OS-HW3 Web Server\r\n" ++
  statistics metaData

/-- `requestServeDynamic` in the server process. -/
def requestServeDynamic (fd : Int) (filename cgiargs : Text) (metaData : MetaData) :
    ServerProcess Unit := do
  Rio_writen fd (dynamicHeader metaData)
  let forkedPID ← Fork filename cgiargs
  WaitPid forkedPID

/-- The header of a static response. -/
def staticHeader (filename : Text) (filesize : Int) (metaData : MetaData) : Text :=
  text "HTTP/1.0 200 OK\r\n" ++
  text "Server: OS-HW3 Web Server\r\n" ++
  text "Content-Length: " ++ toText filesize ++ text "\r\n" ++
  text "Content-Type: " ++ requestGetFiletype filename ++ text "\r\n" ++
  statistics metaData ++ text "\r\n"

/-- The conversion of an `int` to `size_t`. -/
def toSize (n : Int) : Nat := (n % 2 ^ 64).toNat

def requestServeStatic (fd : Int) (filename : Text) (filesize : Int) (metaData : MetaData) :
    ServerProcess Unit := do
  let srcfd ← Open filename
  -- the file is mapped with the size that `stat` gave
  let srcp ← Mmap (toSize filesize) srcfd
  Close srcfd
  Rio_writen fd (staticHeader filename filesize metaData)
  Rio_writen fd srcp
  Munmap (toSize filesize)

/-! ## The request -/

/-- The file is a regular one. -/
def S_ISREG (st_mode : Nat) : Bool := st_mode &&& 0o170000 = 0o100000

/-- The owner may read the file. -/
def S_IRUSR : Nat := 0o400

/-- The owner may execute the file. -/
def S_IXUSR : Nat := 0o100

/-- `stat`, with `none` for a negative result. -/
def stat (filename : Text) : ServerProcess (Option Stat) := do
  match ← syscall (.stat filename) with
  | .stat result => return result
  | _ => return none

/-- The part of `requestHandle` after `stat`. -/
def requestServe (fd : Int) (metaData : MetaData) (parsed : ParsedURI) (sbuf : Stat) :
    ServerProcess (Int × MetaData) := do
  if parsed.is_static then
    if !S_ISREG sbuf.st_mode || S_IRUSR &&& sbuf.st_mode = 0 then
      requestError fd parsed.filename (text "403") (text "Forbidden")
        (text "OS-HW3 Server could not read this file")
      return (HW3_INVALID_VALUE, metaData)
    else
      let metaData := { metaData with numStaticRequests := metaData.numStaticRequests + 1 }
      -- `st_size` becomes an `int`
      requestServeStatic fd parsed.filename (toInt sbuf.st_size) metaData
      return (1, metaData)
  else
    if !S_ISREG sbuf.st_mode || S_IXUSR &&& sbuf.st_mode = 0 then
      requestError fd parsed.filename (text "403") (text "Forbidden")
        (text "OS-HW3 Server could not run this CGI program")
      return (HW3_INVALID_VALUE, metaData)
    else
      let metaData := { metaData with numDynamicRequests := metaData.numDynamicRequests + 1 }
      requestServeDynamic fd parsed.filename parsed.cgiargs metaData
      return (0, metaData)

/-- `requestHandle`: what it returns, and the new `*metaData`. -/
def requestHandle (fd : Int) (metaData : MetaData) (buffers : Buffers) :
    ServerProcess (Int × MetaData) := do
  let (buf, rio) ← Rio_readlineb (Rio_readinitb fd) buffers.buf MAXLINE
  -- `sscanf` leaves alone what it finds no word for
  let found := words (cString buf)
  let method := found[0]?.getD buffers.method
  let uri := found[1]?.getD buffers.uri
  -- the only method there is
  if sameUpToCase method (text "GET") then
    let _ ← requestReadhdrs rio buffers.headerBuf
    let parsed := requestParseURI uri buffers.cgiargs buffers.beforeUri
    match ← stat parsed.filename with
    | none =>
      requestError fd parsed.filename (text "404") (text "Not found")
        (text "OS-HW3 Server could not find this file")
      return (HW3_INVALID_VALUE, metaData)
    | some sbuf => requestServe fd metaData parsed sbuf
  else
    requestError fd method (text "501") (text "Not Implemented")
      (text "OS-HW3 Server does not implement this method")
    return (HW3_INVALID_VALUE, metaData)

end OsWet
