import OsWet.ForStd.FixedBuffers
import OsWet.Native.Request

/-!
# The strings of a request

`requestHandle`, `requestParseURI` and `requestError` once more, as they fill their arrays, one
string after the other. What they do else is in `OsWet.Native.Request`, and so is what they
compute when the arrays are large enough.
-/

namespace OsWet

open Text

/-- The size of the array for an error page. -/
def MAXBUF : Nat := 8192

/-- The arrays of `requestHandle` and, at the end, those of `requestError`. -/
inductive StringArray where
  | method
  | uri
  | version
  | filename
  | cgiargs
  | buf
  | body
  deriving DecidableEq, Repr

/-- The arrays are declared with these sizes. -/
def StringArray.size : StringArray → Nat
  | .body => MAXBUF
  | _ => MAXLINE

/-- What the arrays hold, as strings. -/
abbrev Strings : Type := StringArray → Text

/-- Code that only works on the arrays. -/
abbrev StringCode : Type → Type := BufferCode StringArray Char

/-- `strcpy`, and `sprintf` with the string that it makes. -/
def strcpy (dest : StringArray) (s : Text) : StringCode Unit := store StringArray.size dest s

/-- `strcat`, and `sprintf` into an array that it starts with. -/
def strcat (dest : StringArray) (s : Text) : StringCode Unit := do
  strcpy dest ((← held dest) ++ s)

def requestErrorStrings (cause errnum shortmsg longmsg : Text) : StringCode Unit := do
  strcpy .body (text "<html><title>OS-HW3 Error</title>")
  strcat .body (text "<body bgcolor=fffff>\r\n")
  strcat .body (errnum ++ text ": " ++ shortmsg ++ text "\r\n")
  strcat .body (text "<p>" ++ longmsg ++ text ": " ++ cause ++ text "\r\n")
  strcat .body (text "<hr>OS-HW3 Web Server\r\n")
  -- header
  strcpy .buf (text "HTTP/1.0 " ++ errnum ++ text " " ++ shortmsg ++ text "\r\n")
  strcpy .buf (text "Content-Type: text/html\r\n")
  let body ← held .body
  strcpy .buf (text "Content-Length: " ++ toText body.length ++ text "\r\n\r\n")

/-- `requestParseURI`: what it returns. -/
def requestParseURIStrings (beforeUri : Char) : StringCode Bool := do
  let uri ← held .uri
  if (find (text "..") uri).isSome then
    strcpy .filename (text "./public/home.html")
    return true
  else if (find (text "cgi") uri).isNone then
    -- static
    strcpy .cgiargs []
    strcpy .filename (text "./public/" ++ uri)
    if uri.getLast?.getD beforeUri = '/' then
      strcat .filename (text "home.html")
    return true
  else
    -- dynamic
    if '?' ∈ uri then
      strcpy .cgiargs ((uri.dropWhile (· ≠ '?')).drop 1)
      cut .uri (uri.takeWhile (· ≠ '?')).length
    else
      strcpy .cgiargs []
    let uri ← held .uri
    strcpy .filename (text "./public/" ++ uri)
    return false

/-- `sscanf(buf, "%s %s %s", method, uri, version)`. -/
def sscanf (buf : Text) : StringCode Unit :=
  match words (cString buf) with
  | [] => return ()
  | [method] => strcpy .method method
  | [method, uri] => do
    strcpy .method method
    strcpy .uri uri
  | method :: uri :: version :: _ => do
    strcpy .method method
    strcpy .uri uri
    strcpy .version version

/-- The part of `requestHandle` after the call of `stat`, with what it finds. -/
def requestServeStrings (is_static : Bool) (filename : Text) (found : Option Stat) :
    StringCode Unit :=
  match found with
  | none =>
    requestErrorStrings filename (text "404") (text "Not found")
      (text "OS-HW3 Server could not find this file")
  | some sbuf =>
    if is_static then
      if !S_ISREG sbuf.st_mode || S_IRUSR &&& sbuf.st_mode = 0 then
        requestErrorStrings filename (text "403") (text "Forbidden")
          (text "OS-HW3 Server could not read this file")
      else return ()
    else
      if !S_ISREG sbuf.st_mode || S_IXUSR &&& sbuf.st_mode = 0 then
        requestErrorStrings filename (text "403") (text "Forbidden")
          (text "OS-HW3 Server could not run this CGI program")
      else return ()

/-- `requestHandle` after it has read the line `buf`, with what `stat` finds then. -/
def requestHandleStrings (buf : Text) (beforeUri : Char) (found : Option Stat) :
    StringCode Unit := do
  sscanf buf
  let method ← held .method
  if sameUpToCase method (text "GET") then
    let is_static ← requestParseURIStrings beforeUri
    requestServeStrings is_static (← held .filename) found
  else
    requestErrorStrings method (text "501") (text "Not Implemented")
      (text "OS-HW3 Server does not implement this method")

end OsWet
