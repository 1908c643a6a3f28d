import OsWet.Native.RequestStrings

/-!
# The client

`client.c`: one request, and the response printed as it is read. What goes to the terminal is
the value that `clientPrint` returns. `sprintf` into the buffer that it also reads from appends, as
it does in glibc.
-/

namespace OsWet

open Text

/-- What `clientSend` puts into its `buf`. -/
def clientRequest (hostname filename : Text) : Text :=
  text "GET " ++ filename ++ text " HTTP/1.1\n" ++
  text "host: " ++ hostname ++ text "\n\r\n"

/-- `clientSend`, on a host with this name. -/
def clientSend (fd : Int) (hostname filename : Text) : ServerProcess Unit :=
  Rio_writen fd (clientRequest hostname filename)

/-- `Rio_readlineb` with the number that it returns. -/
def Rio_readlinebCount (rp : Rio) (usrbuf : Text) (maxlen : Nat) :
    ServerProcess (Int × Text × Rio) := do
  let (rc, line, rp) ← rio_readlineb rp maxlen
  if rc < 0 then unix_error "Rio_readlineb error"
  else return (rc, line.getD usrbuf, rp)

/-- `%d` of `sscanf`, with `none` when there is no number. -/
def scanInt (s : Text) : Option Int :=
  let (n, rest) := strtol s
  if rest = s then none else some (toInt n)

/-- What `clientPrint` prints when `sscanf(buf, "Content-Length: %d ", &length)` finds a
    number. -/
def lengthShown (buf : Text) : Text :=
  let name := text "Content-Length:"
  if name.isPrefixOf (cString buf) then
    match scanInt ((cString buf).drop name.length) with
    | some length => text "Length = " ++ toText length ++ text "\n"
    | none => []
  else []

/-- The variables of `clientPrint`, and what it has printed. -/
structure ClientPrint where
  n : Int
  buf : Text
  rio : Rio
  printed : Text
  deriving DecidableEq, Repr

/-- A round of the loop over the headers. -/
def clientHeaderRound (s : ClientPrint) : ServerProcess (ClientPrint ⊕ ClientPrint) := do
  if cString s.buf ≠ text "\r\n" ∧ 0 < s.n then
    let (n, buf, rio) ← Rio_readlinebCount s.rio s.buf MAXBUF
    return .inl ⟨n, buf, rio, s.printed ++ text "Header: " ++ cString s.buf ++ lengthShown buf⟩
  else return .inr s

/-- A round of the loop over the body. -/
def clientBodyRound (s : ClientPrint) : ServerProcess (ClientPrint ⊕ Text) := do
  if 0 < s.n then
    let (n, buf, rio) ← Rio_readlinebCount s.rio s.buf MAXBUF
    return .inl ⟨n, buf, rio, s.printed ++ cString s.buf⟩
  else return .inr s.printed

/-- The input that is left for a loop of `clientPrint`. -/
def ClientPrint.inputLeft (s : ClientPrint) (answers : List SysAnswer) : Nat :=
  s.rio.inputLeft answers

/-- `clientPrint`, with what its `buf` holds at the start. -/
def clientPrint (fd : Int) (buf : Text) : ServerProcess Text := do
  let (n, buf, rio) ← Rio_readlinebCount (Rio_readinitb fd) buf MAXBUF
  let s ← Process.iterate ClientPrint.inputLeft clientHeaderRound ⟨n, buf, rio, []⟩
  let (n, buf, rio) ← Rio_readlinebCount s.rio s.buf MAXBUF
  Process.iterate ClientPrint.inputLeft clientBodyRound ⟨n, buf, rio, s.printed⟩

end OsWet
