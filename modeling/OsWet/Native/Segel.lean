import OsWet.ForStd.Process
import OsWet.Native.Text
import Mathlib.Algebra.GroupWithZero.Nat

/-!
# The wrappers of the system calls, and robust I/O

The part of `segel.c` that a request goes through. Bytes are characters. `unix_error`
prints a message and terminates the process: it is the only fault.
-/

namespace OsWet

open Text

/-- `errno`, as far as the code looks at it. -/
inductive Errno where
  | EINTR
  | other
  deriving DecidableEq, Repr

/-- The fields of `struct stat` that are looked at. -/
structure Stat where
  st_mode : Nat
  st_size : Int
  deriving DecidableEq, Repr

/-- A system call that a request makes. With `fork` goes what the child executes, and its
    `QUERY_STRING`. -/
inductive SysCall where
  | read (fd : Int) (count : Nat)
  | write (fd : Int) (data : Text)
  | stat (filename : Text)
  | open (filename : Text)
  | mmap (length : Nat) (fd : Int)
  | close (fd : Int)
  | munmap (length : Nat)
  | fork (filename cgiargs : Text)
  | waitpid (pid : Int)
  deriving DecidableEq, Repr

/-- The answer to a system call; `none` is a failure. A `write` that writes nothing is a
    failure with the value that `errno` has then. -/
inductive SysAnswer where
  | read (result : Except Errno Text)
  | write (result : Except Errno Nat)
  | stat (result : Option Stat)
  | open (result : Option Int)
  | mmap (result : Option Text)
  | close (result : Option Unit)
  | munmap (result : Option Unit)
  | fork (result : Option Int)
  | waitpid (result : Option Unit)
  deriving Repr

/-- The answers that a system call can have. Nothing can be mapped with length 0. -/
def SysCall.allows : SysCall → SysAnswer → Bool
  | .read _ count, .read (.ok bytes) => bytes.length ≤ count
  | .read _ _, .read (.error _) => true
  | .write _ data, .write (.ok n) => 0 < n && n ≤ data.length
  | .write _ _, .write (.error _) => true
  | .stat _, .stat (some sbuf) => 0 ≤ sbuf.st_size
  | .stat _, .stat none => true
  | .open _, .open (some fd) => 0 ≤ fd
  | .open _, .open none => true
  | .mmap length _, .mmap (some bytes) => 0 < length && bytes.length = length
  | .mmap _ _, .mmap none => true
  | .close _, .close _ => true
  | .munmap _, .munmap _ => true
  | .fork _ _, .fork (some pid) => 0 < pid
  | .fork _ _, .fork none => true
  | .waitpid _, .waitpid _ => true
  | _, _ => false

/-- The server process, with the message of `unix_error` as its fault. -/
abbrev ServerProcess : Type → Type := Process SysCall SysAnswer Text

/-- A system call, with an answer that it can have. -/
def syscall (call : SysCall) : ServerProcess SysAnswer := Process.ask SysCall.allows call

/-- The error function of the wrappers, which ends the process. -/
def unix_error {α : Type} (msg : String) : ServerProcess α := Process.fault (text msg)

/-! ## Wrappers -/

/-- A wrapper returns what the call gives, and ends the process when it fails. -/
def wrapper {α : Type} (call : SysCall) (result : SysAnswer → Option α) (msg : String) :
    ServerProcess α := do
  match result (← syscall call) with
  | some a => return a
  | none => unix_error msg

/-- `Fork` in the server process, for a child that executes `filename`. -/
def Fork (filename cgiargs : Text) : ServerProcess Int :=
  wrapper (.fork filename cgiargs) (fun | .fork result => result | _ => none) "Fork error"

def WaitPid (pid : Int) : ServerProcess Unit :=
  wrapper (.waitpid pid) (fun | .waitpid result => result | _ => none) "Wait error"

def Open (pathname : Text) : ServerProcess Int :=
  wrapper (.open pathname) (fun | .open result => result | _ => none) "Open error"

def Close (fd : Int) : ServerProcess Unit :=
  wrapper (.close fd) (fun | .close result => result | _ => none) "Close error"

/-- `Mmap`, with the memory that is mapped. -/
def Mmap (len : Nat) (fd : Int) : ServerProcess Text :=
  wrapper (.mmap len fd) (fun | .mmap result => result | _ => none) "mmap error"

def Munmap (length : Nat) : ServerProcess Unit :=
  wrapper (.munmap length) (fun | .munmap result => result | _ => none) "munmap error"

/-! ## Robust output -/

/-- How many answers are left. -/
def answersLeft {σ : Type} (_ : σ) (answers : List SysAnswer) : Nat := answers.length

/-- A round of the loop of `rio_writen`; `bufp` is what is left to write. -/
def rio_writenRound (fd : Int) (bufp : Text) : ServerProcess (Text ⊕ Bool) := do
  -- `nleft` is 0
  if bufp = [] then return .inr true
  else
    match ← syscall (.write fd bufp) with
    | .write (.ok nwritten) => return .inl (bufp.drop nwritten)
    | .write (.error .EINTR) => return .inl bufp
    -- `errno` is something else than `EINTR`
    | _ => return .inr false

/-- `rio_writen`: whether all of `usrbuf` is written, and not -1 returned. -/
def rio_writen (fd : Int) (usrbuf : Text) : ServerProcess Bool :=
  Process.iterate answersLeft (rio_writenRound fd) usrbuf

def Rio_writen (fd : Int) (usrbuf : Text) : ServerProcess Unit := do
  if ← rio_writen fd usrbuf then return ()
  else unix_error "Rio_writen error"

/-! ## Robust input -/

/-- The size of the buffer of `rio_t`. -/
def RIO_BUFSIZE : Nat := 8192

/-- `rio_t`; `rio_buf` holds the unread bytes only, and `rio_cnt` is its length. -/
structure Rio where
  rio_fd : Int
  rio_buf : Text
  deriving DecidableEq, Repr

def Rio_readinitb (fd : Int) : Rio where
  rio_fd := fd
  rio_buf := []

/-- The input that is left: the unread bytes, and the answers with what they bring. -/
def Rio.inputLeft (rp : Rio) (answers : List SysAnswer) : Nat :=
  rp.rio_buf.length + (answers.map fun
    | .read (.ok bytes) => bytes.length + 1
    | _ => 1).sum

/-- A round of the loop of `rio_read` that refills the buffer: the loop ends with the value
    that `rio_read` returns then, or with bytes in the buffer. -/
def rio_readRound (rp : Rio) : ServerProcess (Rio ⊕ Except Int Rio) := do
  if rp.rio_buf ≠ [] then return .inr (.ok rp)
  else
    match ← syscall (.read rp.rio_fd RIO_BUFSIZE) with
    -- end of the input
    | .read (.ok []) => return .inr (.error 0)
    | .read (.ok bytes) => return .inl { rp with rio_buf := bytes }
    | .read (.error .EINTR) => return .inl rp
    -- `errno` is something else than `EINTR`
    | _ => return .inr (.error (-1))

/-- `rio_read`: what it returns, the bytes it copies to the user, and the new `*rp`. -/
def rio_read (rp : Rio) (n : Nat) : ServerProcess (Int × Text × Rio) := do
  match ← Process.iterate answersLeft rio_readRound rp with
  | .error rc => return (rc, [], { rp with rio_buf := [] })
  | .ok rp =>
    -- no more than is asked for, and no more than there is
    let cnt := min n rp.rio_buf.length
    return (cnt, rp.rio_buf.take cnt, { rp with rio_buf := rp.rio_buf.drop cnt })

/-- The loop of `rio_readlineb` with its index, the bytes read so far, and `*rp`. -/
structure ReadLine where
  n : Nat
  bytes : Text
  rp : Rio
  deriving DecidableEq, Repr

/-- A round of the loop of `rio_readlineb`. It ends with what the function returns, what is
    put into `usrbuf` if anything is, and `*rp`. -/
def rio_readlinebRound (maxlen : Nat) (s : ReadLine) :
    ServerProcess (ReadLine ⊕ Int × Option Text × Rio) := do
  if s.n < maxlen then
    let (rc, c, rp) ← rio_read s.rp 1
    if rc = 1 then
      if c = ['\n'] then return .inr (s.n, some (s.bytes ++ c), rp)
      else return .inl ⟨s.n + 1, s.bytes ++ c, rp⟩
    else if rc = 0 then
      -- end of the input: nothing read, or a last line without a line feed
      if s.n = 1 then return .inr (0, none, rp)
      else return .inr (s.n, some s.bytes, rp)
    else return .inr (-1, none, rp)
  -- `usrbuf` is full
  else return .inr (s.n, some s.bytes, s.rp)

/-- `rio_readlineb`: what it returns, what it puts into `usrbuf`, and the new `*rp`. At the
    end of the input it returns 0 and leaves `usrbuf` as it is. -/
def rio_readlineb (rp : Rio) (maxlen : Nat) : ServerProcess (Int × Option Text × Rio) :=
  Process.iterate (fun s _ => maxlen - s.n) (rio_readlinebRound maxlen) ⟨1, [], rp⟩

/-- `Rio_readlineb`: the new contents of `usrbuf`, and the new `*rp`. -/
def Rio_readlineb (rp : Rio) (usrbuf : Text) (maxlen : Nat) : ServerProcess (Text × Rio) := do
  let (rc, line, rp) ← rio_readlineb rp maxlen
  if rc < 0 then unix_error "Rio_readlineb error"
  else return (line.getD usrbuf, rp)

end OsWet
