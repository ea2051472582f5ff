/-
# EpollDemo.Server — the echo server of epoll_server.c

One process, one buffer.  `do_epoll` waits for a batch of events and
`handle_events` works through it: accept a client, read a message into `buf`, or
write the string in `buf` to a client.  A step of the model is one `epoll_wait`
(`Label.epollWait`) or one event of the batch (`Label.handle`); the label carries
what the kernel decides, so a run of labels is one possible history.

* `read(fd, buf, MAXSIZE)` stores its bytes at the start of `buf` and leaves the
  rest, and neither a terminator nor the length is kept.
* `printf("%s", buf)` and `strlen(buf)` scan for a NUL.  If `buf` has none they
  go on into the memory behind it, up to a NUL there; `beyond` is what they find,
  and the scan is logged as not terminated.
* Descriptors are closed before they are deleted from the interest set.  Closing
  removes the registration, and the delete that follows fails.

Every batch entry remembers the file its descriptor named when it was reported
(`Pending.origin`); the code does not look at it.
-/
import UnixDemos.Library.CString
import UnixDemos.Library.Descriptor
import UnixDemos.Library.Run
import UnixDemos.Library.Stream

namespace UnixDemos.EpollServer

open UnixDemos.Library

set_option autoImplicit false

/-- `MAXSIZE`. -/
def maxSize : Nat := 1024

/-- `EPOLLEVENTS`. -/
def epollEvents : Nat := 100

/-! ## State -/

/-- What a descriptor of the server names; clients are numbered as accepted. -/
inductive File where
  | inherited
  | listening
  | epoll
  | client (c : Nat)
  deriving DecidableEq, Repr

/-- What the server does that can be observed. -/
inductive Io where
  | accepted (c : Nat)
  | received (c : Nat) (data : Bytes)
  | sent (c : Nat) (data : Bytes)
  | sendFailed (file : Option File)
  | scanned (terminated : Bool)
  | printf (format : String) (argument : Bytes)
  | perror (message : String)
  | fprintf (message : String)
  deriving DecidableEq, Repr

structure Pending where
  event : EpollEvent
  origin : Option File
  deriving DecidableEq, Repr

structure Server where
  listenfd : Nat
  fds : FdTable File
  interest : InterestSet
  buf : Bytes
  pending : List Pending
  accepted : Nat
  log : List Io
  exited : Bool

/-- The answer of the one system call a handler makes: the failed call is
`false` or `none`, and `read` answers end of file with no bytes. -/
inductive Answer where
  | accept (ok : Bool)
  | read (result : Option Bytes) (beyond : Bytes)
  | write (result : Option Nat) (beyond : Bytes)
  deriving DecidableEq, Repr

inductive Label where
  | epollWait (ready : Option (List EpollEvent))
  | handle (answer : Answer)
  deriving DecidableEq, Repr

variable (s : Server)

/-! ## Descriptors and registration -/

def Server.note (entry : Io) : Server := { s with log := s.log ++ [entry] }

def Server.isOpen (fd : Nat) : Bool := (s.fds.file fd).isSome

def addEvent (fd : Nat) (state : Mask) : Server :=
  { s with interest := epollCtl (s.isOpen fd) s.interest .add fd state }

def deleteEvent (fd : Nat) (state : Mask) : Server :=
  { s with interest := epollCtl (s.isOpen fd) s.interest .del fd state }

def modifyEvent (fd : Nat) (state : Mask) : Server :=
  { s with interest := epollCtl (s.isOpen fd) s.interest .mod fd state }

/-- `close(fd)`, which also takes the descriptor out of the interest set. -/
def Server.close (fd : Nat) : Server :=
  { s with fds := s.fds.close fd, interest := Function.update s.interest fd none }

/-- The string a scan of `buf` finds when `beyond` is what lies behind it. -/
def Server.text (beyond : Bytes) : Bytes := cstr (s.buf ++ beyond)

def Server.scan : Server := s.note (.scanned (decide (0 ∈ s.buf)))

def Server.memset : Server := { s with buf := zeros maxSize }

/-! ## The handlers -/

def handleAccept : Answer → Option Server
  | .accept false => some (s.note (.perror "accept error"))
  | .accept true =>
      let clifd := s.fds.lowestFree
      let s := { s with fds := s.fds.install (.client s.accepted), accepted := s.accepted + 1 }
      some (addEvent (s.note (.accepted (s.accepted - 1))) clifd epollin)
  | _ => none

/-- Only an open client can answer with bytes; any other descriptor answers with
an error. -/
def doRead (fd : Nat) : Answer → Option Server
  | .read none _ => some (deleteEvent ((s.note (.perror "read error")).close fd) fd epollin)
  | .read (some data) beyond =>
      match s.fds.file fd with
      | some (.client c) =>
          if data.length ≤ maxSize then
            let s := { s with buf := overwrite s.buf data }
            if data.length = 0 then
              some (deleteEvent ((s.note (.fprintf "client close.\n")).close fd) fd epollin)
            else
              let s := s.note (.received c data)
              let s := s.scan.note (.printf "read message: %s" (s.text beyond))
              some (modifyEvent s fd epollout)
          else none
      | _ => none
  | _ => none

def doWrite (fd : Nat) : Answer → Option Server
  | .write none _ =>
      let s := s.scan.note (.sendFailed (s.fds.file fd))
      let s := deleteEvent ((s.note (.perror "write error")).close fd) fd epollout
      some s.memset
  | .write (some nwrite) beyond =>
      match s.fds.file fd with
      | some (.client c) =>
          if nwrite ≤ (s.text beyond).length then
            let s := s.scan.note (.sent c ((s.text beyond).take nwrite))
            let s := modifyEvent s fd epollin
            some s.memset
          else none
      | _ => none
  | _ => none

/-- The body of the loop in `handle_events`. -/
def handleEvent (e : EpollEvent) (answer : Answer) : Option Server :=
  if e.fd = s.listenfd ∧ e.events &&& epollin ≠ 0 then handleAccept s answer
  else if e.events &&& epollin ≠ 0 then doRead s e.fd answer
  else if e.events &&& epollout ≠ 0 then doWrite s e.fd answer
  else some s

/-- `do_epoll` from its loop on. -/
def Server.step : Label → Option Server
  | .epollWait ready =>
      if s.exited = false ∧ s.pending = [] then
        match ready with
        | none => some { s.note (.perror "epoll wait error") with exited := true }
        | some ready =>
            if Reportable s.interest epollEvents ready then
              some { s with pending := ready.map fun e => ⟨e, s.fds.file e.fd⟩ }
            else none
      else none
  | .handle answer =>
      match s.pending with
      | [] => none
      | p :: rest => handleEvent { s with pending := rest } p.event answer

/-- `main` up to the loop, started with some inherited descriptors open and with
every setup call succeeding: `socket`, `epoll_create`, and the registration of
the listening socket. -/
def start (inherited : List Bool) : Server :=
  let table : FdTable File := inherited.map fun isOpen => if isOpen then some .inherited else none
  let listenfd := table.lowestFree
  let fds := (table.install .listening).install .epoll
  addEvent ⟨listenfd, fds, fun _ => none, zeros maxSize, [], 0, [], false⟩ listenfd epollin

/-! ## What each connection saw -/

/-- A `do_read` that returned data, or a `do_write` with what it sent, `none` if it
failed. -/
inductive Turn where
  | read (data : Bytes)
  | write (sent : Option Bytes)
  deriving DecidableEq, Repr

def Io.turn (c : Nat) : Io → Option Turn
  | .received c' data => if c' = c then some (.read data) else none
  | .sent c' data => if c' = c then some (.write (some data)) else none
  | .sendFailed file => if file = some (.client c) then some (.write none) else none
  | _ => none

/-- The reads and writes of connection `c`, in order. -/
def trace (c : Nat) (log : List Io) : List Turn := log.filterMap (Io.turn c)

def Turn.received : Turn → Option Bytes
  | .read data => some data
  | .write _ => none

def Turn.sent : Turn → Option Bytes
  | .read _ => none
  | .write sent => sent

/-- The messages `do_read` got from connection `c`. -/
def receivedFrom (c : Nat) (log : List Io) : List Bytes := (trace c log).filterMap Turn.received

/-- The messages successful `do_write` calls sent to connection `c`. -/
def sentTo (c : Nat) (log : List Io) : List Bytes := (trace c log).filterMap Turn.sent

/-- The descriptors registered for `EPOLLOUT`. -/
def Server.waiting : List Nat :=
  (List.range s.fds.length).filter fun fd => s.interest fd = some epollout

end UnixDemos.EpollServer
