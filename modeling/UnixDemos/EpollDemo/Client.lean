/-
# EpollDemo.Client — the echo client of epoll_cli.c

The client copies standard input to the socket and the socket to standard
output through one `buf`.  Standard input is registered throughout; the socket is
registered for `EPOLLOUT` when a chunk was read from standard input, then for
`EPOLLIN`, and standard output for `EPOLLOUT` when a reply was read.

`add_event` on a registered descriptor fails and changes nothing, so a chunk read
from standard input while the socket waits for a reply changes `buf` and nothing
else.  It fails as well on a regular file, such as a redirected standard output, and
nobody looks: whether the registration behind a read is made is part of the answer.
Standard input is taken to be one that can be registered; otherwise the client waits
for ever.

`buf` is not initialised by the source, so `start` takes its contents.
-/
import UnixDemos.Library.CString
import UnixDemos.Library.Descriptor
import UnixDemos.Library.Run
import UnixDemos.Library.Stream

namespace UnixDemos.EpollClient

open UnixDemos.Library

set_option autoImplicit false

/-- `MAXSIZE`. -/
def maxSize : Nat := 1024

/-- `EPOLLEVENTS`. -/
def epollEvents : Nat := 100

/-- `STDIN_FILENO`. -/
def stdin : Nat := 0

/-- `STDOUT_FILENO`. -/
def stdout : Nat := 1

/-- The connected socket, opened after the standard streams. -/
structure Socket where
  fd : Nat
  opened : 2 < fd

/-! ## State and steps -/

inductive Io where
  | read (fd : Nat) (data : Bytes)
  | wrote (fd : Nat) (data : Bytes)
  | scanned (terminated : Bool)
  | perror (message : String)
  | fprintf (message : String)
  deriving DecidableEq, Repr

structure Client where
  interest : InterestSet
  buf : Bytes
  pending : List EpollEvent
  log : List Io
  exited : Bool

/-- What the system calls of a handler answer; `none` is an error, and `added` tells whether
the descriptor that is registered after a read can be. -/
inductive Answer where
  | read (result : Option Bytes) (added : Bool)
  | write (result : Option Nat) (beyond : Bytes)
  deriving DecidableEq, Repr

inductive Label where
  | epollWait (ready : Option (List EpollEvent))
  | handle (answer : Answer)
  deriving DecidableEq, Repr

section Steps

variable (sock : Socket) (s : Client)

def Client.note (entry : Io) : Client := { s with log := s.log ++ [entry] }

def Client.exit : Client := { s with exited := true }

def addEvent (added : Bool) (fd : Nat) (state : Mask) : Client :=
  { s with interest := epollCtl added s.interest .add fd state }

-- the client closes nothing, so its three descriptors stay open

def deleteEvent (fd : Nat) (state : Mask) : Client :=
  { s with interest := epollCtl true s.interest .del fd state }

def modifyEvent (fd : Nat) (state : Mask) : Client :=
  { s with interest := epollCtl true s.interest .mod fd state }

def Client.text (beyond : Bytes) : Bytes := cstr (s.buf ++ beyond)

def doRead (fd : Nat) : Answer → Option Client
  | .read none _ => some (s.note (.perror "read error")).exit
  | .read (some data) added =>
      if data.length ≤ maxSize then
        let s := { s with buf := overwrite s.buf data }
        if data.length = 0 then some (s.note (.fprintf "server close.\nbye\n")).exit
        else
          let s := s.note (.read fd data)
          if fd = stdin then some (addEvent s added sock.fd epollout)
          else some (addEvent (deleteEvent s sock.fd epollin) added stdout epollout)
      else none
  | _ => none

def doWrite (fd : Nat) : Answer → Option Client
  | .write result beyond =>
      let text := s.text beyond
      let s := s.note (.scanned (decide (0 ∈ s.buf)))
      match result with
      | none => some (s.note (.perror "write error")).exit
      | some nwrite =>
          if nwrite ≤ text.length then
            let s := s.note (.wrote fd (text.take nwrite))
            let s :=
              if fd = stdout then deleteEvent s fd epollout
              else modifyEvent s fd epollin
            some { s with buf := zeros maxSize }
          else none
  | _ => none

/-- The body of the loop in `handle_events`. -/
def handleEvent (e : EpollEvent) (answer : Answer) : Option Client :=
  if e.events &&& epollin ≠ 0 then doRead sock s e.fd answer
  else if e.events &&& epollout ≠ 0 then doWrite s e.fd answer
  else some s

/-- `handle_connection` from its loop on.  A failed `epoll_wait` returns -1, and
`handle_events` then has nothing to do. -/
def Client.step : Label → Option Client
  | .epollWait ready =>
      if s.exited = false ∧ s.pending = [] then
        match ready with
        | none => some s
        | some ready =>
            if Reportable s.interest epollEvents ready then some { s with pending := ready }
            else none
      else none
  | .handle answer =>
      if s.exited = false then
        match s.pending with
        | [] => none
        | e :: rest => handleEvent sock { s with pending := rest } e answer
      else none

end Steps

/-- The client before its loop, with `buf` as it happens to be. -/
def start (buf : Bytes) : Client :=
  addEvent ⟨fun _ => none, buf, [], [], false⟩ true stdin epollin

/-! ## What the handlers can do -/

inductive ReadEffect (sock : Socket) (s : Client) (fd : Nat) : Answer → Client → Prop where
  | failed (added : Bool) :
      ReadEffect sock s fd (.read none added)
        { s with log := s.log ++ [.perror "read error"], exited := true }
  | ended (added : Bool) :
      ReadEffect sock s fd (.read (some []) added)
        { s with log := s.log ++ [.fprintf "server close.\nbye\n"], exited := true }
  | chunk {data : Bytes} (added : Bool) (some_bytes : data ≠ []) (fits : data.length ≤ maxSize) :
      ReadEffect sock s fd (.read (some data) added)
        { s with
          buf := overwrite s.buf data
          log := s.log ++ [.read fd data]
          interest :=
            if fd = stdin then epollCtl added s.interest .add sock.fd epollout
            else
              epollCtl added (epollCtl true s.interest .del sock.fd epollin) .add stdout epollout }

inductive WriteEffect (s : Client) (fd : Nat) : Answer → Client → Prop where
  | failed (beyond : Bytes) :
      WriteEffect s fd (.write none beyond)
        { s with
          log := s.log ++ [.scanned (decide (0 ∈ s.buf)), .perror "write error"]
          exited := true }
  | wrote {nwrite : Nat} (beyond : Bytes) (most : nwrite ≤ (s.text beyond).length) :
      WriteEffect s fd (.write (some nwrite) beyond)
        { s with
          buf := zeros maxSize
          log := s.log ++ [.scanned (decide (0 ∈ s.buf)), .wrote fd ((s.text beyond).take nwrite)]
          interest :=
            if fd = stdout then epollCtl true s.interest .del fd epollout
            else epollCtl true s.interest .mod fd epollin }

section Handlers

variable {sock : Socket} {s s' : Client} {fd : Nat} {answer : Answer}

theorem doRead_effect (step : doRead sock s fd answer = some s') :
    ReadEffect sock s fd answer s' := by
  cases answer with
  | write result beyond => cases step
  | read result added =>
      cases result with
      | none =>
          cases step
          exact .failed added
      | some data =>
          simp only [doRead] at step
          split at step
          · rename_i fits
            split at step
            · rename_i zero
              obtain rfl := List.eq_nil_of_length_eq_zero zero
              cases step
              exact .ended added
            · rename_i more
              have effect := @ReadEffect.chunk sock s fd data added (by simpa using more) fits
              split at step
              · rename_i isStdin
                cases step
                rw [if_pos isStdin] at effect
                exact effect
              · rename_i other
                cases step
                rw [if_neg other] at effect
                exact effect
          · cases step

theorem doWrite_effect (step : doWrite s fd answer = some s') : WriteEffect s fd answer s' := by
  cases answer with
  | read result added => cases step
  | write result beyond =>
      cases result with
      | none =>
          cases step
          have effect := @WriteEffect.failed s fd beyond
          simpa [Client.note, Client.exit] using effect
      | some nwrite =>
          simp only [doWrite] at step
          split at step
          · rename_i most
            have effect := @WriteEffect.wrote s fd nwrite beyond most
            split at step
            · rename_i isStdout
              cases step
              rw [if_pos isStdout] at effect
              simpa [deleteEvent, Client.note] using effect
            · rename_i other
              cases step
              rw [if_neg other] at effect
              simpa [modifyEvent, Client.note] using effect
          · cases step

end Handlers

/-! ## Chunks -/

def Io.readAt (fd : Nat) : Io → Option Bytes
  | .read fd' data => if fd' = fd then some data else none
  | _ => none

def Io.wroteTo (fd : Nat) : Io → Option Bytes
  | .wrote fd' data => if fd' = fd then some data else none
  | _ => none

/-- The chunks `do_read` took from descriptor `fd`. -/
def readsFrom (fd : Nat) (log : List Io) : List Bytes := log.filterMap (Io.readAt fd)

/-- The chunks `do_write` wrote to descriptor `fd`. -/
def writesTo (fd : Nat) (log : List Io) : List Bytes := log.filterMap (Io.wroteTo fd)

@[simp] theorem readsFrom_nil (fd : Nat) : readsFrom fd [] = [] := rfl

@[simp] theorem writesTo_nil (fd : Nat) : writesTo fd [] = [] := rfl

@[simp] theorem readsFrom_cons (fd : Nat) (entry : Io) (log : List Io) :
    readsFrom fd (entry :: log) = (entry.readAt fd).toList ++ readsFrom fd log :=
  filterMap_cons_toList _ _ _

@[simp] theorem writesTo_cons (fd : Nat) (entry : Io) (log : List Io) :
    writesTo fd (entry :: log) = (entry.wroteTo fd).toList ++ writesTo fd log :=
  filterMap_cons_toList _ _ _

@[simp] theorem readsFrom_append (fd : Nat) (log entries : List Io) :
    readsFrom fd (log ++ entries) = readsFrom fd log ++ readsFrom fd entries :=
  List.filterMap_append

@[simp] theorem writesTo_append (fd : Nat) (log entries : List Io) :
    writesTo fd (log ++ entries) = writesTo fd log ++ writesTo fd entries :=
  List.filterMap_append

/-- Every chunk from `source` reached `sink` once, unmodified and in order, but
for at most the last, which waits in the buffer of a running client for `sink` to
become writable. -/
def Copied (s : Client) (source sink : Nat) : Prop :=
  readsFrom source s.log = writesTo sink s.log ∨
    ∃ chunk, readsFrom source s.log = writesTo sink s.log ++ [chunk] ∧
      s.interest sink = some epollout ∧ s.exited = false

end UnixDemos.EpollClient
