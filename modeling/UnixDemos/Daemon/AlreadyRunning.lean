/-
# Daemon.AlreadyRunning — the lock file of daemonize.c

Any number of daemons start, call `already_running` and go on or exit, in any
order.  One step is one call of `already_running` by one process; what the kernel
answers comes with the event, except that `F_SETLK` is granted only as the locks
of the other processes allow.  A process may also end at any moment.

`already_running` opens the file without `O_TRUNC`, so that a loser's `open` leaves
the contents alone, and the winner empties the file itself before it writes.  Its
buffer of 16 bytes is uninitialised; a store past its end is recorded in
`outside`.  Every `open` starts at offset 0, so `write` goes to the front of the
file.  `ftruncate` and `write` succeed.
-/
import UnixDemos.Library.Decimal
import UnixDemos.Library.RangeLock
import UnixDemos.Library.Run

namespace UnixDemos.Daemon

open UnixDemos.Library

set_option autoImplicit false

/-! ## State -/

/-- `pid_t`. -/
structure Pid where
  val : Int
  range : -2 ^ 31 ≤ val ∧ val ≤ 2 ^ 31 - 1
  deriving DecidableEq

inductive Errno where
  | eacces
  | eagain
  | other (code : Nat)
  deriving DecidableEq, Repr

/-- The call a process is about to make; `returned` is back in `main`. -/
inductive Pc where
  | absent
  | opening
  | locking
  | closing
  | truncating
  | printing
  | writing
  | returned (code : Int)
  deriving DecidableEq, Repr

inductive Io where
  | syslog (format : String) (arg : String) (errno : Option Errno)
  deriving DecidableEq, Repr

structure System where
  pc : Pid → Pc
  buf : Pid → Bytes
  file : Option Bytes
  locks : RangeLocks Pid
  log : List Io
  outside : Bool

inductive Event where
  | start (p : Pid) (buf : Bytes)
  | move (p : Pid) (error : Option Errno)
  | exit (p : Pid)
  deriving DecidableEq

def Event.actor : Event → Pid
  | start p _ | move p _ | exit p => p

/-! ## Steps -/

/-- `LOCKFILE`. -/
def lockFile : String := "/var/run/daemon.pid"

/-- The size of `buf`. -/
def bufSize : Nat := 16

/-- `lockfile` asks with `F_SETLK` for a write lock on the whole file. -/
def lockfile (locks : RangeLocks Pid) (p : Pid) : Option (RangeLocks Pid) :=
  locks.setlk p .wrlck .whole

namespace System

variable (s : System) (p : Pid)

def goto (pc : Pc) : System := { s with pc := Function.update s.pc p pc }

def syslog (format arg : String) (errno : Option Errno) : System :=
  { s with log := s.log ++ [.syslog format arg errno] }

/-- The process ends: its descriptors are closed, its locks are gone. -/
def exit : System := { s.goto p .absent with locks := s.locks.release p }

/-- `sprintf(buf, "%ld", (long)getpid())`. -/
def sprintf : System :=
  let text := printInt p.val ++ [0]
  if text.length ≤ (s.buf p).length then
    { s with buf := Function.update s.buf p (overwrite (s.buf p) text) }
  else { s with outside := true }

/-- `write(fd, buf, strlen(buf) + 1)`. -/
def write : System :=
  let data := (s.buf p).take ((cstr (s.buf p)).length + 1)
  { s with file := s.file.map fun old => overwrite old data }

/-- The next call of `already_running`, or of `main` after it. -/
def move (error : Option Errno) : Option System :=
  match s.pc p with
  | .absent => none
  | .opening =>
      match error with
      | some e => some ((s.syslog "can't open %s: %s" lockFile (some e)).exit p)
      | none => some { s.goto p .locking with file := some (s.file.getD []) }
  | .locking =>
      match error with
      | some e =>
          if e = .eacces ∨ e = .eagain then some (s.goto p .closing)
          else some ((s.syslog "can't lock %s: %s" lockFile (some e)).exit p)
      | none =>
          match lockfile s.locks p with
          | none => none
          | some locks => some { s.goto p .truncating with locks := locks }
  | .closing => some { s.goto p (.returned 1) with locks := s.locks.release p }
  | .truncating => some { s.goto p .printing with file := s.file.map fun _ => [] }
  | .printing => some ((s.sprintf p).goto p .writing)
  | .writing => some ((s.write p).goto p (.returned 0))
  | .returned code =>
      if code ≠ 0 then some ((s.syslog "daemon already running" "" none).exit p) else none

def step : Event → Option System
  | .start p buf =>
      if s.pc p = .absent ∧ buf.length = bufSize then
        some { s.goto p .opening with buf := Function.update s.buf p buf }
      else none
  | .move p error => s.move p error
  | .exit p => if s.pc p = .absent then none else some (s.exit p)

end System

@[simp] theorem System.pc_sprintf (s : System) (p : Pid) : (s.sprintf p).pc = s.pc := by
  simp only [System.sprintf]
  split <;> rfl

/-- No daemon is running; the lock file may be there, with anything in it. -/
def start (file : Option Bytes) : System := ⟨fun _ => .absent, fun _ => [], file, [], [], false⟩

/-! ## What a step can do -/

section Effect

variable {s t : System} {e : Event} {p : Pid}

inductive Effect (s : System) : Event → System → Prop where
  | starts {p : Pid} {buf : Bytes} (absent : s.pc p = .absent) (size : buf.length = bufSize) :
      Effect s (.start p buf) { s.goto p .opening with buf := Function.update s.buf p buf }
  | exits {e : Event} (running : ∀ p buf, e ≠ .start p buf) (log : List Io) :
      Effect s e { s.exit e.actor with log := log }
  | opens {p : Pid} (pc : s.pc p = .opening) :
      Effect s (.move p none) { s.goto p .locking with file := some (s.file.getD []) }
  | refused {p : Pid} (pc : s.pc p = .locking) (e : Errno) :
      Effect s (.move p (some e)) (s.goto p .closing)
  | acquires {p : Pid} {locks : RangeLocks Pid} (pc : s.pc p = .locking)
      (granted : lockfile s.locks p = some locks) :
      Effect s (.move p none) { s.goto p .truncating with locks := locks }
  | closes {p : Pid} (pc : s.pc p = .closing) (error : Option Errno) :
      Effect s (.move p error) { s.goto p (.returned 1) with locks := s.locks.release p }
  | truncates {p : Pid} (pc : s.pc p = .truncating) (error : Option Errno) :
      Effect s (.move p error) { s.goto p .printing with file := s.file.map fun _ => [] }
  | prints {p : Pid} (pc : s.pc p = .printing) (error : Option Errno) :
      Effect s (.move p error) ((s.sprintf p).goto p .writing)
  | writes {p : Pid} (pc : s.pc p = .writing) (error : Option Errno) :
      Effect s (.move p error) ((s.write p).goto p (.returned 0))

theorem step_effect (step : s.step e = some t) : Effect s e t := by
  cases e with
  | start p buf =>
      simp only [System.step] at step
      split at step
      · rename_i ready
        cases step
        exact .starts ready.1 ready.2
      · cases step
  | exit p =>
      simp only [System.step] at step
      split at step
      · cases step
      · cases step
        exact @Effect.exits s (.exit p) (fun _ _ same => Event.noConfusion same) s.log
  | move p error =>
      simp only [System.step, System.move] at step
      cases pc : s.pc p with
      | absent => simp [pc] at step
      | opening =>
          simp only [pc] at step
          cases error <;> cases step
          · exact .opens pc
          · exact .exits (fun _ _ same => Event.noConfusion same) _
      | locking =>
          simp only [pc] at step
          cases error with
          | none =>
              simp only at step
              split at step
              · cases step
              · rename_i locks granted
                cases step
                exact .acquires pc granted
          | some e =>
              simp only at step
              split at step <;> cases step
              · exact .refused pc e
              · exact .exits (fun _ _ same => Event.noConfusion same) _
      | closing =>
          simp only [pc] at step
          cases step
          exact .closes pc error
      | truncating =>
          simp only [pc] at step
          cases step
          exact .truncates pc error
      | printing =>
          simp only [pc] at step
          cases step
          exact .prints pc error
      | writing =>
          simp only [pc] at step
          cases step
          exact .writes pc error
      | returned code =>
          simp only [pc] at step
          split at step <;> cases step
          exact .exits (fun _ _ same => Event.noConfusion same) _

end Effect

end UnixDemos.Daemon
