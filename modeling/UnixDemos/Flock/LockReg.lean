/-
# Flock.LockReg — lock_reg of lock_reg.c

`lock_reg` fills in a `struct flock` and hands it to `fcntl`; `writew_lock` of
flock_helpers.h fixes its command and type.  The processes have one file open.  `F_SETLKW`
sleeps while the lock is held by others, and tries again each time it wakes up.

A process that sleeps is entered with the owner of a lock it found in its way.  Before a
process goes to sleep the kernel follows these entries, from the owner of the lock in the
way to the one that owner sleeps for and so on.  If it comes to the caller, `fcntl` fails
with `EDEADLK`; it gives up after a few steps, so a long cycle is not found.

A signal that interrupts `fcntl`, and `fcntl` failing for want of memory, are left out.
-/
import Mathlib.Algebra.Ring.Int.Defs
import Mathlib.Logic.Function.Basic
import UnixDemos.Library.RangeLock

namespace UnixDemos.Flock.LockReg

open UnixDemos.Library

set_option autoImplicit false

/-! ## `struct flock` -/

inductive Errno where
  | eagain
  | ebadf
  | edeadlk
  | einval
  | eoverflow
  deriving DecidableEq, Repr

inductive Whence where
  | seekSet
  | seekCur
  | seekEnd
  deriving DecidableEq, Repr

/-- `F_RDLCK`, `F_WRLCK` and `F_UNLCK`. -/
inductive LType where
  | lock (type : LockType)
  | unlck
  deriving DecidableEq, Repr

structure StructFlock where
  lType : LType
  lStart : Int
  lWhence : Whence
  lLen : Int
  deriving DecidableEq, Repr

/-- The largest `off_t`. -/
def offsetMax : Int := 2 ^ 63 - 1

def Whence.base (whence : Whence) (position size : Nat) : Int :=
  match whence with
  | .seekSet => 0
  | .seekCur => position
  | .seekEnd => size

/-- The bytes a request is about; a negative length reaches backwards. -/
def StructFlock.range (fl : StructFlock) (position size : Nat) : Except Errno ByteRange :=
  let start := fl.lWhence.base position size + fl.lStart
  if offsetMax < start then .error .eoverflow
  else if start < 0 then .error .einval
  else if positive : 0 < fl.lLen then
    if offsetMax - start < fl.lLen - 1 then .error .eoverflow
    else .ok ⟨start.toNat, some (start.toNat + fl.lLen.toNat), by
      rintro _ ⟨⟩
      omega⟩
  else if negative : fl.lLen < 0 then
    if outside : start + fl.lLen < 0 then .error .einval
    else .ok ⟨(start + fl.lLen).toNat, some start.toNat, by
      rintro _ ⟨⟩
      omega⟩
  else .ok (.onward start.toNat)

/-! ## One file and its processes -/

/-- An open descriptor; the offset belongs to it. -/
structure Fd where
  readable : Bool
  writable : Bool
  position : Nat
  deriving DecidableEq, Repr

def Fd.permits (fd : Fd) : LockType → Bool
  | .rdlck => fd.readable
  | .wrlck => fd.writable

/-- What a process sleeps for, and the owner of the lock it found in its way. -/
structure Sleep (π : Type) where
  type : LockType
  range : ByteRange
  blocker : π
  deriving DecidableEq

structure File (π : Type) where
  locks : RangeLocks π
  size : Nat
  fd : π → Option Fd
  waiting : π → Option (Sleep π)
  /-- What `lock_reg` returned to whom: 0, or -1 with this `errno`. -/
  log : List (π × Option Errno)

/-- `F_SETLK` and `F_SETLKW`. -/
inductive Cmd where
  | setlk
  | setlkw
  deriving DecidableEq, Repr

/-- `MAX_DEADLK_ITERATIONS`. -/
def maxDeadlkIterations : Nat := 10

section Calls

variable {π : Type} [DecidableEq π] (f : File π) (p : π)

/-- The entries lead from `q` to `p` in at most so many steps. -/
def File.leadsTo : Nat → π → Bool
  | 0, _ => false
  | steps + 1, q =>
      match f.waiting q with
      | none => false
      | some sleep => sleep.blocker = p || File.leadsTo steps sleep.blocker

def File.returns (error : Option Errno) : File π :=
  { f with waiting := Function.update f.waiting p none, log := f.log ++ [(p, error)] }

def File.sleeps (sleep : Sleep π) : File π :=
  { f with waiting := Function.update f.waiting p (some sleep) }

/-- One attempt at a lock, the first one or one after a sleep. -/
def File.attempt (cmd : Cmd) (type : LockType) (range : ByteRange) : File π :=
  match f.locks.blocking p type range with
  | [] => { f with locks := f.locks.set p type range }.returns p none
  | lock :: _ =>
      match cmd with
      | .setlk => f.returns p (some .eagain)
      | .setlkw =>
          if f.leadsTo p (maxDeadlkIterations + 1) lock.owner then f.returns p (some .edeadlk)
          else f.sleeps p ⟨type, range, lock.owner⟩

/-- `fcntl` with `F_SETLK` or `F_SETLKW`. -/
def File.fcntl (cmd : Cmd) (fl : StructFlock) : File π :=
  match f.fd p with
  | none => f.returns p (some .ebadf)
  | some fd =>
      match fl.range fd.position f.size with
      | .error e => f.returns p (some e)
      | .ok range =>
          match fl.lType with
          | .unlck => { f with locks := f.locks.drop p range }.returns p none
          | .lock type =>
              if fd.permits type then f.attempt p cmd type range
              else f.returns p (some .ebadf)

def lockReg (cmd : Cmd) (type : LType) (offset : Int) (whence : Whence) (len : Int) : File π :=
  f.fcntl p cmd ⟨type, offset, whence, len⟩

def writewLock : Int → Whence → Int → File π := lockReg f p .setlkw (.lock .wrlck)

def File.closes : File π :=
  { f with
    locks := f.locks.release p
    fd := Function.update f.fd p none
    waiting := Function.update f.waiting p none }

end Calls

/-- A file nobody has locked. -/
def File.unlocked {π : Type} (size : Nat) (fd : π → Option Fd) : File π where
  locks := []
  size := size
  fd := fd
  waiting := fun _ => none
  log := []

end UnixDemos.Flock.LockReg
