/-
# Pthread.RefCount — the reference-counted object of pthread_mutex.c

Two readings of the same functions.

* `fooHold` and `fooRele` are whole calls on a live object.
* `System` runs one object under any number of threads, one step of one call at
  a time: take the mutex, print, change `f_count`, test, release the mutex and,
  after the last reference, destroy the mutex and free the object.  The last
  three happen in this order in the source, so the object is torn down by a
  thread that no longer holds its lock.

A thread that waits for the mutex cannot move (`none`).  A step that uses the
lock or a field of an object whose mutex was already destroyed is not stopped:
it goes ahead and leaves `misuse` set.  `refs t` counts the references thread `t`
owns; it is the callers' side of the bargain and no step of the source reads it.
The last section shows that a call run without interference is the whole call.
-/
import UnixDemos.Library.CInt
import UnixDemos.Library.Run
import Mathlib.Algebra.BigOperators.Group.Finset.Basic
import Mathlib.Data.Fintype.Basic

namespace UnixDemos.Pthread.RefCount

open UnixDemos.Library

set_option autoImplicit false

/-! ## Whole calls -/

/-- `struct foo`; the mutex is the thread that holds it. -/
structure Foo (T : Type) where
  fCount : Int
  fLock : Option T
  fId : Int
  deriving DecidableEq, Repr

/-- `mallocOk` and `err` are what `malloc` and `pthread_mutex_init` answer. -/
def fooAlloc (T : Type) (mallocOk : Bool) (err : Int) (id : Int) : Option (Foo T) :=
  if mallocOk then
    if err ≠ 0 then none else some ⟨1, none, id⟩
  else none

/-- `fp -> f_count += 1`. -/
def increment (count : Int) : Int := wrap32 (count + 1)

/-- `--fp -> f_count`. -/
def decrement (count : Int) : Int := wrap32 (count - 1)

def fooHold {T : Type} (fp : Foo T) : Foo T := { fp with fCount := increment fp.fCount }

/-- The object after the call, `none` once it is freed. -/
def fooRele {T : Type} (fp : Foo T) : Option (Foo T) :=
  if decrement fp.fCount = 0 then none else some { fp with fCount := decrement fp.fCount }

/-! ## Single steps -/

/-- Where a thread is: outside, inside `foo_hold`, or inside `foo_rele`.  The
test sees the value the decrement produced. -/
inductive Pc where
  | idle
  | holdLock
  | holdPrint
  | holdIncrement
  | holdUnlock
  | releLock
  | releDecrement
  | releTest (value : Int)
  | relePrint
  | releUnlockLast
  | releDestroy
  | releFree
  | releUnlock
  deriving DecidableEq, Repr

/-- The two messages the functions print. -/
inductive Line where
  | hold (id count : Int)
  | deinitialized (id : Int)
  deriving DecidableEq, Repr

structure System (T : Type) where
  foo : Foo T
  destroys : Nat
  frees : Nat
  misuse : Bool
  out : List Line
  pc : T → Pc
  refs : T → Nat

/-- The next step at this point uses the lock or a field of the object. -/
def Pc.uses : Pc → Bool
  | .idle | .releTest _ | .releFree => false
  | _ => true

section Step

variable {T : Type} [DecidableEq T]

def System.goto (s : System T) (t : T) (pc : Pc) : System T :=
  { s with pc := Function.update s.pc t pc }

def System.own (s : System T) (t : T) (n : Nat) : System T :=
  { s with refs := Function.update s.refs t n }

def System.setLock (s : System T) (lock : Option T) : System T :=
  { s with foo := { s.foo with fLock := lock } }

def System.setCount (s : System T) (count : Int) : System T :=
  { s with foo := { s.foo with fCount := count } }

def System.printf (s : System T) (line : Line) : System T :=
  { s with out := s.out ++ [line] }

/-- Record a use of the object after its mutex was destroyed. -/
def System.touch (s : System T) (t : T) : System T :=
  { s with misuse := s.misuse || ((s.pc t).uses && s.destroys ≠ 0) }

/-- The step at one point of the two function bodies; a thread that finds the
mutex taken cannot move. -/
def System.exec (s : System T) (t : T) : Pc → Option (System T)
  | .idle => none
  | .holdLock => if s.foo.fLock = none then some ((s.setLock (some t)).goto t .holdPrint) else none
  | .holdPrint => some ((s.printf (.hold s.foo.fId s.foo.fCount)).goto t .holdIncrement)
  | .holdIncrement =>
      some (((s.setCount (increment s.foo.fCount)).own t (s.refs t + 1)).goto t .holdUnlock)
  | .holdUnlock => some ((s.setLock none).goto t .idle)
  | .releLock =>
      if s.foo.fLock = none then some ((s.setLock (some t)).goto t .releDecrement) else none
  | .releDecrement =>
      some (((s.setCount (decrement s.foo.fCount)).own t (s.refs t - 1)).goto t
        (.releTest (decrement s.foo.fCount)))
  | .releTest value => some (s.goto t (if value = 0 then .relePrint else .releUnlock))
  | .relePrint => some ((s.printf (.deinitialized s.foo.fId)).goto t .releUnlockLast)
  | .releUnlockLast => some ((s.setLock none).goto t .releDestroy)
  | .releDestroy => some ({ s with destroys := s.destroys + 1 }.goto t .releFree)
  | .releFree => some ({ s with frees := s.frees + 1 }.goto t .idle)
  | .releUnlock => some ((s.setLock none).goto t .idle)

/-- The next step of thread `t`. -/
def System.advance (s : System T) (t : T) : Option (System T) := (s.touch t).exec t (s.pc t)

/-- What can happen next: a thread calls one of the functions or hands one of its
references to a thread, or a thread that is inside a call makes its next step. -/
inductive Event (T : Type) where
  | fooHold (t : T)
  | fooRele (t : T)
  | hand (t u : T)
  | step (t : T)
  deriving DecidableEq, Repr

/-- Calls and hand-overs follow the ownership discipline: they are made by a
thread outside a call that owns a reference. -/
def System.next (s : System T) : Event T → Option (System T)
  | .fooHold t => if s.pc t = .idle ∧ 0 < s.refs t then some (s.goto t .holdLock) else none
  | .fooRele t => if s.pc t = .idle ∧ 0 < s.refs t then some (s.goto t .releLock) else none
  | .hand t u =>
      if s.pc t = .idle ∧ 0 < s.refs t then
        let s := s.own t (s.refs t - 1)
        some (s.own u (s.refs u + 1))
      else none
  | .step t => s.advance t

/-- The object as `foo_alloc` returns it, its one reference owned by `owner`. -/
def System.start (fp : Foo T) (owner : T) : System T where
  foo := fp
  destroys := 0
  frees := 0
  misuse := false
  out := []
  pc := fun _ => .idle
  refs := Function.update (fun _ => 0) owner 1

/-! ## A call without interference is the whole call -/

/-- One thread alone: its call and the four steps of `foo_hold`. -/
theorem run_fooHold (s : System T) (t : T) (idle : s.pc t = .idle) (owns : 0 < s.refs t)
    (unlocked : s.foo.fLock = none) :
    ∃ s', run System.next s [.fooHold t, .step t, .step t, .step t, .step t] = some s' ∧
      s'.foo = fooHold s.foo ∧ s'.pc = s.pc ∧ s'.frees = s.frees := by
  simp [run, System.next, System.advance, System.exec, System.goto, System.touch, System.setLock,
    System.setCount, System.printf, System.own, idle, owns, unlocked, fooHold]

/-- One thread alone: a `foo_rele` that leaves references. -/
theorem run_fooRele_some (s : System T) (t : T) (fp : Foo T) (idle : s.pc t = .idle)
    (owns : 0 < s.refs t) (unlocked : s.foo.fLock = none) (result : fooRele s.foo = some fp) :
    ∃ s', run System.next s [.fooRele t, .step t, .step t, .step t, .step t] = some s' ∧
      s'.foo = fp ∧ s'.pc = s.pc ∧ s'.frees = s.frees := by
  obtain ⟨left, rfl⟩ : decrement s.foo.fCount ≠ 0 ∧
      { s.foo with fCount := decrement s.foo.fCount } = fp := by
    simpa [fooRele] using result
  simp [run, System.next, System.advance, System.exec, System.goto, System.touch, System.setLock,
    System.setCount, System.own, idle, owns, unlocked, left]

/-- One thread alone: the `foo_rele` that gives up the last reference. -/
theorem run_fooRele_none (s : System T) (t : T) (idle : s.pc t = .idle) (owns : 0 < s.refs t)
    (unlocked : s.foo.fLock = none) (result : fooRele s.foo = none) :
    ∃ s', run System.next s [.fooRele t, .step t, .step t, .step t, .step t, .step t, .step t,
        .step t] = some s' ∧
      s'.destroys = s.destroys + 1 ∧ s'.pc = s.pc ∧ s'.frees = s.frees + 1 := by
  have last : decrement s.foo.fCount = 0 := by simpa [fooRele] using result
  simp [run, System.next, System.advance, System.exec, System.goto, System.touch, System.setLock,
    System.setCount, System.own, System.printf, idle, owns, unlocked, last]

end Step

end UnixDemos.Pthread.RefCount
