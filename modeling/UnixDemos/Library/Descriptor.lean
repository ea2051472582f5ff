/-
# Library.Descriptor — descriptor tables and epoll interest sets

A descriptor table maps small numbers to open files.  New files get the lowest
free number (`FdTable.lowestFree`), so a number freed by `close` comes back with
the next file.

An interest set maps registered descriptors to event masks.  `epollCtl` follows
the system call: every operation on a descriptor that is not open fails, `add`
fails on a registered descriptor and `mod` and `del` on an unregistered one, and
a call that fails changes nothing.  `add` can fail for other reasons as well: a regular
file cannot be registered, and the system may have no room.  `Reportable` is what one
`epoll_wait` may return: registered descriptors, each at most once, each with some of the
events it is registered for.
-/
import Mathlib.Data.List.Basic
import Mathlib.Data.Nat.Bitwise

namespace UnixDemos.Library

set_option autoImplicit false

universe u

/-! ## Descriptor tables -/

/-- Entry `fd` is the file behind descriptor `fd`; numbers past the end are free. -/
abbrev FdTable (α : Type u) := List (Option α)

namespace FdTable

variable {α : Type u} (t : FdTable α)

def file (fd : Nat) : Option α := t[fd]?.join

def lowestFree : Nat := t.findIdx Option.isNone

/-- Open `a` under the lowest free number. -/
def install (a : α) : FdTable α :=
  if t.lowestFree < t.length then t.set t.lowestFree (some a) else t ++ [some a]

def close (fd : Nat) : FdTable α := t.set fd none

/-- `a` under number `fd`, in place of what was there. -/
def put (fd : Nat) (a : α) : FdTable α :=
  (t ++ List.replicate (fd + 1 - t.length) none).set fd (some a)

/-- `dup2`: the table, or `none` if `fd` is not open. -/
def dup2 (fd fd' : Nat) : Option (FdTable α) := (t.file fd).map fun a => t.put fd' a

/-- `dup`: the table and the new number, or `none` if `fd` is not open. -/
def dup (fd : Nat) : Option (FdTable α × Nat) :=
  (t.file fd).map fun a => (t.install a, t.lowestFree)

variable {t}

theorem file_lowestFree : t.file t.lowestFree = none := by
  unfold file lowestFree
  by_cases inside : t.findIdx Option.isNone < t.length
  · have free := List.findIdx_getElem (w := inside)
    rw [List.getElem?_eq_getElem inside, Option.isNone_iff_eq_none.mp free]
    rfl
  · rw [List.getElem?_eq_none (by omega)]
    rfl

theorem file_of_lt_lowestFree {fd : Nat} (below : fd < t.lowestFree) : t.file fd ≠ none := by
  have inside : fd < t.length := Nat.lt_of_lt_of_le below List.findIdx_le_length
  have used := List.not_of_lt_findIdx below
  rw [Option.isNone_eq_false_iff, Option.isSome_iff_ne_none] at used
  rw [file, List.getElem?_eq_getElem inside]
  exact used

/-- The lowest free number is the only one that is free with none free below it. -/
theorem lowestFree_eq {fd : Nat} (free : t.file fd = none) (below : ∀ i < fd, t.file i ≠ none) :
    t.lowestFree = fd := by
  rcases Nat.lt_trichotomy t.lowestFree fd with less | same | more
  · exact absurd file_lowestFree (below _ less)
  · exact same
  · exact absurd free (file_of_lt_lowestFree more)

theorem lt_length_of_file {fd : Nat} {a : α} (here : t.file fd = some a) : fd < t.length := by
  by_contra past
  rw [file, List.getElem?_eq_none (by omega)] at here
  cases here

theorem lowestFree_le_length : t.lowestFree ≤ t.length := List.findIdx_le_length

theorem file_install_self (a : α) : (t.install a).file t.lowestFree = some a := by
  unfold file install
  split
  · rename_i inside
    rw [List.getElem?_set_self inside]
    rfl
  · have last : t.lowestFree = t.length := by
      have := lowestFree_le_length (t := t)
      omega
    rw [last, List.getElem?_concat_length]
    rfl

theorem file_install_of_ne (a : α) {fd : Nat} (other : fd ≠ t.lowestFree) :
    (t.install a).file fd = t.file fd := by
  unfold file install
  split
  · rw [List.getElem?_set_ne (Ne.symm other)]
  · have last : t.lowestFree = t.length := by
      have := lowestFree_le_length (t := t)
      omega
    rcases Nat.lt_or_ge fd t.length with inside | past
    · rw [List.getElem?_append_left inside]
    · rw [List.getElem?_eq_none (by simp; omega), List.getElem?_eq_none past]

@[simp] theorem file_close_self (fd : Nat) : (t.close fd).file fd = none := by
  unfold file close
  rw [List.getElem?_set_self']
  cases t[fd]? <;> rfl

theorem file_close_of_ne {fd fd' : Nat} (other : fd' ≠ fd) :
    (t.close fd).file fd' = t.file fd' := by
  unfold file close
  rw [List.getElem?_set_ne (Ne.symm other)]

theorem file_close_eq_some_iff {fd fd' : Nat} {a : α} :
    (t.close fd).file fd' = some a ↔ fd' ≠ fd ∧ t.file fd' = some a := by
  by_cases same : fd' = fd
  · simp [same]
  · simp [same, file_close_of_ne]

theorem file_put_self (fd : Nat) (a : α) : (t.put fd a).file fd = some a := by
  unfold file put
  rw [List.getElem?_set_self (by simp; omega)]
  rfl

theorem file_put_of_ne {fd fd' : Nat} (a : α) (other : fd' ≠ fd) :
    (t.put fd a).file fd' = t.file fd' := by
  unfold file put
  rw [List.getElem?_set_ne (Ne.symm other)]
  rcases Nat.lt_or_ge fd' t.length with inside | past
  · rw [List.getElem?_append_left inside]
  · rw [List.getElem?_append_right past, List.getElem?_eq_none past, List.getElem?_replicate]
    split <;> rfl

/-- Files opened one after the other get ascending numbers. -/
theorem lowestFree_lt_install (a : α) : t.lowestFree < (t.install a).lowestFree := by
  by_contra notAbove
  have free := file_lowestFree (t := t.install a)
  rcases Nat.lt_or_eq_of_le (Nat.le_of_not_lt notAbove) with below | same
  · rw [file_install_of_ne a (Nat.ne_of_lt below)] at free
    exact file_of_lt_lowestFree below free
  · rw [same, file_install_self] at free
    cases free

end FdTable

/-! ## epoll -/

/-- A set of epoll events as a bit mask. -/
abbrev Mask := Nat

/-- `EPOLLIN`. -/
def epollin : Mask := 1

/-- `EPOLLOUT`. -/
def epollout : Mask := 4

inductive CtlOp where
  | add
  | mod
  | del
  deriving DecidableEq, Repr

abbrev InterestSet := Nat → Option Mask

/-- `epoll_ctl`, where `able` tells whether the descriptor is open and the system makes the
change. -/
def epollCtl (able : Bool) (set : InterestSet) (op : CtlOp) (fd : Nat) (mask : Mask) :
    InterestSet :=
  if able then
    match op, set fd with
    | .add, none => Function.update set fd (some mask)
    | .mod, some _ => Function.update set fd (some mask)
    | .del, some _ => Function.update set fd none
    | _, _ => set
  else set

section Ctl

variable {set : InterestSet} {fd : Nat}

theorem epollCtl_unable (op : CtlOp) (mask : Mask) : epollCtl false set op fd mask = set := rfl

theorem epollCtl_add (free : set fd = none) (mask : Mask) :
    epollCtl true set .add fd mask = Function.update set fd (some mask) := by
  simp [epollCtl, free]

theorem epollCtl_mod {old : Mask} (registered : set fd = some old) (mask : Mask) :
    epollCtl true set .mod fd mask = Function.update set fd (some mask) := by
  simp [epollCtl, registered]

theorem epollCtl_del {old : Mask} (registered : set fd = some old) (mask : Mask) :
    epollCtl true set .del fd mask = Function.update set fd none := by
  simp [epollCtl, registered]

/-- Registrations other than `mask` may change without touching who is
registered for `mask`. -/
theorem update_eq_some_iff {mask : Mask} {new : Option Mask} (before : set fd ≠ some mask)
    (after : new ≠ some mask) (fd' : Nat) :
    Function.update set fd new fd' = some mask ↔ set fd' = some mask := by
  by_cases same : fd' = fd
  · rw [same, Function.update_self]
    exact ⟨fun eq => absurd eq after, fun eq => absurd eq before⟩
  · rw [Function.update_of_ne same]

end Ctl

/-- One entry of the array `epoll_wait` fills. -/
structure EpollEvent where
  fd : Nat
  events : Mask
  deriving DecidableEq, Repr

/-- What one `epoll_wait` with room for `maxevents` may return. -/
def Reportable (set : InterestSet) (maxevents : Nat) (ready : List EpollEvent) : Prop :=
  ready.length ≤ maxevents ∧ (ready.map EpollEvent.fd).Nodup ∧
    ∀ e ∈ ready, e.events ≠ 0 ∧ e.events &&& (set e.fd).getD 0 = e.events

instance (set : InterestSet) (maxevents : Nat) (ready : List EpollEvent) :
    Decidable (Reportable set maxevents ready) := inferInstanceAs (Decidable (_ ∧ _ ∧ _))

/-- A report for a descriptor registered for a single event is that event. -/
theorem events_eq_of_single {e mask : Mask} (single : mask = epollin ∨ mask = epollout)
    (some_event : e ≠ 0) (registered : e &&& mask = e) : e = mask := by
  have bound : e ≤ mask := registered ▸ Nat.and_le_right
  have inOnly : ∀ e ≤ epollin, e ≠ 0 → e &&& epollin = e → e = epollin := by decide
  have outOnly : ∀ e ≤ epollout, e ≠ 0 → e &&& epollout = e → e = epollout := by decide
  rcases single with rfl | rfl
  · exact inOnly e bound some_event registered
  · exact outOnly e bound some_event registered

theorem registered_of_reported {set : InterestSet} {e : EpollEvent}
    (reported : e.events ≠ 0 ∧ e.events &&& (set e.fd).getD 0 = e.events) :
    ∃ mask, set e.fd = some mask ∧ e.events &&& mask = e.events := by
  cases here : set e.fd with
  | none =>
      have := reported.2
      simp [here] at this
      exact absurd this.symm reported.1
  | some mask => exact ⟨mask, rfl, by simpa [here] using reported.2⟩

end UnixDemos.Library
