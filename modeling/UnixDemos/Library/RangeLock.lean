/-
# Library.RangeLock — record locks of `fcntl`

The kernel keeps the locks on a file as a list of ranges with their owners.  A request
is refused when a lock of another owner overlaps it and one of the two is exclusive; a
request that is granted replaces what its owner held on the range, and an unlock takes
the range out of the owner's locks, cutting those that reach beyond it.  An owner's locks
go away when it closes the file or exits.

What the list stands for is who holds which byte and how, `RangeLocks.Holds`, and every
operation is known by what it does to that.  `Exclusive` is what requests keep: no byte
is held in conflict.
-/
import Mathlib.Data.List.Basic
import Mathlib.Order.MinMax

namespace UnixDemos.Library

set_option autoImplicit false

inductive LockType where
  | rdlck
  | wrlck
  deriving DecidableEq, Repr

/-- Two locks on one byte exclude each other unless both are shared. -/
def LockType.conflicts (t u : LockType) : Bool := t = .wrlck || u = .wrlck

theorem LockType.conflicts_comm (t u : LockType) : t.conflicts u = u.conflicts t := Bool.or_comm ..

/-! ## Ranges -/

/-- The bytes from `start` on and below `stop`, if there is one. -/
structure ByteRange where
  start : Nat
  stop : Option Nat
  nonempty : ∀ n ∈ stop, start < n
  deriving DecidableEq

namespace ByteRange

def contains (r : ByteRange) (byte : Nat) : Bool :=
  decide (r.start ≤ byte) && r.stop.all fun n => decide (byte < n)

theorem contains_iff {r : ByteRange} {byte : Nat} :
    r.contains byte = true ↔ r.start ≤ byte ∧ ∀ n ∈ r.stop, byte < n := by
  cases stop : r.stop <;> simp [contains, stop]

theorem contains_start (r : ByteRange) : r.contains r.start = true :=
  contains_iff.mpr ⟨Nat.le_refl _, r.nonempty⟩

/-- From `start` on, up to any end. -/
def onward (start : Nat) : ByteRange := ⟨start, none, nofun⟩

/-- The whole file. -/
def whole : ByteRange := onward 0

/-- One byte. -/
def single (byte : Nat) : ByteRange := ⟨byte, some (byte + 1), by rintro _ ⟨⟩; omega⟩

@[simp] theorem single_contains {n byte : Nat} : (single n).contains byte = true ↔ byte = n := by
  rw [contains_iff]
  simp only [single, Option.mem_some_iff, forall_eq']
  omega

def overlaps (r q : ByteRange) : Bool := r.contains q.start || q.contains r.start

/-- Two ranges overlap exactly if they have a byte in common: the later of their starts. -/
theorem overlaps_iff {r q : ByteRange} :
    r.overlaps q = true ↔ ∃ byte, r.contains byte = true ∧ q.contains byte = true := by
  unfold overlaps
  rw [Bool.or_eq_true]
  constructor
  · rintro (inside | inside)
    · exact ⟨q.start, inside, q.contains_start⟩
    · exact ⟨r.start, r.contains_start, inside⟩
  · rintro ⟨byte, first, second⟩
    obtain ⟨lower, upper⟩ := contains_iff.mp first
    obtain ⟨lower', upper'⟩ := contains_iff.mp second
    rcases Nat.le_total r.start q.start with order | order
    · exact Or.inl (contains_iff.mpr ⟨order, fun n stop => lt_of_le_of_lt lower' (upper n stop)⟩)
    · exact Or.inr (contains_iff.mpr ⟨order, fun n stop => lt_of_le_of_lt lower (upper' n stop)⟩)

/-- The range with these bounds, if it is not empty. -/
def between (start : Nat) (stop : Option Nat) : List ByteRange :=
  if nonempty : ∀ n ∈ stop, start < n then [⟨start, stop, nonempty⟩] else []

theorem exists_mem_between {start byte : Nat} {stop : Option Nat} :
    (∃ r ∈ between start stop, r.contains byte = true) ↔ start ≤ byte ∧ ∀ n ∈ stop, byte < n := by
  unfold between
  split
  · simp [contains_iff]
  · rename_i empty
    constructor
    · simp
    · rintro ⟨lower, upper⟩
      exact absurd (fun n bound => lt_of_le_of_lt lower (upper n bound)) empty

/-- The lower of the two ends. -/
def firstStop : Option Nat → Nat → Nat
  | none, m => m
  | some n, m => min n m

theorem lt_firstStop {stop : Option Nat} {m byte : Nat} :
    byte < firstStop stop m ↔ (∀ n ∈ stop, byte < n) ∧ byte < m := by
  cases stop <;> simp [firstStop]

/-- What is left of `r` without `q`: a part before it and a part behind it. -/
def without (r q : ByteRange) : List ByteRange :=
  between r.start (some (firstStop r.stop q.start)) ++
    match q.stop with
    | none => []
    | some n => between (max r.start n) r.stop

theorem exists_mem_without {r q : ByteRange} {byte : Nat} :
    (∃ part ∈ r.without q, part.contains byte = true) ↔
      r.contains byte = true ∧ q.contains byte = false := by
  have front : (∃ part ∈ between r.start (some (firstStop r.stop q.start)),
      part.contains byte = true) ↔ r.contains byte = true ∧ byte < q.start := by
    rw [exists_mem_between, contains_iff]
    simp [lt_firstStop, and_assoc]
  have outside : q.contains byte = false ↔
      byte < q.start ∨ ∃ n ∈ q.stop, n ≤ byte := by
    rw [Bool.eq_false_iff, Ne, contains_iff]
    simp only [not_and_or, not_le, not_forall, not_lt, exists_prop]
  unfold without
  simp only [List.mem_append, or_and_right, exists_or, front, outside, and_or_left]
  refine or_congr Iff.rfl ?_
  cases q.stop with
  | none => simp
  | some n =>
      rw [exists_mem_between, contains_iff]
      simp only [max_le_iff, Option.mem_some_iff, exists_eq_left']
      tauto

end ByteRange

/-! ## Lock tables -/

/-- One lock in the kernel's list. -/
structure Held (π : Type) where
  owner : π
  type : LockType
  range : ByteRange
  deriving DecidableEq

abbrev RangeLocks (π : Type) := List (Held π)

namespace RangeLocks

variable {π : Type} [DecidableEq π]

/-- The owner has this byte locked. -/
def Holds (table : RangeLocks π) (owner : π) (byte : Nat) (type : LockType) : Prop :=
  ∃ lock ∈ table, lock.owner = owner ∧ lock.type = type ∧ lock.range.contains byte = true

/-- What is left of a lock when `owner` gives up `range`. -/
def dropFrom (owner : π) (range : ByteRange) (lock : Held π) : List (Held π) :=
  if lock.owner = owner then
    (lock.range.without range).map fun part => { lock with range := part }
  else [lock]

def drop (table : RangeLocks π) (owner : π) (range : ByteRange) : RangeLocks π :=
  table.flatMap (dropFrom owner range)

/-- The lock replaces what its owner held on the range. -/
def set (table : RangeLocks π) (owner : π) (type : LockType) (range : ByteRange) : RangeLocks π :=
  table.drop owner range ++ [⟨owner, type, range⟩]

/-- The locks of others that keep `owner` from a lock. -/
def blocking (table : RangeLocks π) (owner : π) (type : LockType) (range : ByteRange) :
    List (Held π) :=
  table.filter fun lock =>
    decide (lock.owner ≠ owner) && lock.type.conflicts type && lock.range.overlaps range

/-- `F_SETLK`; `none` when the lock is refused. -/
def setlk (table : RangeLocks π) (owner : π) (type : LockType) (range : ByteRange) :
    Option (RangeLocks π) :=
  if table.blocking owner type range = [] then some (table.set owner type range) else none

/-- The owner closes the file or exits. -/
def release (table : RangeLocks π) (owner : π) : RangeLocks π :=
  table.filter fun lock => lock.owner ≠ owner

variable {table : RangeLocks π} {owner p : π} {type t : LockType} {range : ByteRange} {byte : Nat}

theorem holds_dropFrom {lock : Held π} :
    (∃ part ∈ dropFrom owner range lock, part.owner = p ∧ part.type = t ∧
        part.range.contains byte = true) ↔
      (lock.owner = p ∧ lock.type = t ∧ lock.range.contains byte = true) ∧
        ¬ (p = owner ∧ range.contains byte = true) := by
  unfold dropFrom
  split
  · rename_i own
    have parts := @ByteRange.exists_mem_without lock.range range byte
    constructor
    · rintro ⟨_, member, rfl, rfl, inside⟩
      obtain ⟨part, left, rfl⟩ := List.mem_map.mp member
      obtain ⟨whole, outside⟩ := parts.mp ⟨part, left, inside⟩
      exact ⟨⟨rfl, rfl, whole⟩, fun both => by simp [outside] at both⟩
    · rintro ⟨⟨rfl, rfl, whole⟩, apart⟩
      have outside : range.contains byte = false :=
        Bool.eq_false_iff.mpr fun inside => apart ⟨own, inside⟩
      obtain ⟨part, left, inside⟩ := parts.mpr ⟨whole, outside⟩
      exact ⟨_, List.mem_map_of_mem left, rfl, rfl, inside⟩
  · rename_i other
    constructor
    · rintro ⟨_, member, rfl, rfl, inside⟩
      rw [List.mem_singleton.mp member] at inside ⊢
      exact ⟨⟨rfl, rfl, inside⟩, fun both => other both.1⟩
    · rintro ⟨⟨rfl, rfl, inside⟩, -⟩
      exact ⟨lock, List.mem_singleton_self _, rfl, rfl, inside⟩

/-- An unlock takes the bytes of the range from the owner, and nothing else. -/
theorem holds_drop : (table.drop owner range).Holds p byte t ↔
    table.Holds p byte t ∧ ¬ (p = owner ∧ range.contains byte = true) := by
  unfold Holds drop
  simp only [List.mem_flatMap]
  constructor
  · rintro ⟨part, ⟨lock, member, left⟩, holds⟩
    obtain ⟨whole, apart⟩ := holds_dropFrom.mp ⟨part, left, holds⟩
    exact ⟨⟨lock, member, whole⟩, apart⟩
  · rintro ⟨⟨lock, member, whole⟩, apart⟩
    obtain ⟨part, left, holds⟩ := holds_dropFrom.mpr ⟨whole, apart⟩
    exact ⟨part, ⟨lock, member, left⟩, holds⟩

/-- A lock gives the owner the bytes of the range in its type, and nothing else. -/
theorem holds_set : (table.set owner type range).Holds p byte t ↔
    if p = owner ∧ range.contains byte = true then t = type else table.Holds p byte t := by
  have snoc : (table.set owner type range).Holds p byte t ↔
      (owner = p ∧ type = t ∧ range.contains byte = true) ∨
        (table.drop owner range).Holds p byte t := by
    simp only [Holds, set, List.mem_append, List.mem_singleton, or_and_right, exists_or,
      exists_eq_left, or_comm]
  rw [snoc, holds_drop]
  split
  · rename_i own
    obtain ⟨rfl, inside⟩ := own
    simp [inside, eq_comm]
  · rename_i apart
    simp only [apart, not_false_eq_true, and_true]
    constructor
    · rintro (⟨rfl, -, inside⟩ | before)
      · exact absurd ⟨rfl, inside⟩ apart
      · exact before
    · exact Or.inr

theorem holds_release : (table.release owner).Holds p byte t ↔
    table.Holds p byte t ∧ p ≠ owner := by
  simp only [Holds, release, List.mem_filter, decide_eq_true_eq]
  constructor
  · rintro ⟨lock, ⟨member, other⟩, rfl, rest⟩
    exact ⟨⟨lock, member, rfl, rest⟩, other⟩
  · rintro ⟨⟨lock, member, rfl, rest⟩, other⟩
    exact ⟨lock, ⟨member, other⟩, rfl, rest⟩

/-- An owner blocks a request exactly if it holds one of its bytes in conflict. -/
theorem exists_blocking_iff : (∃ lock ∈ table.blocking owner type range, lock.owner = p) ↔
    p ≠ owner ∧ ∃ byte t, range.contains byte = true ∧ table.Holds p byte t ∧
      t.conflicts type = true := by
  simp only [blocking, List.mem_filter, Bool.and_eq_true, decide_eq_true_eq, ByteRange.overlaps_iff]
  constructor
  · rintro ⟨lock, ⟨member, ⟨other, conflict⟩, byte, mine, theirs⟩, rfl⟩
    exact ⟨other, byte, lock.type, theirs, ⟨lock, member, rfl, rfl, mine⟩, conflict⟩
  · rintro ⟨other, byte, t, mine, ⟨lock, member, rfl, rfl, theirs⟩, conflict⟩
    exact ⟨lock, ⟨member, ⟨other, conflict⟩, byte, theirs, mine⟩, rfl⟩

theorem blocking_eq_nil_iff : table.blocking owner type range = [] ↔
    ∀ p byte t, p ≠ owner → range.contains byte = true → table.Holds p byte t →
      t.conflicts type = false := by
  constructor
  · intro none p byte t other inside holds
    by_contra conflict
    obtain ⟨lock, member, -⟩ := exists_blocking_iff.mpr
      ⟨other, byte, t, inside, holds, Bool.eq_true_of_not_eq_false conflict⟩
    rw [none] at member
    cases member
  · intro free
    rw [List.eq_nil_iff_forall_not_mem]
    intro lock member
    obtain ⟨other, byte, t, inside, holds, conflict⟩ :=
      exists_blocking_iff.mp ⟨lock, member, rfl⟩
    rw [free _ byte t other inside holds] at conflict
    cases conflict

/-! ## Exclusion -/

/-- No byte has two owners in conflict. -/
def Exclusive (table : RangeLocks π) : Prop :=
  ∀ p q byte t u, table.Holds p byte t → table.Holds q byte u → p ≠ q → t.conflicts u = false

variable {table' : RangeLocks π}

theorem setlk_eq_some (granted : table.setlk owner type range = some table') :
    table.blocking owner type range = [] ∧ table' = table.set owner type range := by
  unfold setlk at granted
  split at granted
  · rename_i free
    exact ⟨free, (Option.some.inj granted).symm⟩
  · cases granted

theorem Exclusive.setlk (exclusive : table.Exclusive)
    (granted : table.setlk owner type range = some table') : table'.Exclusive := by
  obtain ⟨free, rfl⟩ := setlk_eq_some granted
  -- the new lock against an old one of another owner
  have apart {q : π} {byte : Nat} {u : LockType} (other : q ≠ owner)
      (inside : range.contains byte = true) (holds : table.Holds q byte u) :
      u.conflicts type = false :=
    blocking_eq_nil_iff.mp free q byte u other inside holds
  intro p q byte t u first second other
  rw [holds_set] at first second
  split at first <;> split at second
  · rename_i mine theirs
    exact absurd (mine.1.trans theirs.1.symm) other
  · rename_i mine _
    obtain ⟨rfl, inside⟩ := mine
    rw [first, LockType.conflicts_comm]
    exact apart (Ne.symm other) inside second
  · rename_i _ theirs
    obtain ⟨rfl, inside⟩ := theirs
    rw [second]
    exact apart other inside first
  · exact exclusive p q byte t u first second other

theorem Exclusive.release (exclusive : table.Exclusive) (owner : π) :
    (table.release owner).Exclusive := by
  intro p q byte t u first second
  exact exclusive p q byte t u (holds_release.mp first).1 (holds_release.mp second).1

/-- Two owners of locks that conflict are one. -/
theorem Exclusive.owner_eq (exclusive : table.Exclusive) {p q : π} {u : LockType}
    (conflict : t.conflicts u = true) (first : table.Holds p byte t)
    (second : table.Holds q byte u) : p = q := by
  by_contra other
  rw [exclusive p q byte t u first second other] at conflict
  cases conflict

end RangeLocks

end UnixDemos.Library
