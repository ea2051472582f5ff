/-
# Pthread.BarrierSort — barrier_sort.c: sort the segments, then merge them

`nums` holds `NTHR` segments of `TNUM` longs.  Each worker sorts its own segment
(`thrFn`); `merge` then repeatedly takes the smallest value under the `NTHR`
cursors `idx[i]`.  The bookkeeping of `merge` is kept as the source has it:

* `num` starts every round at `LONG_MAX` and is only lowered by a strict
  comparison, so a `LONG_MAX` under a cursor is never chosen;
* `minidx` is declared uninitialised and is not reset between rounds.  It is an
  `Option` here, and advancing `idx[minidx]` before it was ever assigned makes
  the model stop with `none`;
* every access `nums[idx[i]]` is recorded with its segment in `reads`, and one
  outside `nums` also stops the model;
* `sidx` is an `int` and is compared with the `long` `NUMNUM`.  Counted up at
  `INT_MAX` it is negative, still below `NUMNUM`, and `snums[sidx]` is outside.

The two constants are parameters: `NTHR` an `int`, so that `i` stays in range, and
`NTHR * TNUM` a `long`.
`qsort` is the C library's, known only through what the standard says about it.
-/
import UnixDemos.Library.CInt
import UnixDemos.Library.Slice
import Mathlib.Data.List.Sort

namespace UnixDemos.Pthread.BarrierSort

open UnixDemos.Library

set_option autoImplicit false

/-! ## Values -/

/-- `long`. -/
structure Long where
  val : Int
  range : -2 ^ 63 ≤ val ∧ val ≤ 2 ^ 63 - 1

theorem val_injective : Function.Injective Long.val := by
  rintro ⟨v, _⟩ ⟨w, _⟩ (rfl : v = w)
  rfl

instance : LinearOrder Long := LinearOrder.lift' Long.val val_injective

/-- `LONG_MAX`. -/
def longMax : Long := ⟨2 ^ 63 - 1, by decide⟩

theorem le_longMax (v : Long) : v ≤ longMax := v.range.2

def cmplong (l1 l2 : Long) : Int :=
  if l1 = l2 then 0 else if l1 < l2 then -1 else 1

/-- A comparison function `qsort` may be called with: it orders its arguments
totally and transitively. -/
structure Consistent {α : Type} (cmp : α → α → Int) : Prop where
  total : ∀ a b, cmp a b ≤ 0 ∨ cmp b a ≤ 0
  trans : ∀ a b c, cmp a b ≤ 0 → cmp b c ≤ 0 → cmp a c ≤ 0

/-- The library's `qsort`: under a consistent comparison it permutes its range
and leaves it in ascending order. -/
structure Qsort where
  qsort : {α : Type} → (α → α → Int) → List α → List α
  perm : ∀ {α : Type} (cmp : α → α → Int), Consistent cmp → ∀ l, (qsort cmp l).Perm l
  sorted : ∀ {α : Type} (cmp : α → α → Int), Consistent cmp →
    ∀ l, (qsort cmp l).Pairwise fun a b => cmp a b ≤ 0

/-! ## The workers -/

section Workers

variable (lib : Qsort) (nthr tnum : Nat)

/-- One worker, started with the index of its segment's first element. -/
def thrFn (idx : Nat) (nums : List Long) : List Long :=
  splice nums idx (lib.qsort cmplong (slice nums idx (idx + tnum)))

/-- All workers, one after the other; their segments do not overlap. -/
def sortSegments (nums : List Long) : List Long :=
  (List.range nthr).foldl (fun nums i => thrFn lib tnum (i * tnum) nums) nums

/-- norm_qsort.c: one `qsort` over the whole array. -/
def normQsort (nums : List Long) : List Long := lib.qsort cmplong nums

end Workers

/-! ## merge -/

/-- The variables the inner loop of `merge` changes. -/
structure Scan where
  num : Long
  minidx : Option Nat
  reads : List (Nat × Nat)

/-- The variables the outer loop changes; `snums` holds what was stored so far. -/
structure Merge where
  idx : Nat → Nat
  minidx : Option Nat
  sidx : Int
  snums : List Long
  reads : List (Nat × Nat)

section Merge

variable (nthr tnum : Nat) (nums : List Long)

def scanStep (idx : Nat → Nat) (s : Scan) (i : Nat) : Option Scan :=
  if idx i < (i + 1) * tnum then
    match nums[idx i]? with
    | none => none
    | some v =>
        let reads := s.reads ++ [(i, idx i)]
        if s.num > v then some ⟨v, some i, reads⟩ else some { s with reads := reads }
  else some s

def scan (idx : Nat → Nat) (s : Scan) : Option Scan :=
  (List.range nthr).foldlM (scanStep tnum nums idx) s

/-- One round: find the smallest value under a cursor, store it, advance. -/
def mergeStep (m : Merge) : Option Merge :=
  match scan nthr tnum nums m.idx ⟨longMax, m.minidx, m.reads⟩ with
  | none => none
  | some s =>
      -- the store to `snums[sidx]`
      if m.sidx < 0 then none
      else
        match s.minidx with
        | none => none
        | some j =>
            some ⟨Function.update m.idx j (m.idx j + 1), some j, wrap32 (m.sidx + 1),
              m.snums ++ [s.num], s.reads⟩

/-- The outer loop; the model also stops if the loop is not done after `fuel` tests of its
condition. -/
def mergeLoop : Nat → Merge → Option Merge
  | 0, _ => none
  | fuel + 1, m =>
      if m.sidx < nthr * tnum then (mergeStep nthr tnum nums m).bind (mergeLoop fuel) else some m

def mergeInit : Merge := ⟨fun i => i * tnum, none, 0, [], []⟩

def merge : Option Merge := mergeLoop nthr tnum nums (nthr * tnum + 1) (mergeInit tnum)

end Merge

/-- The program: sort the segments, wait at the barrier, merge. -/
def barrierSort (lib : Qsort) (nthr tnum : Nat) (nums : List Long) : Option Merge :=
  merge nthr tnum (sortSegments lib nthr tnum nums)

/-! ## The segments after the workers -/

theorem cmplong_le_zero {l1 l2 : Long} : cmplong l1 l2 ≤ 0 ↔ l1 ≤ l2 := by
  unfold cmplong
  split
  · rename_i same
    simp [same]
  · rename_i different
    split
    · rename_i less
      simp [less.le]
    · rename_i notLess
      simp [lt_of_le_of_ne (not_lt.mp notLess) (Ne.symm different)]

theorem cmplong_consistent : Consistent cmplong where
  total a b := by
    rw [cmplong_le_zero, cmplong_le_zero]
    exact le_total a b
  trans a b c := by
    rw [cmplong_le_zero, cmplong_le_zero, cmplong_le_zero]
    exact le_trans

section Segments

variable {lib : Qsort} {nthr tnum : Nat} {nums : List Long}

theorem qsort_sorted (l : List Long) : (lib.qsort cmplong l).Pairwise (· ≤ ·) :=
  (lib.sorted cmplong cmplong_consistent l).imp cmplong_le_zero.mp

theorem thrFn_perm {idx : Nat} (inside : idx + tnum ≤ nums.length) :
    (thrFn lib tnum idx nums).Perm nums :=
  splice_perm (Nat.le_add_right idx tnum) inside (lib.perm cmplong cmplong_consistent _)

theorem length_qsort_slice (lib : Qsort) {idx : Nat} (inside : idx + tnum ≤ nums.length) :
    (lib.qsort cmplong (slice nums idx (idx + tnum))).length = tnum := by
  rw [(lib.perm cmplong cmplong_consistent _).length_eq, length_slice inside]
  omega

/-- A worker leaves its own segment as `qsort` does. -/
theorem slice_thrFn_self {i : Nat} (inside : i * tnum + tnum ≤ nums.length) :
    slice (thrFn lib tnum (i * tnum) nums) (i * tnum) ((i + 1) * tnum) =
      lib.qsort cmplong (slice nums (i * tnum) ((i + 1) * tnum)) := by
  have width := length_qsort_slice lib inside
  have exactly := slice_splice_self (lib.qsort cmplong (slice nums (i * tnum) (i * tnum + tnum)))
    (show i * tnum ≤ nums.length by omega)
  rw [width] at exactly
  unfold thrFn
  rw [Nat.succ_mul, exactly]

/-- A worker leaves every other segment alone. -/
theorem slice_thrFn_other {i k : Nat} (inside : k * tnum + tnum ≤ nums.length) (other : i ≠ k) :
    slice (thrFn lib tnum (k * tnum) nums) (i * tnum) ((i + 1) * tnum) =
      slice nums (i * tnum) ((i + 1) * tnum) := by
  have width := length_qsort_slice lib inside
  apply slice_splice_of_disjoint (by omega)
  rcases Nat.lt_or_gt_of_ne other with below | above
  · exact Or.inl (Nat.mul_le_mul_right _ below)
  · right
    rw [width, ← Nat.succ_mul]
    exact Nat.mul_le_mul_right _ above

/-- The segment of a worker lies inside the array. -/
theorem segment_inside {k : Nat} (size : nums.length = nthr * tnum) (worker : k < nthr) :
    k * tnum + tnum ≤ nums.length := by
  rw [size, ← Nat.succ_mul]
  exact Nat.mul_le_mul_right _ worker

/-- After the first `k` workers: a permutation of the input whose first `k`
segments are sorted. -/
structure Sorted (nthr tnum : Nat) (nums : List Long) (k : Nat) (after : List Long) : Prop where
  perm : after.Perm nums
  sorted : ∀ i < k, (slice after (i * tnum) ((i + 1) * tnum)).Pairwise (· ≤ ·)

theorem thrFn_sorted {k : Nat} {after : List Long} (size : nums.length = nthr * tnum)
    (worker : k < nthr) (before : Sorted nthr tnum nums k after) :
    Sorted nthr tnum nums (k + 1) (thrFn lib tnum (k * tnum) after) := by
  have inside := segment_inside (before.perm.length_eq.trans size) worker
  refine ⟨(thrFn_perm inside).trans before.perm, fun i bound => ?_⟩
  rcases Nat.lt_succ_iff_lt_or_eq.mp bound with earlier | rfl
  · rw [slice_thrFn_other inside (Nat.ne_of_lt earlier)]
    exact before.sorted i earlier
  · rw [slice_thrFn_self inside]
    exact qsort_sorted _

theorem sortSegments_sorted (lib : Qsort) (size : nums.length = nthr * tnum) :
    Sorted nthr tnum nums nthr (sortSegments lib nthr tnum nums) := by
  have upTo : ∀ k ≤ nthr, Sorted nthr tnum nums k
      ((List.range k).foldl (fun nums i => thrFn lib tnum (i * tnum) nums) nums) := by
    intro k
    induction k with
    | zero => exact fun _ => ⟨List.Perm.refl _, by simp⟩
    | succ k ih =>
        intro bound
        rw [List.range_succ, List.foldl_append]
        exact thrFn_sorted size bound (ih (by omega))
  exact upTo nthr (Nat.le_refl _)

/-- All workers together: each segment as `qsort` leaves it. -/
theorem slice_sortSegments (lib : Qsort) (size : nums.length = nthr * tnum) {i : Nat}
    (worker : i < nthr) :
    slice (sortSegments lib nthr tnum nums) (i * tnum) ((i + 1) * tnum) =
      lib.qsort cmplong (slice nums (i * tnum) ((i + 1) * tnum)) := by
  have upTo : ∀ k ≤ nthr,
      let after := (List.range k).foldl (fun nums i => thrFn lib tnum (i * tnum) nums) nums
      after.length = nthr * tnum ∧
        slice after (i * tnum) ((i + 1) * tnum) =
          if i < k then lib.qsort cmplong (slice nums (i * tnum) ((i + 1) * tnum))
          else slice nums (i * tnum) ((i + 1) * tnum) := by
    intro k
    induction k with
    | zero => exact fun _ => ⟨size, rfl⟩
    | succ k ih =>
        intro bound
        obtain ⟨length, before⟩ := ih (by omega)
        have inside := segment_inside length bound
        rw [List.range_succ, List.foldl_append]
        refine ⟨(thrFn_perm inside).length_eq.trans length, ?_⟩
        show slice (thrFn lib tnum (k * tnum) _) _ _ = _
        by_cases own : i = k
        · subst own
          rw [slice_thrFn_self inside, before, if_neg (Nat.lt_irrefl i), if_pos (Nat.lt_succ_self i)]
        · rw [slice_thrFn_other inside own, before]
          simp only [show i < k + 1 ↔ i < k by omega]
  have whole := (upTo nthr (Nat.le_refl _)).2
  rwa [if_pos worker] at whole

end Segments

end UnixDemos.Pthread.BarrierSort
