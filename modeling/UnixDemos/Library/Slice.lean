/-
# Library.Slice — slices of an array, and lists told apart by counting

`slice l a b` is the part of an array with indices in `[a, b)`; it is empty when
the bounds have crossed, which is what a loop that guards its reads sees.  An
array cut into equal segments has the counts of its segments
(`sum_count_slices`), rewriting one segment leaves the others alone
(`slice_splice_of_disjoint`), and two lists over an order with a top element are
permutations of each other as soon as they have one length and agree on every
value below the top (`perm_of_count_below_top`).
-/
import Mathlib.Algebra.BigOperators.Group.Finset.Basic
import Mathlib.Algebra.Order.BigOperators.Group.Finset
import Mathlib.Data.List.Perm.Basic
import Mathlib.Order.Basic

namespace UnixDemos.Library

set_option autoImplicit false

universe u

section Slice

variable {α : Type u}

/-- The elements of `l` with index in `[a, b)`. -/
def slice (l : List α) (a b : Nat) : List α := (l.take b).drop a

/-- `l` with the elements from index `a` on overwritten by `xs`. -/
def splice (l : List α) (a : Nat) (xs : List α) : List α :=
  l.take a ++ xs ++ l.drop (a + xs.length)

theorem slice_eq_nil {l : List α} {a b : Nat} (crossed : b ≤ a) : slice l a b = [] := by
  apply List.drop_eq_nil_of_le
  rw [List.length_take]
  omega

theorem slice_cons {l : List α} {a b : Nat} {v : α} (inside : a < b) (here : l[a]? = some v) :
    slice l a b = v :: slice l (a + 1) b := by
  have taken : (l.take b)[a]? = some v := by rw [List.getElem?_take_of_lt inside, here]
  obtain ⟨bound, value⟩ := List.getElem?_eq_some_iff.mp taken
  unfold slice
  rw [List.drop_eq_getElem_cons bound, value]

theorem slice_succ_sublist (l : List α) (a b : Nat) :
    (slice l (a + 1) b).Sublist (slice l a b) := by
  unfold slice
  rw [← List.drop_drop]
  exact List.drop_sublist 1 _

theorem slice_getElem? (l : List α) (a b k : Nat) :
    (slice l a b)[k]? = if a + k < b then l[a + k]? else none := by
  unfold slice
  rw [List.getElem?_drop, List.getElem?_take]

theorem length_slice {l : List α} {a b : Nat} (inside : b ≤ l.length) :
    (slice l a b).length = b - a := by
  unfold slice
  rw [List.length_drop, List.length_take]
  omega

theorem take_append_slice {l : List α} {a b : Nat} (ordered : a ≤ b) :
    l.take b = l.take a ++ slice l a b := by
  unfold slice
  rw [show l.take a = (l.take b).take a by rw [List.take_take, Nat.min_eq_left ordered]]
  exact (List.take_append_drop a (l.take b)).symm

theorem slice_append {l : List α} {a b c : Nat} (ordered : a ≤ b) (ordered' : b ≤ c)
    (inside : b ≤ l.length) : slice l a b ++ slice l b c = slice l a c := by
  have length : (l.take b).length = b := by
    rw [List.length_take]
    omega
  conv_rhs => rw [slice, take_append_slice ordered', List.drop_append_of_le_length (by omega)]
  rfl

theorem slice_snoc {l : List α} {a b : Nat} {v : α} (ordered : a ≤ b) (here : l[b]? = some v) :
    slice l a (b + 1) = slice l a b ++ [v] := by
  have inside : b < l.length := (List.getElem?_eq_some_iff.mp here).1
  rw [← slice_append ordered (Nat.le_succ b) (Nat.le_of_lt inside),
    slice_cons (Nat.lt_succ_self b) here, slice_eq_nil (Nat.le_refl _)]

/-- The segments of an array account for every element of it. -/
theorem sum_count_slices [BEq α] (l : List α) (width count : Nat) (v : α) :
    ∑ i ∈ Finset.range count, (slice l (i * width) ((i + 1) * width)).count v =
      (l.take (count * width)).count v := by
  induction count with
  | zero => simp
  | succ n ih =>
      rw [Finset.sum_range_succ, ih, ← List.count_append, ← take_append_slice]
      exact Nat.mul_le_mul_right _ (Nat.le_succ n)

/-- An array is determined by its segments. -/
theorem eq_of_slices {l l' : List α} {width count : Nat} (size : l.length = count * width)
    (size' : l'.length = count * width)
    (same : ∀ i < count, slice l (i * width) ((i + 1) * width) =
      slice l' (i * width) ((i + 1) * width)) : l = l' := by
  have upTo : ∀ n ≤ count, l.take (n * width) = l'.take (n * width) := by
    intro n
    induction n with
    | zero => simp
    | succ n ih =>
        intro bound
        have ordered : n * width ≤ (n + 1) * width := Nat.mul_le_mul_right _ (Nat.le_succ n)
        rw [take_append_slice ordered, take_append_slice ordered, ih (by omega), same n bound]
  have whole := upTo count (Nat.le_refl _)
  rwa [← size, List.take_length, size, ← size', List.take_length] at whole

theorem slice_set {l : List α} {a b k : Nat} (v : α) (inside : a + k < b) :
    slice (l.set (a + k) v) a b = (slice l a b).set k v := by
  apply List.ext_getElem?
  intro j
  by_cases same : k = j
  · subst same
    have bound : k < (slice l a b).length ↔ a + k < l.length := by
      unfold slice
      rw [List.length_drop, List.length_take]
      omega
    rw [slice_getElem?, if_pos inside, List.getElem?_set, List.getElem?_set, if_pos rfl, if_pos rfl]
    simp only [bound]
  · rw [slice_getElem?, List.getElem?_set_ne same, slice_getElem?,
      List.getElem?_set_ne (by omega)]

theorem slice_set_of_outside {l : List α} {a b i : Nat} (v : α) (outside : i < a ∨ b ≤ i) :
    slice (l.set i v) a b = slice l a b := by
  apply List.ext_getElem?
  intro j
  rw [slice_getElem?, slice_getElem?]
  split
  · rw [List.getElem?_set_ne (by omega)]
  · rfl

theorem splice_getElem? {l : List α} {a : Nat} {xs : List α} (inside : a ≤ l.length) (k : Nat) :
    (splice l a xs)[k]? =
      if k < a then l[k]? else if k < a + xs.length then xs[k - a]? else l[k]? := by
  have front : (l.take a).length = a := by
    rw [List.length_take]
    omega
  unfold splice
  rw [List.append_assoc]
  by_cases before : k < a
  · rw [List.getElem?_append_left (by omega), List.getElem?_take_of_lt before, if_pos before]
  · rw [List.getElem?_append_right (by omega), front, if_neg before]
    by_cases within : k < a + xs.length
    · rw [List.getElem?_append_left (by omega), if_pos within]
    · rw [List.getElem?_append_right (by omega), List.getElem?_drop, if_neg within]
      congr 1
      omega

theorem slice_splice_self {l : List α} {a : Nat} (xs : List α) (inside : a ≤ l.length) :
    slice (splice l a xs) a (a + xs.length) = xs := by
  apply List.ext_getElem?
  intro k
  rw [slice_getElem?, splice_getElem? inside]
  by_cases within : k < xs.length
  · have shifted : a + k - a = k := by omega
    simp [within, shifted]
  · simp [within]

theorem slice_splice_of_disjoint {l : List α} {a c d : Nat} {xs : List α} (inside : a ≤ l.length)
    (apart : d ≤ a ∨ a + xs.length ≤ c) : slice (splice l a xs) c d = slice l c d := by
  apply List.ext_getElem?
  intro k
  rw [slice_getElem?, slice_getElem?, splice_getElem? inside]
  by_cases within : c + k < d
  · rw [if_pos within, if_pos within]
    by_cases before : c + k < a
    · rw [if_pos before]
    · rw [if_neg before, if_neg (by omega)]
  · rw [if_neg within, if_neg within]

/-- Permuting one slice in place permutes the array. -/
theorem splice_perm {l xs : List α} {a b : Nat} (ordered : a ≤ b) (inside : b ≤ l.length)
    (perm : xs.Perm (slice l a b)) : (splice l a xs).Perm l := by
  have width : a + xs.length = b := by
    rw [perm.length_eq, length_slice inside]
    omega
  unfold splice
  rw [width]
  calc l.take a ++ xs ++ l.drop b
    _ |>.Perm (l.take a ++ slice l a b ++ l.drop b) := (perm.append_left _).append_right _
    _ = l := by rw [← take_append_slice ordered, List.take_append_drop]

end Slice

section Top

variable {α : Type u} [BEq α] [LawfulBEq α] [LinearOrder α]

/-- One length and one count for every value below the top: a permutation. -/
theorem perm_of_count_below_top {top : α} (isTop : ∀ a, a ≤ top) {l l' : List α}
    (counts : ∀ v, v < top → l.count v = l'.count v) (length : l.length = l'.length) :
    l.Perm l' := by
  have lower : (l.filter (· < top)).Perm (l'.filter (· < top)) := by
    rw [List.perm_iff_count]
    intro v
    by_cases below : v < top
    · rw [List.count_filter (by simpa using below), List.count_filter (by simpa using below)]
      exact counts v below
    · rw [List.count_eq_zero_of_not_mem, List.count_eq_zero_of_not_mem] <;>
        simp [below]
  have upper : ∀ m : List α, m.count top = m.length - (m.filter (· < top)).length := by
    intro m
    induction m with
    | nil => rfl
    | cons a m ih =>
        have bound := List.length_filter_le (fun b => decide (b < top)) m
        rcases (isTop a).lt_or_eq with below | rfl
        · rw [List.count_cons_of_ne below.ne, List.filter_cons_of_pos (by simpa using below), ih]
          simp
        · rw [List.count_cons_self, List.filter_cons_of_neg (by simp), ih, List.length_cons]
          omega
  rw [List.perm_iff_count]
  intro v
  rcases (isTop v).lt_or_eq with below | rfl
  · exact counts v below
  · rw [upper, upper, length, lower.length_eq]

end Top

end UnixDemos.Library
