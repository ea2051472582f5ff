/-
# Library.Stream — loops that take a stream apart

A loop such as `while ((line = next()) != NULL)` calls a partial function on its
state until it gives nothing.  `pieces` is the list of what it gave.  It runs on
fuel, the size of the state, and `pieces_eq` says that the fuel is enough when
every call makes the state smaller: the list is the first piece, then the pieces
of what is left.
-/
import Mathlib.Data.List.Infix

namespace UnixDemos.Library

set_option autoImplicit false

universe u v

section Pieces

variable {σ : Type u} {α : Type v} (size : σ → Nat) (next : σ → Option (α × σ))

def piecesWithin : Nat → σ → List α
  | 0, _ => []
  | fuel + 1, s =>
      match next s with
      | none => []
      | some (a, s') => a :: piecesWithin fuel s'

/-- What the calls of `next` give until one gives nothing. -/
def pieces (s : σ) : List α := piecesWithin next (size s) s

variable {size next}

/-- More fuel than the size of the state changes nothing. -/
theorem piecesWithin_eq (smaller : ∀ s a s', next s = some (a, s') → size s' < size s) {fuel : Nat}
    {s : σ} (enough : size s ≤ fuel) : piecesWithin next fuel s = pieces size next s := by
  induction fuel using Nat.strong_induction_on generalizing s with
  | _ fuel ih =>
      unfold pieces
      cases fuel with
      | zero =>
          rw [Nat.le_zero.mp enough]
      | succ fuel =>
          cases here : next s with
          | none =>
              cases size s <;> simp [piecesWithin, here]
          | some piece =>
              obtain ⟨a, s'⟩ := piece
              have less := smaller s a s' here
              obtain ⟨k, exactly⟩ : ∃ k, size s = k + 1 := ⟨size s - 1, by omega⟩
              rw [exactly]
              simp only [piecesWithin, here, List.cons.injEq, true_and]
              rw [ih fuel (Nat.lt_succ_self _) (by omega), ih k (by omega) (by omega)]

theorem pieces_nil {s : σ} (none_left : next s = none) : pieces size next s = [] := by
  unfold pieces
  cases size s with
  | zero => rfl
  | succ k => simp [piecesWithin, none_left]

theorem pieces_cons (smaller : ∀ s a s', next s = some (a, s') → size s' < size s) {s s' : σ}
    {a : α} (first : next s = some (a, s')) : pieces size next s = a :: pieces size next s' := by
  have less := smaller s a s' first
  obtain ⟨k, exactly⟩ : ∃ k, size s = k + 1 := ⟨size s - 1, by omega⟩
  rw [pieces, exactly]
  simp only [piecesWithin, first, List.cons.injEq, true_and]
  exact piecesWithin_eq smaller (by omega)

end Pieces

theorem filterMap_cons_toList {α : Type u} {β : Type v} (f : α → Option β) (a : α) (l : List α) :
    (a :: l).filterMap f = (f a).toList ++ l.filterMap f := by
  rw [List.filterMap_cons]
  cases f a <;> rfl

theorem filterMap_snoc {α : Type u} {β : Type v} (f : α → Option β) (l : List α) (a : α) :
    (l ++ [a]).filterMap f = l.filterMap f ++ (f a).toList := by
  rw [List.filterMap_append, filterMap_cons_toList, List.filterMap_nil, List.append_nil]

theorem forall_mem_snoc {α : Type u} {p : α → Prop} {l : List α} {a : α} :
    (∀ b ∈ l ++ [a], p b) ↔ (∀ b ∈ l, p b) ∧ p a := by
  rw [List.forall_mem_append, List.forall_mem_singleton]

/-- A stretch without `x` lies on one side of it. -/
theorem infix_of_notMem {α : Type u} {a b w : List α} {x : α} (within : w <:+: a ++ x :: b)
    (notMem : x ∉ w) : w <:+: a ∨ w <:+: b := by
  obtain ⟨front, back, whole⟩ := within
  rw [List.append_assoc] at whole
  rcases List.append_eq_append_iff.mp whole with ⟨m, left, right⟩ | ⟨m, left, right⟩
  · rcases List.append_eq_append_iff.mp right with ⟨k, inside, -⟩ | ⟨k, crossing, rest⟩
    · exact Or.inl ⟨front, k, by rw [left, inside, List.append_assoc]⟩
    · cases k with
      | nil =>
          rw [List.append_nil] at crossing
          exact Or.inl ⟨front, [], by rw [left, crossing, List.append_nil]⟩
      | cons y k =>
          rw [List.cons_append, List.cons.injEq] at rest
          exact absurd (by rw [crossing, rest.1]; simp) notMem
  · cases m with
    | nil =>
        cases w with
        | nil => exact Or.inl (List.nil_infix)
        | cons y w =>
            rw [List.nil_append, List.cons_append, List.cons.injEq] at right
            exact absurd (by rw [right.1]; exact List.mem_cons_self) notMem
    | cons y m =>
        rw [List.cons_append, List.cons.injEq] at right
        exact Or.inr ⟨m, back, by rw [right.2, List.append_assoc]⟩

/-! ## Streams that can be taken apart in one way only -/

section Flatten

variable {α : Type u}

/-- A block that ends at its first terminator. -/
def Terminated (stop : α) (block : List α) : Prop := ∃ body, block = body ++ [stop] ∧ stop ∉ body

theorem append_stop_inj {stop : α} {xs ys later later' : List α} (cleanX : stop ∉ xs)
    (cleanY : stop ∉ ys) (same : xs ++ stop :: later = ys ++ stop :: later') :
    xs = ys ∧ later = later' := by
  rcases List.append_eq_append_iff.mp same with ⟨gap, rfl, rest⟩ | ⟨gap, rfl, rest⟩ <;>
    cases gap <;> simp_all

/-- A stream of terminated blocks determines the blocks. -/
theorem eq_of_flatten_terminated {stop : α} {xs ys : List (List α)}
    (endsX : ∀ x ∈ xs, Terminated stop x) (endsY : ∀ y ∈ ys, Terminated stop y)
    (same : xs.flatten = ys.flatten) : xs = ys := by
  induction xs generalizing ys with
  | nil =>
      cases ys with
      | nil => rfl
      | cons y ys =>
          obtain ⟨body, rfl, -⟩ := endsY y List.mem_cons_self
          simp at same
  | cons x xs ih =>
      rw [List.forall_mem_cons] at endsX
      obtain ⟨body, rfl, clean⟩ := endsX.1
      cases ys with
      | nil => simp at same
      | cons y ys =>
          rw [List.forall_mem_cons] at endsY
          obtain ⟨body', rfl, clean'⟩ := endsY.1
          simp only [List.flatten_cons, List.append_assoc, List.singleton_append] at same
          obtain ⟨rfl, later⟩ := append_stop_inj clean clean' same
          rw [ih endsX.2 endsY.2 later]

theorem length_flatten_le {k : Nat} {xs ys : List (List α)} (count : xs.length = ys.length)
    (atLeast : ∀ x ∈ xs, k ≤ x.length) (exactly : ∀ y ∈ ys, y.length = k) :
    ys.flatten.length ≤ xs.flatten.length := by
  induction xs generalizing ys with
  | nil =>
      rw [List.length_eq_zero_iff.mp count.symm]
  | cons x xs ih =>
      cases ys with
      | nil => cases count
      | cons y ys =>
          rw [List.forall_mem_cons] at atLeast exactly
          rw [List.flatten_cons, List.flatten_cons, List.length_append, List.length_append,
            exactly.1]
          exact Nat.add_le_add atLeast.1 (ih (Nat.succ.inj count) atLeast.2 exactly.2)

/-- Blocks of at least `k` elements that make up as many blocks of exactly `k`. -/
theorem eq_of_flatten_length {k : Nat} {xs ys : List (List α)} (count : xs.length = ys.length)
    (atLeast : ∀ x ∈ xs, k ≤ x.length) (exactly : ∀ y ∈ ys, y.length = k)
    (same : xs.flatten = ys.flatten) : xs = ys := by
  induction xs generalizing ys with
  | nil =>
      rw [List.length_eq_zero_iff.mp count.symm]
  | cons x xs ih =>
      cases ys with
      | nil => cases count
      | cons y ys =>
          rw [List.forall_mem_cons] at atLeast exactly
          have rest := length_flatten_le (Nat.succ.inj count) atLeast.2 exactly.2
          have first : x.length = y.length := by
            have total := congrArg List.length same
            simp only [List.flatten_cons, List.length_append] at total
            have own := exactly.1 ▸ atLeast.1
            omega
          obtain ⟨rfl, later⟩ := List.append_inj same first
          rw [ih (Nat.succ.inj count) atLeast.2 exactly.2 later]

end Flatten

end UnixDemos.Library
