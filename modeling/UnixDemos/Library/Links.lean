/-
# Library.Links — linked segments and doubly linked lists

A link function `link : α → Option α` stands for one pointer field of a heap of
records.  `Seg link p l q` says that following the field from `p` visits exactly
the records of `l` and arrives at `q`; `Linked` puts two such walks together.

The two fields of a doubly linked list play the same part with the list read in
opposite directions (`Linked.mirror`), so every edit is proved once for one
field: `seg_redirect` moves the last pointer of a segment, `seg_update_of_notMem`
is its frame rule.  `Linked.cons` links a record in at the head and
`Linked.unlink` takes one out anywhere; the edit at the tail is the mirror image.
-/
import Mathlib.Data.List.Nodup

namespace UnixDemos.Library

set_option autoImplicit false

universe u

/-! ## Segments -/

section Segment

variable {α : Type u}

/-- Following `link` from `p` visits exactly `l` and arrives at `q`. -/
def Seg (link : α → Option α) : Option α → List α → Option α → Prop
  | p, [], q => p = q
  | p, a :: l, q => p = some a ∧ Seg link (link a) l q

@[simp] theorem seg_nil {link : α → Option α} {p q : Option α} : Seg link p [] q ↔ p = q := Iff.rfl

@[simp] theorem seg_cons {link : α → Option α} {p q : Option α} {a : α} {l : List α} :
    Seg link p (a :: l) q ↔ p = some a ∧ Seg link (link a) l q := Iff.rfl

theorem seg_append {link : α → Option α} {l₁ l₂ : List α} {p q : Option α} :
    Seg link p (l₁ ++ l₂) q ↔ ∃ m, Seg link p l₁ m ∧ Seg link m l₂ q := by
  induction l₁ generalizing p with
  | nil => simp
  | cons a l₁ ih =>
      simp only [List.cons_append, seg_cons, ih]
      constructor
      · rintro ⟨here, m, left, right⟩
        exact ⟨m, ⟨here, left⟩, right⟩
      · rintro ⟨m, ⟨here, left⟩, right⟩
        exact ⟨here, m, left, right⟩

/-- A segment reads the field only at its own records. -/
theorem seg_congr {link link' : α → Option α} {l : List α} {p q : Option α}
    (same : ∀ a ∈ l, link' a = link a) : Seg link' p l q ↔ Seg link p l q := by
  induction l generalizing p with
  | nil => rfl
  | cons a l ih =>
      rw [seg_cons, seg_cons, same a (List.mem_cons_self ..),
        ih fun b member => same b (List.mem_cons_of_mem _ member)]

theorem seg_head {link : α → Option α} {l : List α} {p : Option α} (seg : Seg link p l none) :
    p = l.head? := by
  cases l with
  | nil => exact seg
  | cons a l => exact seg.1

variable [DecidableEq α]

theorem seg_update_of_notMem {link : α → Option α} {l : List α} {p q : Option α} {a : α}
    (v : Option α) (fresh : a ∉ l) :
    Seg (Function.update link a v) p l q ↔ Seg link p l q := by
  apply seg_congr
  intro b member
  have apart : b ≠ a := fun same => fresh (same ▸ member)
  exact Function.update_of_ne apart v link

/-- Rewriting the field of a segment's last record moves where the segment
arrives, and nothing else. -/
theorem seg_redirect {link : α → Option α} {l : List α} {p q : Option α} {a : α}
    (v : Option α) (fresh : a ∉ l) (seg : Seg link p (l ++ [a]) q) :
    Seg (Function.update link a v) p (l ++ [a]) v := by
  obtain ⟨m, front, last⟩ := seg_append.mp seg
  refine seg_append.mpr ⟨m, (seg_update_of_notMem v fresh).mpr front, last.1, ?_⟩
  exact Function.update_self a v link

end Segment

/-! ## Doubly linked lists -/

section Double

variable {α : Type u} {next prev : α → Option α} {head tail : Option α} {l : List α}

/-- `next` from `head` walks `l` and `prev` from `tail` walks it backwards, both
ending in the null pointer; no record occurs twice. -/
structure Linked (next prev : α → Option α) (head tail : Option α) (l : List α) : Prop where
  nodup : l.Nodup
  forward : Seg next head l none
  backward : Seg prev tail l.reverse none

theorem Linked.mirror (linked : Linked next prev head tail l) :
    Linked prev next tail head l.reverse :=
  ⟨List.nodup_reverse.mpr linked.nodup, linked.backward, by simpa using linked.forward⟩

theorem linked_nil : Linked next prev none none [] := ⟨List.nodup_nil, rfl, rfl⟩

theorem Linked.head_eq (linked : Linked next prev head tail l) : head = l.head? :=
  seg_head linked.forward

theorem Linked.tail_eq (linked : Linked next prev head tail l) : tail = l.getLast? := by
  rw [seg_head linked.backward, List.head?_reverse]

theorem Linked.head_eq_none (linked : Linked next prev head tail l) : head = none ↔ l = [] := by
  rw [linked.head_eq, List.head?_eq_none_iff]

theorem Linked.tail_eq_none (linked : Linked next prev head tail l) : tail = none ↔ l = [] := by
  rw [linked.tail_eq, List.getLast?_eq_none_iff]

/-- The `next` field of a listed record is the record after it, or null. -/
theorem Linked.next_eq {l₁ l₂ : List α} {a : α}
    (linked : Linked next prev head tail (l₁ ++ a :: l₂)) : next a = l₂.head? := by
  obtain ⟨m, -, -, later⟩ := seg_append.mp linked.forward
  exact seg_head later

/-- The `prev` field of a listed record is the record before it, or null. -/
theorem Linked.prev_eq {l₁ l₂ : List α} {a : α}
    (linked : Linked next prev head tail (l₁ ++ a :: l₂)) : prev a = l₁.getLast? := by
  have reversed : Linked prev next tail head (l₂.reverse ++ a :: l₁.reverse) := by
    simpa using linked.mirror
  rw [reversed.next_eq, List.head?_reverse]

/-- The list determines the two ends and both fields of every listed record. -/
theorem Linked.unique {next' prev' : α → Option α} {head' tail' : Option α}
    (linked : Linked next prev head tail l) (linked' : Linked next' prev' head' tail' l) :
    head = head' ∧ tail = tail' ∧ ∀ a ∈ l, next a = next' a ∧ prev a = prev' a := by
  refine ⟨linked.head_eq.trans linked'.head_eq.symm, linked.tail_eq.trans linked'.tail_eq.symm, ?_⟩
  intro a member
  obtain ⟨l₁, l₂, rfl⟩ := List.append_of_mem member
  exact ⟨linked.next_eq.trans linked'.next_eq.symm, linked.prev_eq.trans linked'.prev_eq.symm⟩

theorem Linked.nodup_unlink {l₁ l₂ : List α} {a : α}
    (linked : Linked next prev head tail (l₁ ++ a :: l₂)) : (l₁ ++ l₂).Nodup :=
  linked.nodup.sublist ((List.Sublist.refl l₁).append (List.sublist_cons_self a l₂))

variable [DecidableEq α]

/-- Linking a fresh record in before a nonempty list: its own two fields, and the
back link of the old head. -/
theorem Linked.cons {a b : α} (linked : Linked next prev (some b) tail (b :: l))
    (fresh : a ∉ b :: l) :
    Linked (Function.update next a (some b))
      (Function.update (Function.update prev a none) b (some a)) (some a) tail (a :: b :: l) := by
  have distinct : b ∉ l := (List.nodup_cons.mp linked.nodup).1
  have apart : a ≠ b := fun same => fresh (same ▸ List.mem_cons_self ..)
  refine ⟨List.nodup_cons.mpr ⟨fresh, linked.nodup⟩, ⟨rfl, ?_⟩, ?_⟩
  · rw [Function.update_self]
    exact (seg_update_of_notMem _ fresh).mpr linked.forward
  · have old : Seg (Function.update prev a none) tail (l.reverse ++ [b]) none := by
      rw [← List.reverse_cons]
      exact (seg_update_of_notMem _ (List.mem_reverse.not.mpr fresh)).mpr linked.backward
    rw [List.reverse_cons, List.reverse_cons]
    refine seg_append.mpr ⟨some a, seg_redirect _ (by simpa using distinct) old, rfl, ?_⟩
    rw [Function.update_of_ne apart, Function.update_self]
    rfl

/-- A single record whose two fields are null is a list on its own. -/
theorem linked_singleton (a : α) :
    Linked (Function.update next a none) (Function.update prev a none) (some a) (some a) [a] :=
  ⟨List.nodup_singleton a, ⟨rfl, Function.update_self ..⟩, ⟨rfl, Function.update_self ..⟩⟩

/-- The forward walk with one record skipped: the pointer that led to it, a field
of the record before it or the head itself, is redirected to its successor. -/
theorem seg_skip {link : α → Option α} {p : Option α} {l₁ l₂ : List α} {a : α}
    (nodup : (l₁ ++ a :: l₂).Nodup) (seg : Seg link p (l₁ ++ a :: l₂) none) :
    (l₁ = [] → Seg link (link a) l₂ none) ∧
      ∀ front b, l₁ = front ++ [b] →
        Seg (Function.update link b (link a)) p (l₁ ++ l₂) none := by
  obtain ⟨m, before, -, later⟩ := seg_append.mp seg
  refine ⟨fun _ => later, fun front b split => ?_⟩
  subst split
  rw [List.append_assoc, List.singleton_append, List.nodup_append] at nodup
  obtain ⟨-, tailNodup, apart⟩ := nodup
  refine seg_append.mpr ⟨link a, seg_redirect _ (fun member => ?_) before, ?_⟩
  · exact apart b member b (List.mem_cons_self ..) rfl
  · refine (seg_update_of_notMem _ fun member => ?_).mpr later
    exact (List.nodup_cons.mp tailNodup).1 (List.mem_cons_of_mem _ member)

/-- Taking out a record that has a record on both sides. -/
theorem Linked.unlink {l₁ l₂ : List α} {a b c : α}
    (linked : Linked next prev head tail (l₁ ++ [b] ++ a :: c :: l₂)) :
    Linked (Function.update next b (next a)) (Function.update prev c (prev a)) head tail
      (l₁ ++ [b] ++ c :: l₂) := by
  refine ⟨linked.nodup_unlink, ?_, ?_⟩
  · exact (seg_skip linked.nodup linked.forward).2 l₁ b rfl
  · have reversed : Linked prev next tail head ((l₂.reverse ++ [c]) ++ a :: (b :: l₁.reverse)) := by
      simpa using linked.mirror
    have walk := (seg_skip reversed.nodup reversed.forward).2 l₂.reverse c rfl
    simpa using walk

/-- Taking out the first of several records: the head moves on and the new
first record's back link becomes null. -/
theorem Linked.unlink_head {a b : α} (linked : Linked next prev head tail (a :: b :: l)) :
    Linked next (Function.update prev b none) (next a) tail (b :: l) := by
  have forward : Seg next head ([] ++ a :: b :: l) none := linked.forward
  have walk := (seg_skip linked.nodup forward).1 rfl
  have reversed : Linked prev next tail head (l.reverse ++ [b] ++ a :: []) := by
    simpa using linked.mirror
  have back := (seg_skip reversed.nodup reversed.forward).2 l.reverse b rfl
  rw [reversed.next_eq] at back
  exact ⟨(List.nodup_cons.mp linked.nodup).2, walk, by simpa using back⟩

end Double

end UnixDemos.Library
