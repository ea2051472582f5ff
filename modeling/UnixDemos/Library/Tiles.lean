/-
# Library.Tiles — an interval cut into ranges

A range is where it starts and how long it is.  `Tiles lo hi ranges` says that the
ranges stand end to end from `lo` to `hi`, none of them empty; a loop that works
through an interval keeps it by `Tiles.snoc`.  `Partition` is what it comes to: the
ranges are inside the interval, apart from each other, and miss nothing.
-/
import Mathlib.Data.List.Basic

namespace UnixDemos.Library

set_option autoImplicit false

structure Range where
  start : Int
  length : Int
  deriving DecidableEq, Repr

/-- The ranges stand end to end from `lo` to `hi`. -/
inductive Tiles : Int → Int → List Range → Prop where
  | nil (lo : Int) : Tiles lo lo []
  | cons {lo length hi : Int} {ranges : List Range} (nonempty : 0 < length)
      (rest : Tiles (lo + length) hi ranges) : Tiles lo hi (⟨lo, length⟩ :: ranges)

/-- Non-empty ranges inside `[lo, hi)` that have no point in common and cover it. -/
structure Partition (lo hi : Int) (ranges : List Range) : Prop where
  inside : ∀ r ∈ ranges, 0 < r.length ∧ lo ≤ r.start ∧ r.start + r.length ≤ hi
  disjoint : ranges.Pairwise fun r r' => r.start + r.length ≤ r'.start
  cover : ∀ x, lo ≤ x → x < hi → ∃ r ∈ ranges, r.start ≤ x ∧ x < r.start + r.length

section Tiles

variable {lo mid hi : Int} {ranges : List Range}

theorem Tiles.snoc {length : Int} (tiles : Tiles lo mid ranges) (nonempty : 0 < length) :
    Tiles lo (mid + length) (ranges ++ [⟨mid, length⟩]) := by
  induction tiles with
  | nil lo => exact .cons nonempty (.nil _)
  | cons first _ ih => exact .cons first ih

theorem Tiles.le (tiles : Tiles lo hi ranges) : lo ≤ hi := by
  induction tiles with
  | nil lo => exact Int.le_refl lo
  | cons nonempty _ ih => omega

theorem Tiles.inside (tiles : Tiles lo hi ranges) :
    ∀ r ∈ ranges, 0 < r.length ∧ lo ≤ r.start ∧ r.start + r.length ≤ hi := by
  induction tiles with
  | nil lo => simp
  | cons nonempty rest ih =>
      refine List.forall_mem_cons.mpr ⟨⟨nonempty, Int.le_refl _, rest.le⟩, fun r member => ?_⟩
      obtain ⟨some_bytes, from_lo, to_hi⟩ := ih r member
      exact ⟨some_bytes, by omega, to_hi⟩

theorem Tiles.partition (tiles : Tiles lo hi ranges) : Partition lo hi ranges := by
  refine ⟨tiles.inside, ?_, ?_⟩
  · induction tiles with
    | nil lo => exact .nil
    | cons nonempty rest ih => exact .cons (fun r member => (rest.inside r member).2.1) ih
  · induction tiles with
    | nil lo =>
        intro x lower upper
        omega
    | @cons lo length hi ranges nonempty rest ih =>
        intro x lower upper
        by_cases here : x < lo + length
        · exact ⟨⟨lo, length⟩, List.mem_cons_self, lower, here⟩
        · obtain ⟨r, member, within⟩ := ih x (by omega) upper
          exact ⟨r, List.mem_cons_of_mem _ member, within⟩

end Tiles

end UnixDemos.Library
