/-
# Pthread.BarrierMerge — merge leaves the ascending permutation in snums

Two phases hide in one loop.  While some value below `LONG_MAX` is still under or
above a cursor, a round stores the least remaining value and advances its
cursor.  Once only `LONG_MAX` is left no comparison succeeds: the round stores
`LONG_MAX` and advances the cursor of whichever segment was chosen last, past
the end of that segment if need be.

One invariant (`Invariant`) covers both.  It counts only the values below
`LONG_MAX`, for which what is stored and what lies in front of the cursors
always add up to the input; a cursor that ran past its segment has nothing in
front of it.  The final permutation then follows from the counts below the top
and the number of rounds.

`mergeRounds k` is the loop at its head after `k` rounds.  There `sidx` is `k` as long as
that is an `int`; after 2^31 rounds it is negative, and a loop that has to go that far
never ends well (`merge_overflows`).
-/
import UnixDemos.Pthread.BarrierSort

namespace UnixDemos.Pthread.BarrierSort

open UnixDemos.Library

set_option autoImplicit false

section Scan

variable {nthr tnum : Nat} {nums : List Long}

/-- The inner loop after its first `k` segments: it read only under cursors
inside their segments, found a lower bound of what it read, and either changed
nothing or chose a segment whose cursor holds that bound. -/
structure Scanned (tnum : Nat) (nums : List Long) (idx : Nat → Nat) (k : Nat) (s s' : Scan) :
    Prop where
  reads : ∀ r ∈ s'.reads, r ∈ s.reads ∨
    (r.1 < k ∧ r.2 = idx r.1 ∧ idx r.1 < (r.1 + 1) * tnum)
  least : ∀ i < k, idx i < (i + 1) * tnum → ∀ v, nums[idx i]? = some v → s'.num ≤ v
  choice : (s'.num = s.num ∧ s'.minidx = s.minidx) ∨
    (s'.num < s.num ∧ ∃ j < k, s'.minidx = some j ∧ idx j < (j + 1) * tnum ∧
      nums[idx j]? = some s'.num)

theorem scanned_zero (idx : Nat → Nat) (s : Scan) : Scanned tnum nums idx 0 s s :=
  ⟨fun _ member => Or.inl member, by simp, Or.inl ⟨rfl, rfl⟩⟩

/-- A segment whose cursor is past its end is skipped. -/
theorem Scanned.skip {idx : Nat → Nat} {k : Nat} {s s' : Scan}
    (before : Scanned tnum nums idx k s s') (past : ¬ idx k < (k + 1) * tnum) :
    Scanned tnum nums idx (k + 1) s s' := by
  refine ⟨fun r member => ?_, fun i bound inside v here => ?_, ?_⟩
  · rcases before.reads r member with old | ⟨bound, shape⟩
    · exact Or.inl old
    · exact Or.inr ⟨Nat.lt_succ_of_lt bound, shape⟩
  · rcases Nat.lt_succ_iff_lt_or_eq.mp bound with earlier | rfl
    · exact before.least i earlier inside v here
    · exact absurd inside past
  · rcases before.choice with same | ⟨lower, j, bound, shape⟩
    · exact Or.inl same
    · exact Or.inr ⟨lower, j, Nat.lt_succ_of_lt bound, shape⟩

/-- A segment whose cursor is inside it is read, and chosen if its value is
strictly below the best so far. -/
theorem Scanned.read {idx : Nat → Nat} {k : Nat} {s s' : Scan} {v : Long}
    (before : Scanned tnum nums idx k s s') (inside : idx k < (k + 1) * tnum)
    (here : nums[idx k]? = some v) :
    ∃ s'', scanStep tnum nums idx s' k = some s'' ∧ Scanned tnum nums idx (k + 1) s s'' := by
  have reads : ∀ r ∈ s'.reads ++ [(k, idx k)], r ∈ s.reads ∨
      (r.1 < k + 1 ∧ r.2 = idx r.1 ∧ idx r.1 < (r.1 + 1) * tnum) := by
    intro r member
    rcases List.mem_append.mp member with old | new
    · rcases before.reads r old with older | ⟨bound, shape⟩
      · exact Or.inl older
      · exact Or.inr ⟨Nat.lt_succ_of_lt bound, shape⟩
    · rw [List.mem_singleton.mp new]
      exact Or.inr ⟨Nat.lt_succ_self k, rfl, inside⟩
  by_cases lower : s'.num > v
  · refine ⟨⟨v, some k, s'.reads ++ [(k, idx k)]⟩, by simp [scanStep, inside, here, lower],
      reads, ?_, ?_⟩
    · intro i bound insideI w hereI
      rcases Nat.lt_succ_iff_lt_or_eq.mp bound with earlier | rfl
      · exact lower.le.trans (before.least i earlier insideI w hereI)
      · rw [here, Option.some.injEq] at hereI
        exact hereI.le
    · refine Or.inr ⟨?_, k, Nat.lt_succ_self k, rfl, inside, here⟩
      rcases before.choice with same | chosen
      · exact same.1 ▸ lower
      · exact lt_trans lower chosen.1
  · refine ⟨{ s' with reads := s'.reads ++ [(k, idx k)] }, by simp [scanStep, inside, here, lower],
      reads, ?_, ?_⟩
    · intro i bound insideI w hereI
      rcases Nat.lt_succ_iff_lt_or_eq.mp bound with earlier | rfl
      · exact before.least i earlier insideI w hereI
      · rw [here, Option.some.injEq] at hereI
        exact hereI ▸ not_lt.mp lower
    · rcases before.choice with same | ⟨below, j, bound, shape⟩
      · exact Or.inl same
      · exact Or.inr ⟨below, j, Nat.lt_succ_of_lt bound, shape⟩

theorem lt_length_of_inside (size : nums.length = nthr * tnum) {i k : Nat} (segment : i < nthr)
    (inside : k < (i + 1) * tnum) : k < nums.length := by
  rw [size]
  exact lt_of_lt_of_le inside (Nat.mul_le_mul_right _ segment)

/-- The inner loop as far as its `k`-th segment. -/
theorem scan_upTo (size : nums.length = nthr * tnum) (idx : Nat → Nat) (s : Scan) {k : Nat}
    (bound : k ≤ nthr) : ∃ s', (List.range k).foldlM (scanStep tnum nums idx) s = some s' ∧
      Scanned tnum nums idx k s s' := by
  induction k with
  | zero => exact ⟨s, rfl, scanned_zero idx s⟩
  | succ k ih =>
      obtain ⟨s', soFar, before⟩ := ih (by omega)
      rw [List.range_succ, List.foldlM_append, soFar]
      by_cases inside : idx k < (k + 1) * tnum
      · have within := lt_length_of_inside size bound inside
        obtain ⟨s'', step, after⟩ := before.read inside (List.getElem?_eq_getElem within)
        exact ⟨s'', by simpa using step, after⟩
      · exact ⟨s', by simp [scanStep, inside], before.skip inside⟩

theorem scan_spec (size : nums.length = nthr * tnum) (idx : Nat → Nat) (s : Scan) :
    ∃ s', scan nthr tnum nums idx s = some s' ∧ Scanned tnum nums idx nthr s s' :=
  scan_upTo size idx s (Nat.le_refl _)

end Scan

/-! ## Rounds -/

section Rounds

variable {nthr tnum : Nat} {nums : List Long} {m m' : Merge}

/-- The loop at its head after `k` rounds. -/
def mergeRounds (nthr tnum : Nat) (nums : List Long) : Nat → Merge → Option Merge
  | 0, m => some m
  | k + 1, m => (mergeRounds nthr tnum nums k m).bind fun m =>
      if m.sidx < nthr * tnum then mergeStep nthr tnum nums m else none

theorem mergeStep_some (step : mergeStep nthr tnum nums m = some m') :
    0 ≤ m.sidx ∧ ∃ s j, scan nthr tnum nums m.idx ⟨longMax, m.minidx, m.reads⟩ = some s ∧
      s.minidx = some j ∧ m' = ⟨Function.update m.idx j (m.idx j + 1), some j,
        wrap32 (m.sidx + 1), m.snums ++ [s.num], s.reads⟩ := by
  unfold mergeStep at step
  split at step
  · cases step
  · rename_i s scanned
    split at step
    · cases step
    · rename_i inside
      split at step
      · cases step
      · rename_i j chosen
        exact ⟨by omega, s, j, scanned, chosen, (Option.some.inj step).symm⟩

theorem wrap32_le {v : Int} (nonneg : 0 ≤ v) : wrap32 v ≤ v := by
  unfold wrap32
  omega

/-- `sidx` counts the rounds, and more than 2^31 of them are not made. -/
theorem sidx_mergeRounds {k : Nat}
    (ran : mergeRounds nthr tnum nums k (mergeInit tnum) = some m) :
    k ≤ 2 ^ 31 ∧ m.sidx = wrap32 k := by
  induction k generalizing m with
  | zero =>
      cases ran
      exact ⟨Nat.zero_le _, rfl⟩
  | succ k ih =>
      obtain ⟨m₁, before, next⟩ := Option.bind_eq_some_iff.mp ran
      obtain ⟨bound, sidx⟩ := ih before
      split at next
      · obtain ⟨inside, s, j, -, -, rfl⟩ := mergeStep_some next
        rw [sidx] at inside
        have isInt : k < 2 ^ 31 := by
          unfold wrap32 at inside
          omega
        refine ⟨isInt, ?_⟩
        show wrap32 (m₁.sidx + 1) = _
        rw [sidx, wrap32_of_mem (v := k) (by omega) (by omega), Int.natCast_succ]
      · cases next

theorem sidx_eq {k : Nat} (ran : mergeRounds nthr tnum nums k (mergeInit tnum) = some m)
    (isInt : k < 2 ^ 31) : m.sidx = k := by
  rw [(sidx_mergeRounds ran).2, wrap32_of_mem (by omega) (by omega)]

/-- One round more, while there is one to make. -/
theorem mergeRounds_succ {k : Nat}
    (ran : mergeRounds nthr tnum nums k (mergeInit tnum) = some m) (more : k < nthr * tnum)
    (step : mergeStep nthr tnum nums m = some m') :
    mergeRounds nthr tnum nums (k + 1) (mergeInit tnum) = some m' := by
  have below : m.sidx < nthr * tnum := by
    have counted := wrap32_le (Int.natCast_nonneg k)
    rw [← (sidx_mergeRounds ran).2] at counted
    exact lt_of_le_of_lt counted (by exact_mod_cast more)
  rw [mergeRounds, ran, Option.bind_some, if_pos below, step]

/-- The loop goes on from where the rounds have led. -/
theorem mergeLoop_rounds {k : Nat} (ran : mergeRounds nthr tnum nums k m = some m') (fuel : Nat) :
    mergeLoop nthr tnum nums (k + fuel) m = mergeLoop nthr tnum nums fuel m' := by
  induction k generalizing m' fuel with
  | zero =>
      cases ran
      rw [Nat.zero_add]
  | succ k ih =>
      obtain ⟨m₁, before, next⟩ := Option.bind_eq_some_iff.mp ran
      split at next
      · rename_i below
        rw [Nat.add_right_comm, Nat.add_assoc, ih before, mergeLoop, if_pos below, next,
          Option.bind_some]
      · cases next

/-- A loop that ends is at its head with the condition false. -/
theorem rounds_of_mergeLoop {k fuel : Nat} {first : Merge}
    (ran : mergeRounds nthr tnum nums k first = some m)
    (done : mergeLoop nthr tnum nums fuel m = some m') :
    ∃ n, mergeRounds nthr tnum nums n first = some m' ∧ ¬ m'.sidx < nthr * tnum := by
  induction fuel generalizing k m with
  | zero => cases done
  | succ fuel ih =>
      rw [mergeLoop] at done
      split at done
      · rename_i below
        obtain ⟨m₁, step, rest⟩ := Option.bind_eq_some_iff.mp done
        have further : mergeRounds nthr tnum nums (k + 1) first = some m₁ := by
          rw [mergeRounds, ran, Option.bind_some, if_pos below, step]
        exact ih further rest
      · rename_i atEnd
        cases done
        exact ⟨k, ran, atEnd⟩

/-- With as many rounds as there are values, and no more than an `int` can count, the loop
is done. -/
theorem merge_of_rounds (isInt : (nthr * tnum : Nat) ≤ intMax)
    (ran : mergeRounds nthr tnum nums (nthr * tnum) (mergeInit tnum) = some m) :
    merge nthr tnum nums = some m := by
  have top : intMax = 2 ^ 31 - 1 := rfl
  have sidx := sidx_eq ran (by omega)
  have atEnd : ¬ m.sidx < nthr * tnum := by
    rw [sidx, Int.natCast_mul]
    exact lt_irrefl _
  rw [merge, mergeLoop_rounds ran, mergeLoop, if_neg atEnd]

/-- An `int` never gets to a `long` above `INT_MAX`. -/
theorem merge_overflows (tooMany : intMax < (nthr * tnum : Nat)) : merge nthr tnum nums = none := by
  by_contra ends
  obtain ⟨m, done⟩ := Option.ne_none_iff_exists'.mp ends
  obtain ⟨k, ran, atEnd⟩ := @rounds_of_mergeLoop _ _ _ (mergeInit tnum) _ 0 _ _ rfl done
  obtain ⟨-, sidx⟩ := sidx_mergeRounds ran
  have top : intMax = 2 ^ 31 - 1 := rfl
  have highest : wrap32 k ≤ 2 ^ 31 - 1 := by
    unfold wrap32
    omega
  rw [sidx, ← Int.natCast_mul] at atEnd
  omega

end Rounds

/-! ## The loop invariant -/

section Merge

variable {nthr tnum : Nat} {nums : List Long} {m : Merge}

/-- What lies in front of cursor `i` in its segment. -/
def ahead (tnum : Nat) (nums : List Long) (m : Merge) (i : Nat) : List Long :=
  slice nums (m.idx i) ((i + 1) * tnum)

structure Invariant (nthr tnum : Nat) (nums : List Long) (m : Merge) : Prop where
  lower : ∀ i < nthr, i * tnum ≤ m.idx i
  chosen : ∀ j, m.minidx = some j → j < nthr
  reads : ∀ r ∈ m.reads, r.1 < nthr ∧ r.1 * tnum ≤ r.2 ∧ r.2 < (r.1 + 1) * tnum
  counts : ∀ v < longMax,
    m.snums.count v + ∑ i ∈ Finset.range nthr, (ahead tnum nums m i).count v = nums.count v
  ascending : m.snums.Pairwise (· ≤ ·)
  below : ∀ s ∈ m.snums, ∀ i < nthr, ∀ v ∈ ahead tnum nums m i, s ≤ v
  /-- `minidx` is assigned, or some round will still assign it. -/
  primed : m.minidx.isSome ∨ ∃ i < nthr, ∃ v ∈ ahead tnum nums m i, v < longMax

theorem mergeInit_invariant (size : nums.length = nthr * tnum) (low : ∃ v ∈ nums, v < longMax) :
    Invariant nthr tnum nums (mergeInit tnum) := by
  have counts : ∀ v, ∑ i ∈ Finset.range nthr, (ahead tnum nums (mergeInit tnum) i).count v =
      nums.count v := by
    intro v
    have total := sum_count_slices nums tnum nthr v
    rw [← size, List.take_length] at total
    exact total
  refine ⟨fun i _ => Nat.le_refl _, by simp [mergeInit], by simp [mergeInit], ?_,
    by simp [mergeInit], by simp [mergeInit], Or.inr ?_⟩
  · intro v _
    simpa [mergeInit] using counts v
  · obtain ⟨v, member, below⟩ := low
    have positive : 0 < ∑ i ∈ Finset.range nthr, (ahead tnum nums (mergeInit tnum) i).count v := by
      rw [counts]
      exact List.count_pos_iff.mpr member
    obtain ⟨i, inRange, count⟩ :=
      Finset.exists_ne_zero_of_sum_ne_zero (Nat.pos_iff_ne_zero.mp positive)
    exact ⟨i, Finset.mem_range.mp inRange, v,
      List.count_pos_iff.mp (Nat.pos_of_ne_zero count), below⟩

/-- Advancing one cursor takes at most the value under it away. -/
theorem ahead_advance (tnum : Nat) (nums : List Long) (m m' : Merge) (j i : Nat)
    (advanced : m'.idx = Function.update m.idx j (m.idx j + 1)) :
    (ahead tnum nums m' i).Sublist (ahead tnum nums m i) := by
  unfold ahead
  rw [advanced]
  by_cases same : i = j
  · subst same
    rw [Function.update_self]
    exact slice_succ_sublist _ _ _
  · rw [Function.update_of_ne same]

/-- The value under a cursor in its segment lies in front of it. -/
theorem mem_ahead {i : Nat} {v : Long} (inside : m.idx i < (i + 1) * tnum)
    (here : nums[m.idx i]? = some v) : v ∈ ahead tnum nums m i := by
  unfold ahead
  rw [slice_cons inside here]
  exact List.mem_cons_self

/-- In a sorted segment the value under the cursor is the least one ahead. -/
theorem head_le_ahead {i : Nat} {v w : Long} (sorted : (ahead tnum nums m i).Pairwise (· ≤ ·))
    (inside : m.idx i < (i + 1) * tnum) (here : nums[m.idx i]? = some v)
    (member : w ∈ ahead tnum nums m i) : v ≤ w := by
  unfold ahead at sorted member
  rw [slice_cons inside here] at sorted member
  rcases List.mem_cons.mp member with rfl | later
  · exact le_refl _
  · exact List.rel_of_pairwise_cons sorted later

theorem ahead_sorted {i : Nat}
    (segment : (slice nums (i * tnum) ((i + 1) * tnum)).Pairwise (· ≤ ·))
    (lower : i * tnum ≤ m.idx i) : (ahead tnum nums m i).Pairwise (· ≤ ·) := by
  refine segment.sublist ?_
  unfold ahead slice
  rw [show m.idx i = i * tnum + (m.idx i - i * tnum) by omega, ← List.drop_drop]
  exact List.drop_sublist _ _

/-- A value ahead of a cursor means the cursor is inside its segment. -/
theorem inside_of_mem_ahead {i : Nat} {v : Long} (size : nums.length = nthr * tnum)
    (segment : i < nthr) (member : v ∈ ahead tnum nums m i) :
    ∃ u, m.idx i < (i + 1) * tnum ∧ nums[m.idx i]? = some u := by
  have inside : m.idx i < (i + 1) * tnum := by
    by_contra past
    unfold ahead at member
    rw [slice_eq_nil (not_lt.mp past)] at member
    cases member
  have within := lt_length_of_inside size segment inside
  exact ⟨nums[m.idx i], inside, List.getElem?_eq_getElem within⟩

/-- What a round stores is no larger than anything ahead of a cursor. -/
theorem num_le_ahead {s₀ s : Scan} (size : nums.length = nthr * tnum)
    (sorted : ∀ i < nthr, (slice nums (i * tnum) ((i + 1) * tnum)).Pairwise (· ≤ ·))
    (lower : ∀ i < nthr, i * tnum ≤ m.idx i) (spec : Scanned tnum nums m.idx nthr s₀ s) :
    ∀ i < nthr, ∀ v ∈ ahead tnum nums m i, s.num ≤ v := by
  intro i segment v member
  obtain ⟨u, inside, here⟩ := inside_of_mem_ahead size segment member
  exact (spec.least i segment inside u here).trans
    (head_le_ahead (ahead_sorted (sorted i segment) (lower i segment)) inside here member)

/-- The ledger of a round: below `LONG_MAX`, what it stores is exactly what
disappears in front of the cursors. -/
theorem count_round (m' : Merge) {s : Scan} {j : Nat} (chosen : j < nthr)
    (advanced : m'.idx = Function.update m.idx j (m.idx j + 1))
    (least : ∀ i < nthr, ∀ v ∈ ahead tnum nums m i, s.num ≤ v)
    (source : s.num = longMax ∨ (m.idx j < (j + 1) * tnum ∧ nums[m.idx j]? = some s.num))
    {v : Long} (low : v < longMax) :
    [s.num].count v + ∑ i ∈ Finset.range nthr, (ahead tnum nums m' i).count v =
      ∑ i ∈ Finset.range nthr, (ahead tnum nums m i).count v := by
  rcases source with top | ⟨inside, here⟩
  · -- nothing below the top is left, before or after
    have none_ahead : ∀ i ∈ Finset.range nthr, (ahead tnum nums m i).count v = 0 := by
      intro i inRange
      rw [List.count_eq_zero]
      intro member
      have bound := least i (Finset.mem_range.mp inRange) v member
      rw [top] at bound
      exact absurd low (not_lt.mpr bound)
    have none_after : ∀ i ∈ Finset.range nthr, (ahead tnum nums m' i).count v = 0 := by
      intro i inRange
      have fewer := (ahead_advance tnum nums m m' j i advanced).count_le v
      rw [none_ahead i inRange] at fewer
      exact Nat.le_zero.mp fewer
    rw [Finset.sum_eq_zero none_ahead, Finset.sum_eq_zero none_after, top]
    simp [low.ne']
  · have mem : j ∈ Finset.range nthr := Finset.mem_range.mpr chosen
    have here_ahead : ahead tnum nums m j = s.num :: ahead tnum nums m' j := by
      unfold ahead
      rw [advanced, Function.update_self]
      exact slice_cons inside here
    have elsewhere : ∀ i ∈ (Finset.range nthr).erase j,
        (ahead tnum nums m' i).count v = (ahead tnum nums m i).count v := by
      intro i other
      unfold ahead
      rw [advanced, Function.update_of_ne (Finset.ne_of_mem_erase other)]
    rw [← Finset.add_sum_erase _ _ mem, ← Finset.add_sum_erase _ _ mem,
      Finset.sum_congr rfl elsewhere, here_ahead, List.count_cons, List.count_cons, List.count_nil]
    omega

/-- One round keeps the invariant and stores one value. -/
theorem mergeStep_invariant (size : nums.length = nthr * tnum)
    (sorted : ∀ i < nthr, (slice nums (i * tnum) ((i + 1) * tnum)).Pairwise (· ≤ ·))
    (inv : Invariant nthr tnum nums m) (inside : 0 ≤ m.sidx) :
    ∃ m', mergeStep nthr tnum nums m = some m' ∧ Invariant nthr tnum nums m' ∧
      m'.snums.length = m.snums.length + 1 := by
  obtain ⟨s, scanned, spec⟩ := scan_spec size m.idx ⟨longMax, m.minidx, m.reads⟩
  have least := num_le_ahead size sorted inv.lower spec
  -- the cursor that moves: the chosen one, or the stale one of an earlier round
  obtain ⟨j, minidx, chosen, source⟩ : ∃ j, s.minidx = some j ∧ j < nthr ∧
      (s.num = longMax ∨ (m.idx j < (j + 1) * tnum ∧ nums[m.idx j]? = some s.num)) := by
    rcases spec.choice with ⟨top, stale⟩ | ⟨-, j, bound, minidx, shape⟩
    · obtain ⟨j, assigned⟩ : ∃ j, m.minidx = some j := by
        rcases inv.primed with assigned | ⟨i, segment, v, member, low⟩
        · exact Option.isSome_iff_exists.mp assigned
        · have bound := least i segment v member
          rw [top] at bound
          exact absurd low (not_lt.mpr bound)
      exact ⟨j, stale.trans assigned, inv.chosen j assigned, Or.inl top⟩
    · exact ⟨j, minidx, bound, Or.inr shape⟩
  let m' : Merge := ⟨Function.update m.idx j (m.idx j + 1), some j, wrap32 (m.sidx + 1),
    m.snums ++ [s.num], s.reads⟩
  refine ⟨m', by simp [mergeStep, scanned, minidx, inside, m'], ?_, by simp [m']⟩
  refine ⟨fun i segment => ?_, ?_, fun r member => ?_, fun v low => ?_, ?_, ?_, Or.inl rfl⟩
  · by_cases same : i = j
    · subst same
      simp only [m', Function.update_self]
      exact Nat.le_succ_of_le (inv.lower i segment)
    · simp only [m', Function.update_of_ne same]
      exact inv.lower i segment
  · rintro k ⟨⟩
    exact chosen
  · rcases spec.reads r member with old | ⟨segment, place, inside⟩
    · exact inv.reads r old
    · exact ⟨segment, place ▸ inv.lower r.1 segment, place ▸ inside⟩
  · have round := count_round m' chosen rfl least source low
    have before := inv.counts v low
    simp only [m', List.count_append] at round ⊢
    omega
  · refine List.pairwise_append.mpr ⟨inv.ascending, List.pairwise_singleton _ _, ?_⟩
    intro a stored b new
    rw [List.mem_singleton.mp new]
    rcases source with top | ⟨inside, here⟩
    · exact top ▸ le_longMax a
    · exact inv.below a stored j chosen s.num (mem_ahead inside here)
  · intro a stored i segment v member
    have member' := (ahead_advance tnum nums m m' j i rfl).subset member
    rcases List.mem_append.mp stored with old | new
    · exact inv.below a old i segment v member'
    · rw [List.mem_singleton.mp new]
      exact least i segment v member'

/-- As far as `sidx` is an `int`, the loop runs with the invariant. -/
theorem mergeRounds_invariant (size : nums.length = nthr * tnum)
    (sorted : ∀ i < nthr, (slice nums (i * tnum) ((i + 1) * tnum)).Pairwise (· ≤ ·))
    (low : ∃ v ∈ nums, v < longMax) {k : Nat} (rounds : k ≤ nthr * tnum) (isInt : k ≤ 2 ^ 31) :
    ∃ m, mergeRounds nthr tnum nums k (mergeInit tnum) = some m ∧ Invariant nthr tnum nums m ∧
      m.snums.length = k := by
  induction k with
  | zero => exact ⟨_, rfl, mergeInit_invariant size low, rfl⟩
  | succ k ih =>
      obtain ⟨m, ran, inv, length⟩ := ih (by omega) (by omega)
      have sidx := sidx_eq ran (by omega)
      obtain ⟨m', step, inv', grown⟩ := mergeStep_invariant size sorted inv (by omega)
      exact ⟨m', mergeRounds_succ ran rounds step, inv', by omega⟩

/-- When as many values are stored as there were, none below `LONG_MAX` is left
in front of a cursor. -/
theorem Invariant.snums_perm (inv : Invariant nthr tnum nums m)
    (full : m.snums.length = nums.length) : m.snums.Perm nums := by
  refine perm_of_count_below_top le_longMax (fun v low => ?_) full
  have before := inv.counts v low
  by_contra differs
  have left : ∑ i ∈ Finset.range nthr, (ahead tnum nums m i).count v ≠ 0 := by omega
  obtain ⟨i, inRange, count⟩ := Finset.exists_ne_zero_of_sum_ne_zero left
  have member : v ∈ ahead tnum nums m i := List.count_pos_iff.mp (Nat.pos_of_ne_zero count)
  -- then everything stored is below the top, so the stored values fit into the input
  have lowStored : ∀ a ∈ m.snums, a < longMax := fun a stored =>
    lt_of_le_of_lt (inv.below a stored i (Finset.mem_range.mp inRange) v member) low
  have fits : m.snums.Subperm nums := by
    rw [List.subperm_ext_iff]
    intro a stored
    have := inv.counts a (lowStored a stored)
    omega
  have equal := (fits.perm_of_length_le full.ge).count_eq v
  omega

end Merge

/-! ## The whole program -/

section Program

variable (lib : Qsort) (nthr tnum : Nat) (nums : List Long)

theorem normQsort_eq_of_sorted_perm {l : List Long} (sorted : l.Pairwise (· ≤ ·))
    (perm : l.Perm nums) : l = normQsort lib nums :=
  List.Perm.eq_of_pairwise' sorted (qsort_sorted nums)
    (perm.trans (lib.perm cmplong cmplong_consistent nums).symm)

/-- The program as far as its results go: they are the ascending permutation of the input,
what one `qsort` over the whole array gives, and every access to `nums` made by `merge`
lies in the segment it was made for. -/
def SortsAll (result : Option Merge) : Prop :=
  ∃ m, result = some m ∧ m.snums.Pairwise (· ≤ ·) ∧ m.snums.Perm nums ∧
    m.snums = normQsort lib nums ∧
    ∀ r ∈ m.reads, r.1 < nthr ∧ r.1 * tnum ≤ r.2 ∧ r.2 < (r.1 + 1) * tnum

/-- After as many rounds as an `int` can count, and no more than there are values. -/
theorem barrierSort_rounds (size : nums.length = nthr * tnum) (low : ∃ v ∈ nums, v < longMax)
    {k : Nat} (rounds : k ≤ nthr * tnum) (isInt : k ≤ 2 ^ 31) :
    ∃ m, mergeRounds nthr tnum (sortSegments lib nthr tnum nums) k (mergeInit tnum) = some m ∧
      Invariant nthr tnum (sortSegments lib nthr tnum nums) m ∧ m.snums.length = k := by
  have workers := sortSegments_sorted lib size
  obtain ⟨v, member, below⟩ := low
  exact mergeRounds_invariant (workers.perm.length_eq.trans size) workers.sorted
    ⟨v, workers.perm.mem_iff.mpr member, below⟩ rounds isInt

/-- **Parallel sort equals plain sort**, for every number of segments and every segment
length, if at least one value is below `LONG_MAX`, exactly as long as `int sidx` can count
the values. -/
theorem barrierSort_eq_normQsort_iff (size : nums.length = nthr * tnum)
    (low : ∃ v ∈ nums, v < longMax) :
    SortsAll lib nthr tnum nums (barrierSort lib nthr tnum nums) ↔
      (nthr * tnum : Nat) ≤ intMax := by
  constructor
  · rintro ⟨m, finishes, -⟩
    by_contra tooMany
    rw [barrierSort, merge_overflows (not_le.mp tooMany)] at finishes
    cases finishes
  · intro isInt
    have top : intMax = 2 ^ 31 - 1 := rfl
    obtain ⟨m, ran, inv, length⟩ :=
      barrierSort_rounds lib nthr tnum nums size low (Nat.le_refl _) (by omega)
    have workers := sortSegments_sorted lib size
    have full : m.snums.length = (sortSegments lib nthr tnum nums).length := by
      rw [length, workers.perm.length_eq, size]
    have perm := (inv.snums_perm full).trans workers.perm
    exact ⟨m, merge_of_rounds isInt ran, inv.ascending, perm,
      normQsort_eq_of_sorted_perm lib nums inv.ascending perm, inv.reads⟩

end Program

/-- An insertion sort meets what the standard says of `qsort`. -/
def insertionQsort : Qsort where
  qsort cmp l := l.insertionSort fun a b => cmp a b ≤ 0
  perm _ _ l := l.perm_insertionSort _
  sorted cmp consistent l :=
    haveI : Std.Total fun a b => cmp a b ≤ 0 := ⟨consistent.total⟩
    haveI : IsTrans _ fun a b => cmp a b ≤ 0 := ⟨consistent.trans⟩
    l.pairwise_insertionSort _

/-- Two segments with two `LONG_MAX` in the first: the second phase advances a
cursor whose segment is already used up. -/
theorem barrierSort_eq_normQsort_with_longMax :
    let nums : List Long := [longMax, longMax, ⟨7, by decide⟩, ⟨-3, by decide⟩]
    SortsAll insertionQsort 2 2 nums (barrierSort insertionQsort 2 2 nums) :=
  (barrierSort_eq_normQsort_iff insertionQsort 2 2 _ rfl
    ⟨⟨7, by decide⟩, by simp, show (7 : Int) < 2 ^ 63 - 1 by decide⟩).mpr (by decide)

theorem zero_range : -2 ^ 63 ≤ (0 : Int) ∧ (0 : Int) ≤ 2 ^ 63 - 1 := by decide

/-- `n` zeros. -/
def zeroLongs (n : Nat) : List Long := List.replicate n ⟨0, zero_range⟩

/-- 2^31 zeros in one segment: when all are stored `sidx` is -2^31, the loop goes on, and
its next store is outside `snums`. -/
theorem sidx_overflows :
    (∃ v ∈ zeroLongs (2 ^ 31), v < longMax) ∧ (zeroLongs (2 ^ 31)).length = 1 * 2 ^ 31 ∧
    (∃ m, mergeRounds 1 (2 ^ 31)
        (sortSegments insertionQsort 1 (2 ^ 31) (zeroLongs (2 ^ 31))) (2 ^ 31)
        (mergeInit (2 ^ 31)) = some m ∧ m.snums.length = 2 ^ 31 ∧ m.sidx = -2 ^ 31 ∧
      mergeStep 1 (2 ^ 31)
        (sortSegments insertionQsort 1 (2 ^ 31) (zeroLongs (2 ^ 31))) m = none) ∧
    barrierSort insertionQsort 1 (2 ^ 31) (zeroLongs (2 ^ 31)) = none := by
  have low : ∃ v ∈ zeroLongs (2 ^ 31), v < longMax :=
    ⟨⟨0, zero_range⟩, List.mem_replicate.mpr ⟨by decide, rfl⟩,
      show (0 : Int) < 2 ^ 63 - 1 by decide⟩
  have size : (zeroLongs (2 ^ 31)).length = 1 * 2 ^ 31 := by
    rw [zeroLongs, List.length_replicate, Nat.one_mul]
  obtain ⟨m, ran, -, length⟩ := barrierSort_rounds insertionQsort 1 (2 ^ 31) _ size low
    (k := 2 ^ 31) (by omega) (Nat.le_refl _)
  have sidx : m.sidx = -2 ^ 31 := (sidx_mergeRounds ran).2
  refine ⟨low, size, ⟨m, ran, length, sidx, ?_⟩, merge_overflows (by decide)⟩
  by_contra stored
  obtain ⟨m', step⟩ := Option.ne_none_iff_exists'.mp stored
  have inside := (mergeStep_some step).1
  rw [sidx] at inside
  exact absurd inside (by decide)

end UnixDemos.Pthread.BarrierSort
