/-
# Pthread.BarrierCursor — the cursors of merge, and where `LONG_MAX` breaks them

As long as a value below `LONG_MAX` is ahead of a cursor, a round takes the first of the
least values and advances its cursor.  So what is taken comes in the order of the pairs
(value, segment), and the last of it is the greatest such pair.  From then on `minidx`
stays, and every further round advances that one cursor.

This goes well exactly if that segment is the one that holds what is left, so if every
segment with a `LONG_MAX` in it has the greatest pair (`Greatest`), and if `sidx` can count
the values.  `Cursors` is the
invariant of a run that goes well: a `LONG_MAX` that was taken already is evidence for the
condition (`topped`), and for a run in which the condition holds `Cursors.round` finds the
next round to go well.
-/
import Mathlib.Data.Prod.Lex
import UnixDemos.Pthread.BarrierMerge

namespace UnixDemos.Pthread.BarrierSort

open UnixDemos.Library

set_option autoImplicit false

section Cursors

variable {nthr tnum : Nat} {nums : List Long} {m m' : Merge}

/-- Among equal values the inner loop chooses the one in the first segment. -/
theorem scan_first (size : nums.length = nthr * tnum) {idx : Nat → Nat} {s s' : Scan}
    (scanned : scan nthr tnum nums idx s = some s') (lower : s'.num < s.num) {j : Nat}
    (chosen : s'.minidx = some j) {i : Nat} (before : i < j) (inside : idx i < (i + 1) * tnum)
    {v : Long} (here : nums[idx i]? = some v) : s'.num < v := by
  have upTo : ∀ k ≤ nthr, ∀ s', (List.range k).foldlM (scanStep tnum nums idx) s = some s' →
      s'.num < s.num → s'.minidx = some j → s'.num < v := by
    intro k
    induction k with
    | zero =>
        intro _ s' none lower
        cases none
        exact absurd lower (lt_irrefl _)
    | succ k ih =>
        intro bound s' folded lower chosen
        obtain ⟨s₁, soFar, spec⟩ := scan_upTo size idx s (show k ≤ nthr by omega)
        rw [List.range_succ, List.foldlM_append, soFar] at folded
        have step : scanStep tnum nums idx s₁ k = some s' := by simpa using folded
        unfold scanStep at step
        split at step
        · split at step
          · cases step
          · split at step
            · rename_i w here' less
              cases step
              cases chosen
              exact lt_of_lt_of_le less (spec.least i before inside v here)
            · cases step
              exact ih (by omega) s₁ soFar lower chosen
        · cases step
          exact ih (by omega) _ soFar lower chosen
  exact upTo nthr (Nat.le_refl _) s' scanned lower chosen

/-! ## Rounds that go well -/

def segment (tnum : Nat) (nums : List Long) (i : Nat) : List Long :=
  slice nums (i * tnum) ((i + 1) * tnum)

/-- What the cursor `i` has passed. -/
def taken (tnum : Nat) (nums : List Long) (m : Merge) (i : Nat) : List Long :=
  slice nums (i * tnum) (m.idx i)

/-- The value stored is the one under a cursor in its segment, and that cursor advances. -/
structure Round (nthr tnum : Nat) (nums : List Long) (m m' : Merge) (j : Nat) (v : Long) :
    Prop where
  step : mergeStep nthr tnum nums m = some m'
  segment : j < nthr
  inside : m.idx j < (j + 1) * tnum
  value : nums[m.idx j]? = some v
  stored : m'.snums = m.snums ++ [v]
  advanced : m'.idx = Function.update m.idx j (m.idx j + 1)

/-- The cursor that advances is the one `minidx` names. -/
theorem Round.scan (size : nums.length = nthr * tnum) {j : Nat} {v : Long}
    (round : Round nthr tnum nums m m' j v) :
    ∃ s, scan nthr tnum nums m.idx ⟨longMax, m.minidx, m.reads⟩ = some s ∧
      Scanned tnum nums m.idx nthr ⟨longMax, m.minidx, m.reads⟩ s ∧ s.minidx = some j ∧
      s.num = v ∧ m'.minidx = some j := by
  obtain ⟨-, s, j', scanned, chosen, rfl⟩ := mergeStep_some round.step
  obtain ⟨s', scanned', spec⟩ := scan_spec size m.idx ⟨longMax, m.minidx, m.reads⟩
  cases scanned.symm.trans scanned'
  have sameNum : [s.num] = [v] := List.append_cancel_left round.stored
  have sameCursor : j' = j := by
    have moved := congrFun round.advanced j
    by_contra other
    simp [Function.update_of_ne (Ne.symm other)] at moved
  subst sameCursor
  exact ⟨s, scanned, spec, chosen, List.head_eq_of_cons_eq sameNum, rfl⟩

theorem Round.mem_taken {j : Nat} {v : Long} (round : Round nthr tnum nums m m' j v)
    (lower : j * tnum ≤ m.idx j) {l : Nat} {w : Long} :
    w ∈ taken tnum nums m' l ↔ w ∈ taken tnum nums m l ∨ l = j ∧ w = v := by
  unfold taken
  rw [round.advanced]
  by_cases same : l = j
  · subst same
    rw [Function.update_self, slice_snoc lower round.value, List.mem_append, List.mem_singleton]
    simp
  · rw [Function.update_of_ne same]
    simp [same]

theorem Round.mem_ahead {j : Nat} {v : Long} (round : Round nthr tnum nums m m' j v) {l : Nat}
    {w : Long} (member : w ∈ ahead tnum nums m' l) : w ∈ ahead tnum nums m l :=
  (ahead_advance tnum nums m m' j l round.advanced).subset member

/-! ## The order in which values are taken -/

/-- The greatest value below `LONG_MAX`, in the last segment that has it. -/
structure Greatest (nthr tnum : Nat) (nums : List Long) (i : Nat) (v : Long) : Prop where
  mem : v ∈ segment tnum nums i
  low : v < longMax
  greatest : ∀ l < nthr, ∀ w ∈ segment tnum nums l, w < longMax → toLex (w, l) ≤ toLex (v, i)

/-- The value below `LONG_MAX` that was taken last, between those taken and those ahead. -/
structure Last (nthr tnum : Nat) (nums : List Long) (m : Merge) (j : Nat) (v : Long) : Prop where
  segment : j < nthr
  mem : v ∈ taken tnum nums m j
  low : v < longMax
  taken : ∀ l < nthr, ∀ w ∈ taken tnum nums m l, w < longMax → toLex (w, l) ≤ toLex (v, j)
  ahead : ∀ l < nthr, ∀ w ∈ ahead tnum nums m l, w < longMax → toLex (v, j) ≤ toLex (w, l)

structure Cursors (nthr tnum : Nat) (nums : List Long) (m : Merge) : Prop where
  lower : ∀ i < nthr, i * tnum ≤ m.idx i
  upper : ∀ i < nthr, m.idx i ≤ (i + 1) * tnum
  rounds : ∑ i ∈ Finset.range nthr, (m.idx i - i * tnum) = m.snums.length
  unassigned : m.minidx = none → ∀ i < nthr, m.idx i = i * tnum
  last : ∀ j, m.minidx = some j → ∃ v, Last nthr tnum nums m j v
  topped : ∀ i < nthr, longMax ∈ taken tnum nums m i → ∃ v, Greatest nthr tnum nums i v

theorem cursors_init (nthr tnum : Nat) (nums : List Long) :
    Cursors nthr tnum nums (mergeInit tnum) := by
  have nothing (i : Nat) : taken tnum nums (mergeInit tnum) i = [] := slice_eq_nil (Nat.le_refl _)
  refine ⟨fun _ _ => Nat.le_refl _, fun i _ => ?_, by simp [mergeInit], fun _ _ _ => rfl, nofun, ?_⟩
  · exact Nat.mul_le_mul_right _ (Nat.le_succ i)
  · intro i _ member
    rw [nothing] at member
    cases member

theorem Cursors.mem_segment (cursors : Cursors nthr tnum nums m) (size : nums.length = nthr * tnum)
    {i : Nat} (bound : i < nthr) {v : Long} :
    v ∈ segment tnum nums i ↔ v ∈ taken tnum nums m i ∨ v ∈ ahead tnum nums m i := by
  have inside : m.idx i ≤ nums.length := by
    have := segment_inside size bound
    have := cursors.upper i bound
    rw [Nat.succ_mul] at this
    omega
  unfold segment taken ahead
  rw [← slice_append (cursors.lower i bound) (cursors.upper i bound) inside, List.mem_append]

theorem Cursors.full_iff (cursors : Cursors nthr tnum nums m) :
    m.snums.length = nthr * tnum ↔ ∀ i < nthr, m.idx i = (i + 1) * tnum := by
  have width : ∀ i ∈ Finset.range nthr, m.idx i - i * tnum ≤ tnum := by
    intro i inRange
    have upper := cursors.upper i (Finset.mem_range.mp inRange)
    rw [Nat.succ_mul] at upper
    omega
  have whole : ∑ _i ∈ Finset.range nthr, tnum = nthr * tnum := by simp
  rw [← cursors.rounds, ← whole, Finset.sum_eq_sum_iff_of_le width]
  refine forall_congr' fun i => ?_
  rw [Finset.mem_range]
  refine forall_congr' fun bound => ?_
  have lower := cursors.lower i bound
  rw [Nat.succ_mul]
  omega

/-- Once nothing below `LONG_MAX` is ahead, the last pair taken is the greatest of all. -/
theorem Cursors.greatest (cursors : Cursors nthr tnum nums m) (size : nums.length = nthr * tnum)
    {j : Nat} {v : Long} (last : Last nthr tnum nums m j v)
    (done : ∀ i < nthr, ∀ w ∈ ahead tnum nums m i, longMax ≤ w) : Greatest nthr tnum nums j v := by
  refine ⟨(cursors.mem_segment size last.segment).mpr (Or.inl last.mem), last.low, ?_⟩
  intro l bound w member low
  rcases (cursors.mem_segment size bound).mp member with before | later
  · exact last.taken l bound w before low
  · exact absurd low (not_lt.mpr (done l bound w later))

theorem Greatest.unique {i j : Nat} {v w : Long} (first : Greatest nthr tnum nums i v)
    (bound : i < nthr) (second : Greatest nthr tnum nums j w) (bound' : j < nthr) : i = j := by
  have same : toLex (v, i) = toLex (w, j) :=
    le_antisymm (second.greatest i bound v first.mem first.low)
      (first.greatest j bound' w second.mem second.low)
  exact congrArg Prod.snd (toLex.injective same)

/-! ## One round -/

section Rounds

variable (size : nums.length = nthr * tnum)
  (sorted : ∀ i < nthr, (slice nums (i * tnum) ((i + 1) * tnum)).Pairwise (· ≤ ·))
  {j : Nat} {v : Long}

include size sorted

/-- A value below `LONG_MAX` comes behind those taken before and not behind those ahead. -/
theorem Cursors.last_of_low (cursors : Cursors nthr tnum nums m)
    (round : Round nthr tnum nums m m' j v) (low : v < longMax) : Last nthr tnum nums m' j v := by
  obtain ⟨s, scanned, spec, chosen, rfl, -⟩ := round.scan size
  have least := num_le_ahead size sorted cursors.lower spec
  have mem_taken {l : Nat} {w : Long} := @Round.mem_taken _ _ _ _ _ _ _ round
    (cursors.lower j round.segment) l w
  have here := mem_ahead round.inside round.value
  refine ⟨round.segment, mem_taken.mpr (Or.inr ⟨rfl, rfl⟩), low, ?_, ?_⟩
  · intro l bound w member lowW
    rcases mem_taken.mp member with before | ⟨rfl, rfl⟩
    · cases assigned : m.minidx with
      | none =>
          have empty : taken tnum nums m l = [] := by
            unfold taken
            rw [cursors.unassigned assigned l bound, slice_eq_nil (Nat.le_refl _)]
          rw [empty] at before
          cases before
      | some j₀ =>
          obtain ⟨v₀, last⟩ := cursors.last j₀ assigned
          exact (last.taken l bound w before lowW).trans (last.ahead j round.segment _ here low)
    · exact le_refl _
  · intro l bound w member lowW
    have member := round.mem_ahead member
    rw [Prod.Lex.toLex_le_toLex]
    rcases (least l bound w member).lt_or_eq with less | same
    · exact Or.inl less
    · refine Or.inr ⟨same, ?_⟩
      by_contra first
      obtain ⟨u, inside, at_cursor⟩ := inside_of_mem_ahead size bound member
      have strict := scan_first size scanned low chosen (not_le.mp first) inside at_cursor
      have headLe := head_le_ahead (ahead_sorted (sorted l bound) (cursors.lower l bound)) inside
        at_cursor member
      exact absurd (lt_of_lt_of_le strict headLe) (by simp [same])

/-- A round that stores `LONG_MAX` has left `minidx` alone, and nothing below is ahead. -/
theorem Cursors.stale_of_top (cursors : Cursors nthr tnum nums m)
    (round : Round nthr tnum nums m m' j longMax) :
    ∃ v, Last nthr tnum nums m j v ∧ Greatest nthr tnum nums j v := by
  obtain ⟨s, -, spec, chosen, top, -⟩ := round.scan size
  rcases spec.choice with ⟨-, stale⟩ | ⟨lower, -⟩
  · obtain ⟨v, last⟩ := cursors.last j (stale.symm.trans chosen)
    have least := num_le_ahead size sorted cursors.lower spec
    rw [top] at least
    exact ⟨v, last, cursors.greatest size last least⟩
  · exact absurd top lower.ne

theorem Cursors.last_step (cursors : Cursors nthr tnum nums m)
    (round : Round nthr tnum nums m m' j v) : ∃ w, Last nthr tnum nums m' j w := by
  rcases (le_longMax v).lt_or_eq with low | rfl
  · exact ⟨v, cursors.last_of_low size sorted round low⟩
  · obtain ⟨w, last, -⟩ := cursors.stale_of_top size sorted round
    have lower := cursors.lower j round.segment
    refine ⟨w, last.segment, (round.mem_taken lower).mpr (Or.inl last.mem), last.low, ?_, ?_⟩
    · intro l bound u member low
      rcases (round.mem_taken lower).mp member with before | ⟨-, rfl⟩
      · exact last.taken l bound u before low
      · exact absurd low (lt_irrefl _)
    · intro l bound u member
      exact last.ahead l bound u (round.mem_ahead member)

/-- A round that goes well keeps the invariant. -/
theorem Cursors.step (cursors : Cursors nthr tnum nums m)
    (round : Round nthr tnum nums m m' j v) : Cursors nthr tnum nums m' := by
  have lower := cursors.lower j round.segment
  obtain ⟨-, -, -, -, -, assigned⟩ := round.scan size
  refine ⟨fun i bound => ?_, fun i bound => ?_, ?_, fun none => ?_, fun i chosen => ?_, ?_⟩
  · rw [round.advanced, Function.update_apply]
    split
    · rename_i same
      subst same
      exact Nat.le_succ_of_le lower
    · exact cursors.lower i bound
  · rw [round.advanced, Function.update_apply]
    split
    · rename_i same
      subst same
      exact round.inside
    · exact cursors.upper i bound
  · have member : j ∈ Finset.range nthr := Finset.mem_range.mpr round.segment
    have elsewhere : ∀ i ∈ (Finset.range nthr).erase j,
        m'.idx i - i * tnum = m.idx i - i * tnum := by
      intro i other
      rw [round.advanced, Function.update_of_ne (Finset.ne_of_mem_erase other)]
    have before := cursors.rounds
    rw [← Finset.add_sum_erase _ _ member] at before
    rw [← Finset.add_sum_erase _ _ member, Finset.sum_congr rfl elsewhere, round.advanced,
      Function.update_self, round.stored, List.length_append, List.length_singleton]
    omega
  · rw [assigned] at none
    cases none
  · cases assigned.symm.trans chosen
    exact cursors.last_step size sorted round
  · intro i bound member
    rcases (round.mem_taken lower).mp member with before | ⟨rfl, rfl⟩
    · exact cursors.topped i bound before
    · obtain ⟨w, -, greatest⟩ := cursors.stale_of_top size sorted round
      exact ⟨w, greatest⟩

/-- Where every segment with a `LONG_MAX` has the greatest pair, the next round goes well. -/
theorem Cursors.round (cursors : Cursors nthr tnum nums m)
    (tops : ∀ i < nthr, longMax ∈ segment tnum nums i → ∃ v, Greatest nthr tnum nums i v)
    (unfinished : m.snums.length ≠ nthr * tnum) (counted : 0 ≤ m.sidx) :
    ∃ m' j v, Round nthr tnum nums m m' j v := by
  obtain ⟨s, scanned, spec⟩ := scan_spec size m.idx ⟨longMax, m.minidx, m.reads⟩
  rcases spec.choice with ⟨top, stale⟩ | ⟨-, j, bound, chosen, inside, here⟩
  · have done := num_le_ahead size sorted cursors.lower spec
    rw [top] at done
    -- a cursor that is not at its end stands on a `LONG_MAX`
    obtain ⟨i, bound, short⟩ : ∃ i < nthr, m.idx i ≠ (i + 1) * tnum := by
      by_contra all
      push Not at all
      exact unfinished (cursors.full_iff.mpr all)
    have inside : m.idx i < (i + 1) * tnum := lt_of_le_of_ne (cursors.upper i bound) short
    have cell := List.getElem?_eq_getElem (lt_length_of_inside size bound inside)
    have member := mem_ahead inside cell
    have isTop := le_antisymm (le_longMax _) (done i bound _ member)
    rw [isTop] at member cell
    obtain ⟨v, greatest⟩ := tops i bound ((cursors.mem_segment size bound).mpr (Or.inr member))
    cases assigned : m.minidx with
    | none =>
        -- nothing has been taken, so the greatest value below is still ahead
        have untouched : segment tnum nums i = ahead tnum nums m i := by
          unfold segment ahead
          rw [cursors.unassigned assigned i bound]
        have low := done i bound v (untouched ▸ greatest.mem)
        exact absurd greatest.low (not_lt.mpr low)
    | some j =>
        obtain ⟨w, last⟩ := cursors.last j assigned
        obtain rfl := greatest.unique bound (cursors.greatest size last done) last.segment
        have chosen : s.minidx = some i := stale.trans assigned
        refine ⟨⟨Function.update m.idx i (m.idx i + 1), some i, wrap32 (m.sidx + 1),
          m.snums ++ [s.num], s.reads⟩, i, longMax, ?_, bound, inside, cell, ?_, rfl⟩
        · simp [mergeStep, scanned, counted, chosen]
        · simp [top]
  · refine ⟨⟨Function.update m.idx j (m.idx j + 1), some j, wrap32 (m.sidx + 1),
      m.snums ++ [s.num], s.reads⟩, j, s.num, ?_, bound, inside, here, rfl, rfl⟩
    simp [mergeStep, scanned, counted, chosen]

end Rounds

/-! ## Whole runs -/

/-- After every number of rounds the loop is still running, so that `minidx` was assigned
when it was used; the cursors are in their segments; the next round stores what is under a
cursor and advances that one; and after the last one merge is done, with every cursor at the
end of its segment. -/
def Disciplined (nthr tnum : Nat) (nums : List Long) : Prop :=
  ∀ k ≤ nthr * tnum, ∃ m, mergeRounds nthr tnum nums k (mergeInit tnum) = some m ∧
    (∀ i < nthr, i * tnum ≤ m.idx i ∧ m.idx i ≤ (i + 1) * tnum) ∧
    (k < nthr * tnum → ∃ m' j v, Round nthr tnum nums m m' j v) ∧
    (k = nthr * tnum → merge nthr tnum nums = some m ∧ ∀ i < nthr, m.idx i = (i + 1) * tnum)

section Runs

variable (size : nums.length = nthr * tnum)
  (sorted : ∀ i < nthr, (slice nums (i * tnum) ((i + 1) * tnum)).Pairwise (· ≤ ·))

include size sorted

/-- As long as there is a next round that goes well, the invariant holds. -/
theorem cursors_run (next : ∀ k < nthr * tnum, ∀ m,
      mergeRounds nthr tnum nums k (mergeInit tnum) = some m → Cursors nthr tnum nums m →
      m.snums.length = k → ∃ m' j v, Round nthr tnum nums m m' j v) {k : Nat}
    (bound : k ≤ nthr * tnum) :
    ∃ m, mergeRounds nthr tnum nums k (mergeInit tnum) = some m ∧ Cursors nthr tnum nums m ∧
      m.snums.length = k := by
  induction k with
  | zero => exact ⟨_, rfl, cursors_init nthr tnum nums, rfl⟩
  | succ k ih =>
      obtain ⟨m, ran, cursors, length⟩ := ih (by omega)
      obtain ⟨m', j, v, round⟩ := next k bound m ran cursors length
      refine ⟨m', mergeRounds_succ ran bound round.step, cursors.step size sorted round, ?_⟩
      rw [round.stored, List.length_append, length, List.length_singleton]

theorem tops_of_disciplined (disciplined : Disciplined nthr tnum nums) {i : Nat} (bound : i < nthr)
    (member : longMax ∈ segment tnum nums i) : ∃ v, Greatest nthr tnum nums i v := by
  obtain ⟨m, ran, cursors, length⟩ := cursors_run size sorted (fun k short m ran _ _ => by
    obtain ⟨m₁, ran₁, -, round, -⟩ := disciplined k (Nat.le_of_lt short)
    cases ran.symm.trans ran₁
    exact round short) (Nat.le_refl _)
  refine cursors.topped i bound ?_
  unfold taken
  rw [cursors.full_iff.mp length i bound]
  exact member

theorem disciplined_of_tops (isInt : (nthr * tnum : Nat) ≤ intMax)
    (tops : ∀ i < nthr, longMax ∈ segment tnum nums i → ∃ v, Greatest nthr tnum nums i v) :
    Disciplined nthr tnum nums := by
  have top : intMax = 2 ^ 31 - 1 := rfl
  have next : ∀ k < nthr * tnum, ∀ m,
      mergeRounds nthr tnum nums k (mergeInit tnum) = some m → Cursors nthr tnum nums m →
      m.snums.length = k → ∃ m' j v, Round nthr tnum nums m m' j v := by
    intro k short m ran cursors length
    have sidx := sidx_eq ran (by omega)
    exact cursors.round size sorted tops (by omega) (by omega)
  intro k bound
  obtain ⟨m, ran, cursors, length⟩ := cursors_run size sorted next bound
  refine ⟨m, ran, fun i inside => ⟨cursors.lower i inside, cursors.upper i inside⟩, ?_, ?_⟩
  · intro short
    exact next k short m ran cursors length
  · intro whole
    subst whole
    exact ⟨merge_of_rounds isInt ran, cursors.full_iff.mp length⟩

end Runs

end Cursors

theorem isInt_of_disciplined {nthr tnum : Nat} {nums : List Long}
    (disciplined : Disciplined nthr tnum nums) : (nthr * tnum : Nat) ≤ intMax := by
  by_contra tooMany
  obtain ⟨m, -, -, -, done⟩ := disciplined _ (Nat.le_refl _)
  have ends := (done rfl).1
  rw [merge_overflows (not_le.mp tooMany)] at ends
  cases ends

/-- **The cursors of merge.**  For every array of sorted segments the merge keeps its
cursors exactly if `int sidx` can count the values and every segment with a `LONG_MAX` in it
is the last one that holds the greatest value below `LONG_MAX`. -/
theorem merge_disciplined_iff (nthr tnum : Nat) (nums : List Long)
    (size : nums.length = nthr * tnum)
    (sorted : ∀ i < nthr, (slice nums (i * tnum) ((i + 1) * tnum)).Pairwise (· ≤ ·)) :
    Disciplined nthr tnum nums ↔ (nthr * tnum : Nat) ≤ intMax ∧
      ∀ i < nthr, longMax ∈ segment tnum nums i → ∃ v, Greatest nthr tnum nums i v := by
  constructor
  · intro disciplined
    exact ⟨isInt_of_disciplined disciplined, fun i bound member =>
      tops_of_disciplined size sorted disciplined bound member⟩
  · rintro ⟨isInt, tops⟩
    exact disciplined_of_tops size sorted isInt tops

/-- Two segments, 20 and 41 in the first, 41 and `LONG_MAX` in the second. -/
def topLast : List Long := [⟨20, by decide⟩, ⟨41, by decide⟩, ⟨41, by decide⟩, longMax]

theorem topLast_greatest : Greatest 2 2 topLast 1 ⟨41, by decide⟩ := by
  refine ⟨by decide, by decide, by decide⟩

theorem merge_disciplined_iff_topLast :
    (∀ i < 2, (slice topLast (i * 2) ((i + 1) * 2)).Pairwise (· ≤ ·)) ∧
      Disciplined 2 2 topLast := by
  have sorted : ∀ i < 2, (slice topLast (i * 2) ((i + 1) * 2)).Pairwise (· ≤ ·) := by decide
  refine ⟨sorted, (merge_disciplined_iff 2 2 topLast rfl sorted).mpr ⟨by decide, ?_⟩⟩
  intro i bound member
  have second : i = 1 := by
    revert i
    decide
  subst second
  exact ⟨_, topLast_greatest⟩

/-- Two segments of one value each. -/
def topFirst : List Long := [longMax, ⟨20, by decide⟩]

/-- With nothing but a `LONG_MAX` the first round uses `minidx` unassigned.  With a `LONG_MAX`
in front of 20 the second round stores it, and advances the cursor that is at its end.  With
2^31 zeros in one segment `sidx` overflows. -/
theorem longMax_elsewhere :
    ((∀ i < 1, (slice [longMax] (i * 1) ((i + 1) * 1)).Pairwise (· ≤ ·)) ∧
      mergeRounds 1 1 [longMax] 1 (mergeInit 1) = none ∧ ¬ Disciplined 1 1 [longMax]) ∧
    ((∀ i < 2, (slice topFirst (i * 1) ((i + 1) * 1)).Pairwise (· ≤ ·)) ∧
      (∃ m, mergeRounds 2 1 topFirst 2 (mergeInit 1) = some m ∧ m.idx 0 = 0 ∧ m.idx 1 = 3) ∧
      ¬ Disciplined 2 1 topFirst) ∧
    (∀ i < 1, (slice (zeroLongs (2 ^ 31)) (i * 2 ^ 31) ((i + 1) * 2 ^ 31)).Pairwise (· ≤ ·)) ∧
      merge 1 (2 ^ 31) (zeroLongs (2 ^ 31)) = none ∧
      ¬ Disciplined 1 (2 ^ 31) (zeroLongs (2 ^ 31)) := by
  have unassigned : mergeRounds 1 1 [longMax] 1 (mergeInit 1) = none := rfl
  refine ⟨⟨by decide, unassigned, ?_⟩, ⟨by decide, ⟨_, rfl, rfl, rfl⟩, ?_⟩, ?_,
    merge_overflows (by decide), ?_⟩
  · intro disciplined
    obtain ⟨m, ran, -⟩ := disciplined 1 (Nat.le_refl _)
    rw [unassigned] at ran
    cases ran
  · intro disciplined
    obtain ⟨m, ran, inside, -⟩ := disciplined 2 (Nat.le_refl _)
    cases ran
    exact absurd (inside 1 (by decide)).2 (by decide)
  · intro i _
    have zeros : (zeroLongs (2 ^ 31)).Pairwise (· ≤ ·) :=
      List.pairwise_replicate.mpr (Or.inr (le_refl _))
    exact zeros.sublist ((List.drop_sublist _ _).trans (List.take_sublist _ _))
  · intro disciplined
    exact absurd (isInt_of_disciplined disciplined) (by decide)

end UnixDemos.Pthread.BarrierSort
