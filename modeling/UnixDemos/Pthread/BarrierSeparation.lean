/-
# Pthread.BarrierSeparation — main merges only what is sorted and stays so

The barrier waits for one arrival more than there are workers, so `main` comes back
from it only when every worker has arrived (`Inv.all_arrived`), that is when every
`qsort` is over.  Until then each segment is what the stores of its own worker made
of it (`Inv.segments`), whatever the others did in between; so `nums` is the same in
every run when the merge begins, and so is what the merge makes of it.
-/
import UnixDemos.Pthread.BarrierThreads

namespace UnixDemos.Pthread.BarrierThreads

open UnixDemos.Library
open UnixDemos.Pthread.BarrierSort (Long Merge merge Qsort cmplong sortSegments barrierSort)

set_option autoImplicit false

/-! ## The invariant -/

/-- At the barrier or past it. -/
def MainPc.arrived : MainPc → Bool
  | .waiting _ | .merging | .merged _ => true
  | _ => false

def MainPc.released : MainPc → Bool
  | .merging | .merged _ => true
  | _ => false

def WorkerPc.arrived : WorkerPc → Bool
  | .waiting _ | .returned => true
  | _ => false

/-- The stores still to come of a worker whose `qsort` makes these stores. -/
def WorkerPc.pending (all : List Write) : WorkerPc → List Write
  | .unborn => all
  | .sorting _ rest => rest
  | _ => []

/-- The workers at the barrier or past it. -/
def arrivedWorkers (nthr : Nat) (worker : Nat → WorkerPc) : Finset Nat :=
  (Finset.range nthr).filter fun i => (worker i).arrived = true

section Invariant

variable (nthr tnum : Nat) (program : Nat → List Write) (nums : List Long)

/-- A segment is what the stores made so far by its own worker have left of it. -/
def SegmentOf (now : List Long) (i : Nat) (pc : WorkerPc) : Prop :=
  ∃ done, program i = done ++ pc.pending (program i) ∧
    segment tnum now i = applyWrites (segment tnum nums i) done

structure Inv (s : System) : Prop where
  count : s.barrier.count = nthr + 1
  arrivals : s.barrier.arrivals =
    (arrivedWorkers nthr s.worker).card + (if s.main.arrived = true then 1 else 0)
  unborn : ∀ k, s.main = .creating k → ∀ i, k ≤ i → s.worker i = .unborn
  placed : ∀ i, ∀ idx rest, s.worker i = .sorting idx rest → i < nthr ∧ idx = i * tnum
  size : s.nums.length = nthr * tnum
  segments : ∀ i, i < nthr → SegmentOf tnum program nums s.nums i (s.worker i)
  released : s.main.released = true → 0 < s.barrier.generation
  result : ∀ r, s.main = .merged r → r = merge nthr tnum s.nums

end Invariant

section Counting

variable {nthr : Nat} {worker : Nat → WorkerPc} {i : Nat} {x : WorkerPc}

/-- A step of a worker that does not take it to the barrier. -/
theorem arrivedWorkers_update (same : x.arrived = (worker i).arrived) :
    arrivedWorkers nthr (Function.update worker i x) = arrivedWorkers nthr worker := by
  unfold arrivedWorkers
  apply Finset.filter_congr
  intro j _
  by_cases own : j = i
  · subst own
    rw [Function.update_self, same]
  · rw [Function.update_of_ne own]

/-- A worker arrives. -/
theorem card_arrivedWorkers (exists_ : i < nthr) (before : (worker i).arrived = false)
    (after : x.arrived = true) :
    (arrivedWorkers nthr (Function.update worker i x)).card =
      (arrivedWorkers nthr worker).card + 1 := by
  have fresh : i ∉ arrivedWorkers nthr worker := by simp [arrivedWorkers, before]
  rw [← Finset.card_insert_of_notMem fresh]
  congr 1
  ext j
  by_cases own : j = i
  · subst own
    simp [arrivedWorkers, after, exists_]
  · simp [arrivedWorkers, own]

end Counting

section Steps

variable {nthr tnum : Nat} {program : Nat → List Write} {nums : List Long} {s t : System}

/-- The stores of one worker do not touch the segment of another. -/
theorem segment_set_other {i j k : Nat} (other : j ≠ i) (inside : k < tnum) (v : Long)
    (now : List Long) : segment tnum (now.set (i * tnum + k) v) j = segment tnum now j := by
  apply slice_set_of_outside
  rcases Nat.lt_or_gt_of_ne other with below | above
  · have apart : (j + 1) * tnum ≤ i * tnum := Nat.mul_le_mul_right _ below
    omega
  · have apart : (i + 1) * tnum ≤ j * tnum := Nat.mul_le_mul_right _ above
    rw [Nat.succ_mul] at apart
    omega

theorem segment_set {i k : Nat} (inside : k < tnum) (v : Long) (now : List Long) :
    segment tnum (now.set (i * tnum + k) v) i = (segment tnum now i).set k v := by
  apply slice_set
  rw [Nat.succ_mul]
  omega

/-- A worker whose pending stores are as before keeps its segment. -/
theorem SegmentOf.move {now : List Long} {i : Nat} {pc x : WorkerPc}
    (before : SegmentOf tnum program nums now i pc)
    (same : x.pending (program i) = pc.pending (program i)) :
    SegmentOf tnum program nums now i x := by
  obtain ⟨done, split, here⟩ := before
  exact ⟨done, same ▸ split, here⟩

/-- A step of a worker that does not take it to the barrier. -/
theorem Inv.arrivals_update (inv : Inv nthr tnum program nums s) {i : Nat} {x : WorkerPc}
    (same : x.arrived = (s.worker i).arrived) :
    s.barrier.arrivals = (arrivedWorkers nthr (Function.update s.worker i x)).card +
      (if s.main.arrived = true then 1 else 0) := by
  rw [arrivedWorkers_update same]
  exact inv.arrivals

/-- Where a worker goes that is not in `qsort` afterwards. -/
theorem Inv.placed_update (inv : Inv nthr tnum program nums s) {i : Nat} {x : WorkerPc}
    (own : ∀ idx rest, x = .sorting idx rest → i < nthr ∧ idx = i * tnum) :
    ∀ j idx rest, Function.update s.worker i x j = .sorting idx rest →
      j < nthr ∧ idx = j * tnum :=
  (Function.forall_update_iff s.worker fun j pc =>
    ∀ idx rest, pc = .sorting idx rest → j < nthr ∧ idx = j * tnum).mpr
    ⟨own, fun j _ => inv.placed j⟩

theorem Inv.segments_update (inv : Inv nthr tnum program nums s) {i : Nat} {x : WorkerPc}
    (same : x.pending (program i) = (s.worker i).pending (program i)) :
    ∀ j, j < nthr → SegmentOf tnum program nums s.nums j (Function.update s.worker i x j) :=
  (Function.forall_update_iff s.worker fun j pc =>
    j < nthr → SegmentOf tnum program nums s.nums j pc).mpr
    ⟨fun bound => (inv.segments i bound).move same, fun j _ => inv.segments j⟩

/-- Once a worker exists that has left `unborn`, `main` is past creating it. -/
theorem Inv.unborn_update (inv : Inv nthr tnum program nums s) {i : Nat} {x : WorkerPc}
    (born : s.worker i ≠ .unborn) :
    ∀ k, s.main = .creating k → ∀ j, k ≤ j → Function.update s.worker i x j = .unborn := by
  intro k pc j above
  have other : j ≠ i := by
    rintro rfl
    exact born (inv.unborn k pc j above)
  rw [Function.update_of_ne other]
  exact inv.unborn k pc j above

/-- Behind the barrier every worker has arrived: it waits for one thread more than
there are workers, and `main` is that thread. -/
theorem Inv.all_arrived (inv : Inv nthr tnum program nums s) (released : s.main.released = true) :
    ∀ i < nthr, (s.worker i).arrived = true := by
  have passed := s.barrier.generation_pos.mp (inv.released released)
  rw [inv.count, inv.arrivals] at passed
  have many : nthr ≤ (arrivedWorkers nthr s.worker).card := by
    split at passed <;> omega
  have all : arrivedWorkers nthr s.worker = Finset.range nthr := by
    apply Finset.eq_of_subset_of_card_le (Finset.filter_subset _ _)
    rw [Finset.card_range]
    exact many
  intro i bound
  have member : i ∈ arrivedWorkers nthr s.worker := all ▸ Finset.mem_range.mpr bound
  exact (Finset.mem_filter.mp member).2

/-- A store of a worker: its own segment has one store more, and the others stay. -/
theorem Inv.stores (inv : Inv nthr tnum program nums s)
    (confined : ∀ i < nthr, ∀ w ∈ program i, w.offset < tnum) {i idx : Nat} {w : Write}
    {rest : List Write} (pc : s.worker i = .sorting idx (w :: rest)) :
    Inv nthr tnum program nums { s with
      nums := s.nums.set (idx + w.offset) w.value
      worker := Function.update s.worker i (.sorting idx rest) } := by
  obtain ⟨worker, rfl⟩ := inv.placed i idx _ pc
  obtain ⟨done, split, here⟩ := inv.segments i worker
  rw [pc] at split
  have inside : w.offset < tnum := by
    apply confined i worker
    rw [split]
    exact List.mem_append_right _ List.mem_cons_self
  refine { inv with
    arrivals := inv.arrivals_update (by rw [pc]; rfl)
    unborn := inv.unborn_update (by rw [pc]; nofun)
    placed := inv.placed_update fun idx rest same => ?_
    size := (List.length_set).trans inv.size
    segments := ?_
    result := fun r merged => ?_ }
  · cases same
    exact ⟨worker, rfl⟩
  · refine (Function.forall_update_iff s.worker fun j pc =>
      j < nthr → SegmentOf tnum program nums _ j pc).mpr ⟨fun _ => ?_, fun j other bound => ?_⟩
    · refine ⟨done ++ [w], by rw [split]; simp [WorkerPc.pending], ?_⟩
      rw [segment_set inside, here, applyWrites_snoc]
    · obtain ⟨made, shape, now⟩ := inv.segments j bound
      exact ⟨made, shape, (segment_set_other other inside w.value s.nums).trans now⟩
  · -- behind the barrier nobody stores any more
    have arrived := inv.all_arrived (by rw [show s.main = .merged r from merged]; rfl) i worker
    rw [pc] at arrived
    cases arrived

theorem Inv.step (inv : Inv nthr tnum program nums s)
    (confined : ∀ i < nthr, ∀ w ∈ program i, w.offset < tnum)
    (effect : Effect nthr tnum program s t) : Inv nthr tnum program nums t := by
  cases effect with
  | exits pc =>
      exact { inv with
        arrivals := by simpa [pc, MainPc.arrived] using inv.arrivals
        unborn := nofun
        released := nofun
        result := nofun }
  | @creates k pc next =>
      have fresh : s.worker k = .unborn := inv.unborn k pc k (Nat.le_refl k)
      refine { inv with
        arrivals := ?_
        unborn := ?_
        placed := inv.placed_update fun idx rest same => ?_
        segments := inv.segments_update (by rw [fresh]; rfl)
        released := nofun
        result := nofun }
      · have arrivals := inv.arrivals_update
          (show (WorkerPc.sorting (k * tnum) (program k)).arrived = _ by rw [fresh]; rfl)
        simpa [pc, MainPc.arrived] using arrivals
      · rintro k' ⟨rfl⟩ j above
        show Function.update s.worker k _ j = .unborn
        rw [Function.update_of_ne (by omega)]
        exact inv.unborn k pc j (by omega)
      · cases same
        exact ⟨next, rfl⟩
  | mainArrives pc all =>
      refine { inv with
        count := (Barrier.count_arrive _).trans inv.count
        arrivals := ?_
        unborn := nofun
        released := nofun
        result := nofun }
      have before := inv.arrivals
      rw [pc] at before
      show s.barrier.arrive.arrivals = _
      rw [Barrier.arrivals_arrive, before]
      rfl
  | mainLeaves pc passed =>
      exact { inv with
        arrivals := by simpa [pc, MainPc.arrived] using inv.arrivals
        unborn := nofun
        released := fun _ => Nat.lt_of_le_of_lt (Nat.zero_le _) passed
        result := nofun }
  | merges pc =>
      exact { inv with
        arrivals := by simpa [pc, MainPc.arrived] using inv.arrivals
        unborn := nofun
        released := fun _ => inv.released (by rw [pc]; rfl)
        result := fun _ same => by cases same; rfl }
  | stores pc => exact inv.stores confined pc
  | @arrives i idx pc =>
      obtain ⟨worker, -⟩ := inv.placed i idx _ pc
      refine { inv with
        count := (Barrier.count_arrive _).trans inv.count
        arrivals := ?_
        unborn := inv.unborn_update (by rw [pc]; nofun)
        placed := inv.placed_update nofun
        segments := inv.segments_update (by rw [pc]; rfl)
        released := fun released => ?_ }
      · show s.barrier.arrive.arrivals = _
        rw [Barrier.arrivals_arrive, inv.arrivals,
          card_arrivedWorkers worker (by rw [pc]; rfl) rfl]
        exact Nat.add_right_comm _ _ _
      · exact Barrier.generation_arrive_pos _ (inv.released released)
  | @leaves i generation pc =>
      exact { inv with
        arrivals := inv.arrivals_update (by rw [pc]; rfl)
        unborn := inv.unborn_update (by rw [pc]; nofun)
        placed := inv.placed_update nofun
        segments := inv.segments_update (by rw [pc]; rfl) }

theorem start_inv (size : nums.length = nthr * tnum) :
    Inv nthr tnum program nums (start nthr nums) where
  count := rfl
  arrivals := by simp [start, Barrier.init, Barrier.arrivals, arrivedWorkers, WorkerPc.arrived,
    MainPc.arrived]
  unborn _ _ _ _ := rfl
  placed := nofun
  size := size
  segments _ _ := ⟨[], rfl, rfl⟩
  released := nofun
  result := nofun

theorem run_inv {events : List Event} (size : nums.length = nthr * tnum)
    (confined : ∀ i < nthr, ∀ w ∈ program i, w.offset < tnum)
    (reached : run (System.step nthr tnum program) (start nthr nums) events = some s) :
    Inv nthr tnum program nums s :=
  run_invariant _ (Inv nthr tnum program nums)
    (fun _ _ _ inv step => inv.step confined (step_effect step)) (start_inv size) reached

/-! ## Past the barrier -/

/-- A worker at the barrier has made all its stores. -/
theorem Inv.segment_eq (inv : Inv nthr tnum program nums s) {i : Nat} (worker : i < nthr)
    (arrived : (s.worker i).arrived = true) :
    segment tnum s.nums i = applyWrites (segment tnum nums i) (program i) := by
  obtain ⟨done, split, here⟩ := inv.segments i worker
  have none_left : (s.worker i).pending (program i) = [] := by
    revert arrived
    cases s.worker i <;> simp [WorkerPc.arrived, WorkerPc.pending]
  rw [none_left, List.append_nil] at split
  rw [here, split]

/-- No worker has a store left, from here to any later moment. -/
structure Quiet (now : List Long) (s : System) : Prop where
  nums : s.nums = now
  released : s.main.released = true
  idle : ∀ i idx rest, s.worker i ≠ .sorting idx rest

theorem Quiet.step {now : List Long} (quiet : Quiet now s)
    (effect : Effect nthr tnum program s t) : Quiet now t := by
  have released := quiet.released
  cases effect with
  | exits pc => rw [pc] at released; cases released
  | creates pc => rw [pc] at released; cases released
  | mainArrives pc => rw [pc] at released; cases released
  | mainLeaves pc => rw [pc] at released; cases released
  | merges pc => exact ⟨quiet.nums, rfl, quiet.idle⟩
  | stores pc => exact absurd pc (quiet.idle _ _ _)
  | arrives pc => exact absurd pc (quiet.idle _ _ _)
  | leaves pc =>
      exact ⟨quiet.nums, released, (Function.forall_update_iff s.worker fun _ pc =>
        ∀ idx rest, pc ≠ .sorting idx rest).mpr ⟨nofun, fun j _ => quiet.idle j⟩⟩

theorem Inv.quiet (inv : Inv nthr tnum program nums s) (released : s.main.released = true) :
    Quiet s.nums s := by
  refine ⟨rfl, released, fun i idx rest sorting => ?_⟩
  have arrived := inv.all_arrived released i (inv.placed i idx rest sorting).1
  rw [sorting] at arrived
  cases arrived

theorem run_quiet {now : List Long} {events : List Event} (quiet : Quiet now s)
    (reached : run (System.step nthr tnum program) s events = some t) : Quiet now t :=
  run_invariant _ (Quiet now) (fun _ _ _ quiet step => quiet.step (step_effect step)) quiet reached

/-- What was merged is `nums` with every segment as its worker left it. -/
theorem Inv.nums_eq (inv : Inv nthr tnum program nums s) (released : s.main.released = true)
    {now : List Long} (size : now.length = nthr * tnum)
    (same : ∀ i < nthr, segment tnum now i = applyWrites (segment tnum nums i) (program i)) :
    s.nums = now := by
  apply eq_of_slices inv.size size
  intro i bound
  exact (inv.segment_eq bound (inv.all_arrived released i bound)).trans (same i bound).symm

end Steps

/-! ## Results -/

section Results

variable {nthr tnum : Nat} {program : Nat → List Write} {nums : List Long} {s : System}
  {events : List Event}

/-- **The barrier separates sorting from merging.**  When `main` begins to merge every
segment is sorted, and at no later moment is a worker in `qsort` or `nums` different.
What the merge gives is the same in every run, also when `qsort` makes other stores
there, as long as they leave the same values in each segment. -/
theorem merge_after_barrier (size : nums.length = nthr * tnum)
    (sorts : ∀ i < nthr, Sorts tnum (segment tnum nums i) (program i))
    (reached : run (System.step nthr tnum program) (start nthr nums) events = some s) :
    (s.main = .merging →
      (∀ i < nthr, (segment tnum s.nums i).Pairwise (· ≤ ·)) ∧
      ∀ later t, run (System.step nthr tnum program) s later = some t →
        t.nums = s.nums ∧ ∀ i idx rest, t.worker i ≠ .sorting idx rest) ∧
    ∀ (program' : Nat → List Write) (events' : List Event) (s' : System),
      (∀ i < nthr, Sorts tnum (segment tnum nums i) (program' i)) →
      (∀ i < nthr, (applyWrites (segment tnum nums i) (program i)).Perm
        (applyWrites (segment tnum nums i) (program' i))) →
      run (System.step nthr tnum program') (start nthr nums) events' = some s' →
      ∀ r r', s.main = .merged r → s'.main = .merged r' → r = r' := by
  have inv := run_inv size (fun i bound => (sorts i bound).confined) reached
  constructor
  · intro merging
    have released : s.main.released = true := by rw [merging]; rfl
    refine ⟨fun i bound => ?_, fun later t continued => ?_⟩
    · rw [inv.segment_eq bound (inv.all_arrived released i bound)]
      exact (sorts i bound).sorted
    · have quiet := run_quiet (inv.quiet released) continued
      exact ⟨quiet.nums, quiet.idle⟩
  · intro program' events' s' sorts' perm reached' r r' merged merged'
    have inv' := run_inv size (fun i bound => (sorts' i bound).confined) reached'
    have released : s.main.released = true := by rw [merged]; rfl
    have released' : s'.main.released = true := by rw [merged']; rfl
    rw [inv.result r merged, inv'.result r' merged']
    congr 1
    refine inv.nums_eq released inv'.size fun i bound => ?_
    -- two sorted arrangements of the same values are one
    rw [inv'.segment_eq bound (inv'.all_arrived released' i bound)]
    exact List.Perm.eq_of_pairwise' (sorts' i bound).sorted (sorts i bound).sorted (perm i bound).symm

/-- With stores that leave each segment as the library's `qsort` does, every run that
gets to the end has computed the sequential program. -/
theorem merged_eq_barrierSort (lib : Qsort) (size : nums.length = nthr * tnum)
    (confined : ∀ i < nthr, ∀ w ∈ program i, w.offset < tnum)
    (sorts : ∀ i < nthr, applyWrites (segment tnum nums i) (program i) =
      lib.qsort cmplong (segment tnum nums i))
    (reached : run (System.step nthr tnum program) (start nthr nums) events = some s)
    {result : Option Merge} (merged : s.main = .merged result) :
    result = barrierSort lib nthr tnum nums := by
  have inv := run_inv size confined reached
  have released : s.main.released = true := by rw [merged]; rfl
  have workers := BarrierSort.sortSegments_sorted lib size
  have same := inv.nums_eq released (workers.perm.length_eq.trans size) fun i bound =>
    (BarrierSort.slice_sortSegments lib size bound).trans (sorts i bound).symm
  rw [inv.result result merged, same]
  rfl

end Results

def fourLongs : List Long := [⟨3, by decide⟩, ⟨1, by decide⟩, ⟨2, by decide⟩, ⟨0, by decide⟩]

/-- Two workers with two values each, which both swap theirs. -/
def swaps : Nat → List Write
  | 0 => [⟨0, 1, by decide⟩, ⟨1, 3, by decide⟩]
  | _ => [⟨1, 2, by decide⟩, ⟨0, 0, by decide⟩]

/-- The second worker starts while the first is in the middle of its stores. -/
def interleaved : List Event :=
  [.main false, .worker 0, .main false, .worker 1, .worker 0, .worker 0, .main false, .worker 1,
    .worker 1, .main false]

theorem merge_after_barrier_two_workers :
    ∃ s, run (System.step 2 2 swaps) (start 2 fourLongs) interleaved = some s ∧
      s.main = .merging ∧ ∀ i < 2, (segment 2 s.nums i).Pairwise (· ≤ ·) := by
  have observed : (run (System.step 2 2 swaps) (start 2 fourLongs) interleaved).map
      (fun s => s.main) = some .merging := rfl
  obtain ⟨s, reached, merging⟩ := Option.map_eq_some_iff.mp observed
  have sorts : ∀ i < 2, Sorts 2 (segment 2 fourLongs i) (swaps i) := by
    intro i bound
    rcases i with _ | _ | i
    · exact ⟨by decide +kernel, by decide +kernel⟩
    · exact ⟨by decide +kernel, by decide +kernel⟩
    · omega
  exact ⟨s, reached, merging, ((merge_after_barrier rfl sorts reached).1 merging).1⟩

end UnixDemos.Pthread.BarrierThreads
