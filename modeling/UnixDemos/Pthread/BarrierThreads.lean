/-
# Pthread.BarrierThreads — the threads of barrier_sort.c

`main` creates the workers one after the other and then waits at the barrier, which
was made for `NTHR + 1` threads; each worker runs `qsort` on the segment whose first
index it was given and waits at the barrier too.  Here `qsort` is what other
threads can see of it, a sequence of single stores; where they go and what they
leave behind is said by `Sorts`.  `main` merges when it is back from the barrier.

A step is one `pthread_create`, one store, one arrival at the barrier, one return
from it, or the merge.  When a `pthread_create` fails the whole process exits.
-/
import UnixDemos.Library.Barrier
import UnixDemos.Library.Run
import UnixDemos.Pthread.BarrierSort

namespace UnixDemos.Pthread.BarrierThreads

open UnixDemos.Library
open UnixDemos.Pthread.BarrierSort (Long Merge merge)

set_option autoImplicit false

/-! ## State -/

/-- A store of `qsort`, at an offset from the start of its range. -/
structure Write where
  offset : Nat
  value : Long

inductive MainPc where
  | creating (i : Nat)
  | waiting (generation : Nat)
  | merging
  | merged (result : Option Merge)
  | exited

/-- A worker in `qsort` has the index it was given and the stores still to come. -/
inductive WorkerPc where
  | unborn
  | sorting (idx : Nat) (rest : List Write)
  | waiting (generation : Nat)
  | returned

structure System where
  nums : List Long
  main : MainPc
  worker : Nat → WorkerPc
  barrier : Barrier

inductive Event where
  | main (fails : Bool)
  | worker (i : Nat)

/-! ## Steps -/

section Steps

variable (nthr tnum : Nat) (program : Nat → List Write) (s : System)

def stepMain (fails : Bool) : Option System :=
  match s.main with
  | .creating i =>
      if i < nthr then
        if fails then some { s with main := .exited }
        else
          some { s with
            main := .creating (i + 1)
            worker := Function.update s.worker i (.sorting (i * tnum) (program i)) }
      else if fails then none
      else
        some { s with main := .waiting s.barrier.generation, barrier := s.barrier.arrive }
  | .waiting generation =>
      if fails = false ∧ generation < s.barrier.generation then some { s with main := .merging }
      else none
  | .merging => if fails then none else some { s with main := .merged (merge nthr tnum s.nums) }
  | .merged _ | .exited => none

/-- A step of `thr_fn` in the worker created as number `i`. -/
def thrFn (i : Nat) : Option System :=
  match s.worker i with
  | .unborn | .returned => none
  | .sorting idx (w :: rest) =>
      some { s with
        nums := s.nums.set (idx + w.offset) w.value
        worker := Function.update s.worker i (.sorting idx rest) }
  | .sorting _ [] =>
      some { s with
        worker := Function.update s.worker i (.waiting s.barrier.generation)
        barrier := s.barrier.arrive }
  | .waiting generation =>
      if generation < s.barrier.generation then
        some { s with worker := Function.update s.worker i .returned }
      else none

def System.step : Event → Option System
  | .main fails => stepMain nthr tnum program s fails
  | .worker i =>
      match s.main with
      | .exited => none
      | _ => thrFn s i

/-- `nums` is filled and the barrier initialised for `NTHR + 1` threads. -/
def start (nums : List Long) : System :=
  ⟨nums, .creating 0, fun _ => .unborn, Barrier.init (nthr + 1) (Nat.succ_pos nthr)⟩

end Steps

/-! ## What qsort is taken to do -/

/-- A range after the stores of `qsort`. -/
def applyWrites (range : List Long) (writes : List Write) : List Long :=
  writes.foldl (fun range w => range.set w.offset w.value) range

/-- Stores that stay in the range and leave it sorted. -/
structure Sorts (tnum : Nat) (range : List Long) (writes : List Write) : Prop where
  confined : ∀ w ∈ writes, w.offset < tnum
  sorted : (applyWrites range writes).Pairwise (· ≤ ·)

def segment (tnum : Nat) (nums : List Long) (i : Nat) : List Long :=
  slice nums (i * tnum) ((i + 1) * tnum)

theorem applyWrites_snoc (range : List Long) (writes : List Write) (w : Write) :
    applyWrites range (writes ++ [w]) = (applyWrites range writes).set w.offset w.value := by
  unfold applyWrites
  rw [List.foldl_append]
  rfl

/-! ## What a step can do -/

section Effect

variable {nthr tnum : Nat} {program : Nat → List Write} {s t : System} {e : Event}

inductive Effect (nthr tnum : Nat) (program : Nat → List Write) (s : System) : System → Prop where
  | exits {k : Nat} (pc : s.main = .creating k) : Effect nthr tnum program s { s with main := .exited }
  | creates {k : Nat} (pc : s.main = .creating k) (next : k < nthr) :
      Effect nthr tnum program s { s with
        main := .creating (k + 1)
        worker := Function.update s.worker k (.sorting (k * tnum) (program k)) }
  | mainArrives {k : Nat} (pc : s.main = .creating k) (all : ¬ k < nthr) :
      Effect nthr tnum program s { s with
        main := .waiting s.barrier.generation
        barrier := s.barrier.arrive }
  | mainLeaves {generation : Nat} (pc : s.main = .waiting generation)
      (passed : generation < s.barrier.generation) :
      Effect nthr tnum program s { s with main := .merging }
  | merges (pc : s.main = .merging) :
      Effect nthr tnum program s { s with main := .merged (merge nthr tnum s.nums) }
  | stores {i idx : Nat} {w : Write} {rest : List Write} (pc : s.worker i = .sorting idx (w :: rest)) :
      Effect nthr tnum program s { s with
        nums := s.nums.set (idx + w.offset) w.value
        worker := Function.update s.worker i (.sorting idx rest) }
  | arrives {i idx : Nat} (pc : s.worker i = .sorting idx []) :
      Effect nthr tnum program s { s with
        worker := Function.update s.worker i (.waiting s.barrier.generation)
        barrier := s.barrier.arrive }
  | leaves {i generation : Nat} (pc : s.worker i = .waiting generation) :
      Effect nthr tnum program s { s with worker := Function.update s.worker i .returned }

theorem step_effect (step : s.step nthr tnum program e = some t) :
    Effect nthr tnum program s t := by
  cases e with
  | main fails =>
      simp only [System.step, stepMain] at step
      cases pc : s.main with
      | creating k =>
          simp only [pc] at step
          split at step
          · rename_i next
            split at step <;> cases step
            · exact .exits pc
            · exact .creates pc next
          · rename_i all
            split at step <;> cases step
            exact .mainArrives pc all
      | waiting generation =>
          simp only [pc] at step
          split at step
          · rename_i passed
            cases step
            exact .mainLeaves pc passed.2
          · cases step
      | merging =>
          simp only [pc] at step
          split at step <;> cases step
          exact .merges pc
      | merged result => simp [pc] at step
      | exited => simp [pc] at step
  | worker i =>
      have moved : thrFn s i = some t := by
        simp only [System.step] at step
        split at step
        · cases step
        · exact step
      simp only [thrFn] at moved
      split at moved
      · cases moved
      · cases moved
      · rename_i pc
        cases moved
        exact .stores pc
      · rename_i pc
        cases moved
        exact .arrives pc
      · rename_i pc
        split at moved <;> cases moved
        exact .leaves pc

end Effect

end UnixDemos.Pthread.BarrierThreads
