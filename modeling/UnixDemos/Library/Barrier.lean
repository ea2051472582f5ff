/-
# Library.Barrier — a barrier that counts its arrivals

A barrier made for `count` threads lets a thread that has arrived go on when the
`count`-th of its generation arrives; it then starts a new generation.  What a
waiter sees is that the generation it came in is over, and `generation_pos` says
what that means for the first one: at least `count` arrivals have been made.
-/
import Mathlib.Data.Nat.Basic

namespace UnixDemos.Library

set_option autoImplicit false

/-- A barrier with the arrivals of the current generation, fewer than it waits for. -/
structure Barrier where
  count : Nat
  waiting : Nat
  generation : Nat
  short : waiting < count

namespace Barrier

/-- `pthread_barrier_init`. -/
def init (count : Nat) (positive : 0 < count) : Barrier := ⟨count, 0, 0, positive⟩

/-- A thread arrives; the last one of a generation ends it. -/
def arrive (b : Barrier) : Barrier :=
  if more : b.waiting + 1 < b.count then { b with waiting := b.waiting + 1, short := more }
  else ⟨b.count, 0, b.generation + 1, Nat.lt_of_le_of_lt (Nat.zero_le _) b.short⟩

/-- All arrivals so far. -/
def arrivals (b : Barrier) : Nat := b.generation * b.count + b.waiting

variable (b : Barrier)

@[simp] theorem count_arrive : b.arrive.count = b.count := by
  unfold arrive
  split <;> rfl

@[simp] theorem arrivals_arrive : b.arrive.arrivals = b.arrivals + 1 := by
  unfold arrive arrivals
  split
  · rfl
  · have last : b.waiting + 1 = b.count := by
      have := b.short
      omega
    show (b.generation + 1) * b.count + 0 = b.generation * b.count + b.waiting + 1
    rw [Nat.succ_mul]
    omega

/-- The first generation is over only when `count` threads have arrived. -/
theorem generation_pos : 0 < b.generation ↔ b.count ≤ b.arrivals := by
  unfold arrivals
  have short := b.short
  constructor
  · intro passed
    have := Nat.le_mul_of_pos_left b.count passed
    omega
  · intro many
    by_contra first
    have zero : b.generation = 0 := by omega
    rw [zero, Nat.zero_mul] at many
    omega

theorem generation_arrive_pos (passed : 0 < b.generation) : 0 < b.arrive.generation := by
  rw [generation_pos] at passed ⊢
  rw [count_arrive, arrivals_arrive]
  exact Nat.le_succ_of_le passed

end Barrier

end UnixDemos.Library
