/-
# Library.CInt — two's complement integers over Int

Arithmetic on `int` is arithmetic on `Int` followed by `wrap32`; inside the range
of the type it changes nothing.  `wrap64` is the same for `off_t`, and `toSize` is the
value of a `size_t`.
-/
import Mathlib.Algebra.Ring.Int.Defs

namespace UnixDemos.Library

set_option autoImplicit false

/-- The value of `v` stored in a 32-bit two's complement integer. -/
def wrap32 (v : Int) : Int := (v + 2 ^ 31) % 2 ^ 32 - 2 ^ 31

/-- `INT_MAX`. -/
def intMax : Int := 2 ^ 31 - 1

/-- The value of `v` stored in a 64-bit two's complement integer. -/
def wrap64 (v : Int) : Int := (v + 2 ^ 63) % 2 ^ 64 - 2 ^ 63

/-- The value of `v` stored in a 64-bit unsigned integer. -/
def toSize (v : Int) : Int := v % 2 ^ 64

theorem wrap32_of_mem {v : Int} (lower : -2 ^ 31 ≤ v) (upper : v < 2 ^ 31) : wrap32 v = v := by
  unfold wrap32
  omega

/-- Only the last of a number of increments has to be wrapped. -/
theorem wrap32_succ (k : Nat) : wrap32 (wrap32 k + 1) = wrap32 (k + 1 : Nat) := by
  unfold wrap32
  omega

theorem wrap64_of_mem {v : Int} (lower : -2 ^ 63 ≤ v) (upper : v < 2 ^ 63) : wrap64 v = v := by
  unfold wrap64
  omega

theorem toSize_of_mem {v : Int} (lower : 0 ≤ v) (upper : v < 2 ^ 64) : toSize v = v := by
  unfold toSize
  omega

end UnixDemos.Library
