/-
# IPC.Add2Sum — when add2.c adds

`add2` prints `int1 + int2` as an `int`.  Two integers in decimal are read back as they
were printed, so the reply is the sum of the two exactly if that sum is an `int` again;
otherwise it is off by 2^32.
-/
import UnixDemos.IPC.Add2Stream

namespace UnixDemos.IPC.Add2

open UnixDemos.Library

set_option autoImplicit false

/-- The values of an `int`. -/
def FitsInt (v : Int) : Prop := -2 ^ 31 ≤ v ∧ v < 2 ^ 31

instance (v : Int) : Decidable (FitsInt v) := inferInstanceAs (Decidable (_ ∧ _))

/-- Two integers in decimal, a space between them and a newline behind. -/
def sumLine (a b : Int) : Bytes := printInt a ++ ([32] ++ (printInt b ++ [newline]))

theorem sscanfTwo_sumLine {a b : Int} (intA : FitsInt a) (intB : FitsInt b) :
    sscanfTwo (sumLine a b) = some (a, b) := by
  have first : scanInt (sumLine a b) = some (a, [32] ++ (printInt b ++ [newline])) := by
    have stops : Stops isSpace ([32] ++ (printInt b ++ [newline])) := by
      rintro c more ⟨⟩
      rfl
    have read := @scanInt_word (printInt a) _ [] (isInt_printInt a) (by simp) stops
    rwa [scanValue_printInt intA.1 intA.2] at read
  have second : scanInt ([32] ++ (printInt b ++ [newline])) = some (b, [newline]) := by
    have stops : Stops isSpace [newline] := by
      rintro c more ⟨⟩
      rfl
    have blank : ∀ c ∈ [32], isSpace c = true := List.forall_mem_singleton.mpr rfl
    have read := @scanInt_word (printInt b) _ [32] (isInt_printInt b) blank stops
    rwa [scanValue_printInt intB.1 intB.2] at read
  rw [sscanfTwo, first]
  simp only [second]

theorem wrap32_eq_self_iff (v : Int) : wrap32 v = v ↔ FitsInt v := by
  unfold wrap32 FitsInt
  omega

/-- A line of two `int`s leaves room in the buffer for its NUL. -/
theorem length_sumLine_le {a b : Int} (intA : FitsInt a) (intB : FitsInt b) :
    (sumLine a b).length ≤ maxLine - 1 := by
  have shortA := length_printInt_wrap32 a
  have shortB := length_printInt_wrap32 b
  rw [(wrap32_eq_self_iff a).mpr intA] at shortA
  rw [(wrap32_eq_self_iff b).mpr intB] at shortB
  simp only [sumLine, List.length_append, List.length_singleton, maxLine]
  omega

theorem nulFree_sumLine (a b : Int) : NulFree (sumLine a b) :=
  nulFree_append.mpr ⟨nulFree_printInt a, nulFree_append.mpr ⟨by decide, nulFree_sum b⟩⟩

/-- **When add2 adds.**  The reply to a line of two `int`s, whatever was in the buffer, is
their sum exactly if the sum is an `int`. -/
theorem add2_adds_iff {line : Bytes} (fits : line.length = maxLine) {a b : Int} (intA : FitsInt a)
    (intB : FitsInt b) :
    (turn line (sumLine a b)).map Prod.snd = some (printInt (a + b) ++ [newline]) ↔
      FitsInt (a + b) := by
  obtain ⟨line', text, -⟩ := turn_eq fits (nulFree_sumLine a b) (length_sumLine_le intA intB)
  have replied : reply (sumLine a b) = printInt (wrap32 (a + b)) ++ [newline] := by
    rw [reply, sscanfTwo_sumLine intA intB]
  rw [text, Option.map_some, Option.some.injEq, replied, List.append_cancel_right_eq,
    printInt_injective.eq_iff, wrap32_eq_self_iff]

/-- At the lower end of the range. -/
theorem add2_adds_iff_lowest :
    (turn (zeros maxLine) (sumLine (-2147483647) (-1))).map Prod.snd =
      some (printInt (-2147483647 + -1) ++ [newline]) :=
  (add2_adds_iff (by decide +kernel) (by decide) (by decide)).mpr (by decide)

/-- One more than the largest `int` comes out as the least. -/
theorem largest_plus_one :
    ¬ ∀ (line : Bytes) (a b : Int), line.length = maxLine → FitsInt a → FitsInt b →
      (turn line (sumLine a b)).map Prod.snd = some (printInt (a + b) ++ [newline]) := by
  intro adds
  have replied : (turn (zeros maxLine) (sumLine 2147483647 1)).map Prod.snd =
      some (printInt (-2147483648) ++ [newline]) := by decide +kernel
  have sum := adds (zeros maxLine) 2147483647 1 (by decide +kernel) (by decide) (by decide)
  rw [replied, Option.some.injEq, List.append_cancel_right_eq, printInt_injective.eq_iff] at sum
  exact absurd sum (by decide)

end UnixDemos.IPC.Add2
