/-
# Library.Decimal — `%d` in `printf` and `scanf`

`printInt` is `%d` of `printf`: a minus sign if the number is negative, and its
decimal digits.  `scanInt` is `%d` of `scanf`: white space is skipped, a sign may
follow, and then the longest row of digits, of which there must be one.  The C
library reads the digits as a `long`, stopping at the ends of its range, and
stores the low 32 bits.  In a text whose words are integers, two `%d` read the
first two words (`sscanfTwo_eq`), and what `printInt` wrote of an `int` comes back
(`scanValue_printInt`).  A decimal that is cut off is the decimal of a quotient
(`take_decimal`).
-/
import Mathlib.Data.Nat.Digits.Lemmas
import UnixDemos.Library.CInt
import UnixDemos.Library.CString
import UnixDemos.Library.Words

namespace UnixDemos.Library

set_option autoImplicit false

def minusSign : UInt8 := 45

def plusSign : UInt8 := 43

/-- `isspace` in the C locale. -/
def isSpace (b : UInt8) : Bool := b = 32 || (9 ≤ b && b ≤ 13)

def isDigit (b : UInt8) : Bool := 48 ≤ b && b ≤ 57

def digit (d : Nat) : UInt8 := UInt8.ofNat (48 + d)

/-! ## Printing -/

def decimal (n : Nat) : Bytes :=
  if n = 0 then [digit 0] else ((Nat.digits 10 n).reverse.map digit)

def printInt (v : Int) : Bytes :=
  if v < 0 then minusSign :: decimal v.natAbs else decimal v.natAbs

/-- What a number is printed with. -/
theorem mem_decimal {n : Nat} {b : UInt8} (member : b ∈ decimal n) : isDigit b = true := by
  have all : ∀ d < 10, isDigit (digit d) = true := by decide
  unfold decimal at member
  split at member
  · rw [List.mem_singleton.mp member]
    exact all 0 (by decide)
  · obtain ⟨d, isD, rfl⟩ := List.mem_map.mp member
    exact all d (Nat.digits_lt_base (by decide) (List.mem_reverse.mp isD))

theorem mem_printInt {v : Int} {b : UInt8} (member : b ∈ printInt v) :
    b = minusSign ∨ isDigit b = true := by
  unfold printInt at member
  split at member
  · rcases List.mem_cons.mp member with sign | later
    · exact Or.inl sign
    · exact Or.inr (mem_decimal later)
  · exact Or.inr (mem_decimal member)

theorem length_decimal_le {n k : Nat} (some_digit : 0 < k) (bound : n < 10 ^ k) :
    (decimal n).length ≤ k := by
  unfold decimal
  split
  · exact some_digit
  · rw [List.length_map, List.length_reverse]
    exact (Nat.digits_length_le_iff (by decide) n).mpr bound

theorem nulFree_printInt (v : Int) : NulFree (printInt v) := by
  intro member
  rcases mem_printInt member with sign | isD
  · cases sign
  · cases isD

/-- An `int` prints as eleven characters at most. -/
theorem length_printInt_wrap32 (v : Int) : (printInt (wrap32 v)).length ≤ 11 := by
  have bound : (wrap32 v).natAbs < 10 ^ 10 := by
    unfold wrap32
    omega
  have short := length_decimal_le (by decide) bound
  unfold printInt
  split
  · rw [List.length_cons]
    omega
  · omega

/-! ## Reading the digits back -/

def digitsValue (digits : Bytes) : Nat := digits.foldl (fun v d => 10 * v + (d.toNat - 48)) 0

theorem foldr_digit {ds : List Nat} (all : ∀ d ∈ ds, d < 10) :
    ds.foldr (fun d v => 10 * v + ((digit d).toNat - 48)) 0 = Nat.ofDigits 10 ds := by
  have value : ∀ d < 10, (digit d).toNat - 48 = d := by decide
  induction ds with
  | nil => rfl
  | cons d ds ih =>
      rw [List.forall_mem_cons] at all
      rw [List.foldr_cons, ih all.2, value d all.1, Nat.ofDigits_cons, Nat.add_comm]

theorem digitsValue_decimal (n : Nat) : digitsValue (decimal n) = n := by
  unfold digitsValue decimal
  split
  · rename_i zero
    rw [zero]
    rfl
  · rw [List.foldl_map, List.foldl_reverse,
      foldr_digit fun d member => Nat.digits_lt_base (by decide) member, Nat.ofDigits_digits]

theorem decimal_injective : Function.Injective decimal :=
  Function.LeftInverse.injective digitsValue_decimal

/-- Two numbers that print alike are one number. -/
theorem printInt_injective : Function.Injective printInt := by
  have noSign : ∀ n, minusSign ∉ decimal n := by
    intro n member
    cases mem_decimal member
  intro v w same
  unfold printInt at same
  split at same <;> split at same
  · have magnitude := decimal_injective (List.cons.inj same).2
    omega
  · exact absurd (same ▸ List.mem_cons_self) (noSign _)
  · exact absurd (same ▸ List.mem_cons_self) (noSign _)
  · have magnitude := decimal_injective same
    omega

/-! ## Decimals that are cut off -/

/-- What is left of `n` if only its first `r` digits are kept. -/
def lead (r n : Nat) : Nat := n / 10 ^ ((decimal n).length - r)

theorem drop_digits (n k : Nat) : (Nat.digits 10 n).drop k = Nat.digits 10 (n / 10 ^ k) := by
  induction k generalizing n with
  | zero => rw [List.drop_zero, Nat.pow_zero, Nat.div_one]
  | succ k ih =>
      by_cases zero : n = 0
      · simp [zero]
      · rw [Nat.digits_def' (by decide) (Nat.pos_of_ne_zero zero), List.drop_succ_cons, ih,
          Nat.div_div_eq_div_mul, Nat.pow_succ']

theorem take_decimal {r : Nat} (some_digit : 0 < r) (n : Nat) :
    (decimal n).take r = decimal (lead r n) := by
  by_cases zero : n = 0
  · obtain ⟨k, rfl⟩ : ∃ k, r = k + 1 := ⟨r - 1, by omega⟩
    simp [zero, lead, decimal]
  · have length : (decimal n).length = (Nat.digits 10 n).length := by simp [decimal, zero]
    have kept := drop_digits n ((Nat.digits 10 n).length - r)
    have positive : 0 < (Nat.digits 10 n).length :=
      List.length_pos_iff.mpr (Nat.digits_ne_nil_iff_ne_zero.mpr zero)
    have nonzero : lead r n ≠ 0 := by
      rw [lead, length, ← Nat.digits_ne_nil_iff_ne_zero (b := 10), ← kept, ← List.length_pos_iff,
        List.length_drop]
      omega
    rw [decimal, decimal, if_neg zero, if_neg nonzero, lead, length, ← kept, ← List.map_take,
      List.take_reverse]

theorem lead_of_length_le {r n : Nat} (short : (decimal n).length ≤ r) : lead r n = n := by
  rw [lead, Nat.sub_eq_zero_of_le short, Nat.pow_zero, Nat.div_one]

/-! ## Scanning -/

/-- The nearest `long`. -/
def saturate64 (v : Int) : Int := max (-2 ^ 63) (min v (2 ^ 63 - 1))

def scanDigits (negative : Bool) (input : Bytes) : Option (Int × Bytes) :=
  let digits := input.takeWhile isDigit
  if digits = [] then none
  else
    let v : Int := digitsValue digits
    some (wrap32 (saturate64 (if negative then -v else v)), input.dropWhile isDigit)

/-- One `%d`; `none` is a failure to match. -/
def scanInt (input : Bytes) : Option (Int × Bytes) :=
  match input.dropWhile isSpace with
  | [] => none
  | c :: rest =>
      if c = minusSign then scanDigits true rest
      else if c = plusSign then scanDigits false rest
      else scanDigits false (c :: rest)

/-- `sscanf(s, "%d%d", ..) == 2`, with the two values. -/
def sscanfTwo (input : Bytes) : Option (Int × Int) :=
  match scanInt input with
  | none => none
  | some (int1, rest) =>
      match scanInt rest with
      | none => none
      | some (int2, _) => some (int1, int2)

/-! ## Scanning words -/

/-- An optional sign and at least one digit. -/
def isInt : Bytes → Bool
  | [] => false
  | c :: digits =>
      if c = minusSign ∨ c = plusSign then !digits.isEmpty && digits.all isDigit
      else (c :: digits).all isDigit

theorem mem_isInt {word : Bytes} {b : UInt8} (integer : isInt word = true) (member : b ∈ word) :
    b = minusSign ∨ b = plusSign ∨ isDigit b = true := by
  cases word with
  | nil => cases member
  | cons c digits =>
      by_cases signed : c = minusSign ∨ c = plusSign
      · rw [isInt, if_pos signed, Bool.and_eq_true, List.all_eq_true] at integer
        rcases List.mem_cons.mp member with rfl | later
        · exact signed.imp_right Or.inl
        · exact Or.inr (Or.inr (integer.2 b later))
      · rw [isInt, if_neg signed, List.all_eq_true] at integer
        exact Or.inr (Or.inr (integer b member))

/-- What `%d` stores for a sign and a row of digits. -/
def storedInt (negative : Bool) (digits : Bytes) : Int :=
  wrap32 (saturate64 (if negative then -(digitsValue digits : Int) else digitsValue digits))

/-- What `%d` stores for a word. -/
def scanValue (word : Bytes) : Int := (scanInt word).elim 0 Prod.fst

section Scan

variable {word rest digits gap : Bytes}

theorem isSpace_of_isDigit {b : UInt8} (isD : isDigit b = true) : isSpace b = false := by
  simp only [isDigit, isSpace] at *
  grind

/-- A row of digits that ends where the word ends. -/
theorem scanDigits_append (negative : Bool) (some_digit : digits ≠ [])
    (all : ∀ b ∈ digits, isDigit b = true) (stops : Stops isSpace rest) :
    scanDigits negative (digits ++ rest) = some (storedInt negative digits, rest) := by
  have ends : rest.takeWhile isDigit = [] ∧ rest.dropWhile isDigit = rest := by
    cases rest with
    | nil => exact ⟨rfl, rfl⟩
    | cons c more =>
        have noDigit : isDigit c = false := by
          by_contra isD
          have space := stops c more rfl
          rw [isSpace_of_isDigit (by simpa using isD)] at space
          cases space
        simp [noDigit]
  have taken : (digits ++ rest).takeWhile isDigit = digits := by
    rw [List.takeWhile_append_of_pos all, ends.1, List.append_nil]
  have dropped : (digits ++ rest).dropWhile isDigit = rest := by
    rw [List.dropWhile_append_of_pos all, ends.2]
  simp only [scanDigits, taken, dropped, if_neg some_digit, storedInt]

/-- `%d` skips white space, reads a word that is an integer, and stops behind it. -/
theorem scanInt_append (integer : isInt word = true) :
    ∃ v, ∀ gap rest, (∀ b ∈ gap, isSpace b = true) → Stops isSpace rest →
      scanInt (gap ++ (word ++ rest)) = some (v, rest) := by
  cases word with
  | nil => cases integer
  | cons c digits =>
      have skipped : isSpace c = false → ∀ gap tail, (∀ b ∈ gap, isSpace b = true) →
          (gap ++ (c :: tail)).dropWhile isSpace = c :: tail := by
        intro visible gap tail spaces
        rw [List.dropWhile_append_of_pos spaces]
        exact List.dropWhile_cons_of_neg (by simp [visible])
      by_cases signed : c = minusSign ∨ c = plusSign
      · simp only [isInt, if_pos signed, Bool.and_eq_true, Bool.not_eq_true',
          List.isEmpty_eq_false_iff, List.all_eq_true] at integer
        refine ⟨storedInt (c = minusSign) digits, fun gap rest spaces stops => ?_⟩
        have visible : isSpace c = false := by rcases signed with rfl | rfl <;> rfl
        rw [scanInt, List.cons_append, skipped visible gap _ spaces]
        rcases signed with rfl | rfl
        · exact scanDigits_append true integer.1 integer.2 stops
        · exact scanDigits_append false integer.1 integer.2 stops
      · simp only [isInt, if_neg signed, List.all_eq_true] at integer
        refine ⟨storedInt false (c :: digits), fun gap rest spaces stops => ?_⟩
        have visible : isSpace c = false := isSpace_of_isDigit (integer c List.mem_cons_self)
        rw [scanInt, List.cons_append, skipped visible gap _ spaces]
        simp only [not_or] at signed
        simp only [if_neg signed.1, if_neg signed.2]
        exact scanDigits_append false (List.cons_ne_nil c digits) integer stops

theorem scanInt_word (integer : isInt word = true) (spaces : ∀ b ∈ gap, isSpace b = true)
    (stops : Stops isSpace rest) :
    scanInt (gap ++ (word ++ rest)) = some (scanValue word, rest) := by
  obtain ⟨v, reads⟩ := scanInt_append integer
  have alone := reads [] [] (by simp) nofun
  rw [List.nil_append, List.append_nil] at alone
  rw [reads gap rest spaces stops, scanValue, alone]
  rfl

/-! ## Scanning what was printed -/

theorem decimal_ne_nil (n : Nat) : decimal n ≠ [] := by
  unfold decimal
  split
  · exact List.cons_ne_nil _ _
  · rename_i nonzero
    simpa using Nat.digits_ne_nil_iff_ne_zero.mpr nonzero

theorem isInt_printInt (v : Int) : isInt (printInt v) = true := by
  have digits : ∀ n, (decimal n).all isDigit = true := fun n =>
    List.all_eq_true.mpr fun b member => mem_decimal member
  unfold printInt
  split
  · simp [isInt, digits, decimal_ne_nil]
  · cases shape : decimal v.natAbs with
    | nil => exact absurd shape (decimal_ne_nil _)
    | cons c rest =>
        have isD : isDigit c = true := mem_decimal (shape ▸ List.mem_cons_self)
        have noSign : ¬ (c = minusSign ∨ c = plusSign) := by
          rintro (rfl | rfl) <;> cases isD
        rw [isInt, if_neg noSign, ← shape]
        exact digits _

theorem storedInt_decimal {v : Int} (lower : -2 ^ 31 ≤ v) (upper : v < 2 ^ 31) :
    storedInt (v < 0) (decimal v.natAbs) = v := by
  unfold storedInt
  rw [digitsValue_decimal]
  have magnitude : (if decide (v < 0) = true then -(v.natAbs : Int) else v.natAbs) = v := by
    simp only [decide_eq_true_eq]
    split <;> omega
  have inside : saturate64 v = v := by
    unfold saturate64
    omega
  rw [magnitude, inside, wrap32_of_mem lower upper]

/-- An `int` comes back as it was printed. -/
theorem scanValue_printInt {v : Int} (lower : -2 ^ 31 ≤ v) (upper : v < 2 ^ 31) :
    scanValue (printInt v) = v := by
  have stored := storedInt_decimal lower upper
  have digits : ∀ negative, scanDigits negative (decimal v.natAbs) =
      some (storedInt negative (decimal v.natAbs), []) := by
    intro negative
    have whole := @scanDigits_append [] (decimal v.natAbs) negative (decimal_ne_nil _)
      (fun b member => mem_decimal member) (by simp [Stops])
    simpa using whole
  unfold printInt scanValue scanInt
  by_cases negative : v < 0
  · have sign : (minusSign :: decimal v.natAbs).dropWhile isSpace =
        minusSign :: decimal v.natAbs := rfl
    rw [if_pos negative, sign]
    simp only [if_true, digits]
    simpa [negative] using stored
  · rw [if_neg negative]
    cases shape : decimal v.natAbs with
    | nil => exact absurd shape (decimal_ne_nil _)
    | cons c rest =>
        have isD : isDigit c = true := mem_decimal (shape ▸ List.mem_cons_self)
        have visible : (c :: rest).dropWhile isSpace = c :: rest :=
          List.dropWhile_cons_of_neg (by simp [isSpace_of_isDigit isD])
        have noMinus : c ≠ minusSign := by
          rintro rfl
          cases isD
        have noPlus : c ≠ plusSign := by
          rintro rfl
          cases isD
        rw [shape] at digits stored
        simp only [visible, if_neg noMinus, if_neg noPlus, digits]
        simpa [negative] using stored

/-- White space only: nothing to read. -/
theorem scanInt_eq_none {text : Bytes} (blank : words isSpace text = []) : scanInt text = none := by
  have spaces : ∀ b ∈ text, isSpace b = true := by
    intro b member
    rcases mem_words member with space | ⟨w, inWords, -⟩
    · exact space
    · rw [blank] at inWords
      cases inWords
  rw [scanInt, List.dropWhile_eq_nil_iff.mpr spaces]

/-- In a text of integers, `sscanf` finds the first two words. -/
theorem sscanfTwo_eq {text : Bytes} (integers : ∀ w ∈ words isSpace text, isInt w = true) :
    sscanfTwo text = match words isSpace text with
      | first :: second :: _ => some (scanValue first, scanValue second)
      | _ => none := by
  cases found : words isSpace text with
  | nil => rw [sscanfTwo, scanInt_eq_none found]
  | cons first others =>
      rw [found] at integers
      obtain ⟨gap, rest, rfl, spaces, stops, later⟩ := exists_of_words_cons found
      rw [sscanfTwo, scanInt_word (integers first List.mem_cons_self) spaces stops]
      cases others with
      | nil => simp only [scanInt_eq_none later]
      | cons second more =>
          obtain ⟨gap', rest', rfl, spaces', stops', -⟩ := exists_of_words_cons later
          have integer := integers second (List.mem_cons_of_mem _ List.mem_cons_self)
          simp only [scanInt_word integer spaces' stops']

end Scan

end UnixDemos.Library
