/-
# Library.CString — byte buffers and NUL-terminated strings

A buffer is a list of bytes.  `read` into it overwrites its front (`overwrite`)
and leaves the rest; a function that takes a C string sees the bytes up to the
first NUL (`cstr`), and nothing says that the NUL lies inside the buffer.  So the
lemmas about `cstr` say what was in the buffer before: a short NUL-free message
written over zeros reads back as itself (`cstr_overwrite_zeros`).

A `CString` is a string in memory of its own, with its NUL as the last byte;
`strncmp` and an index into it are partial, and a missing answer is a read behind
the NUL.
-/
import Mathlib.Data.List.Basic
import Mathlib.Data.List.TakeWhile

namespace UnixDemos.Library

set_option autoImplicit false

abbrev Bytes := List UInt8

/-- The C string at the start of a piece of memory. -/
def cstr (mem : Bytes) : Bytes := mem.takeWhile (· ≠ 0)

/-- The buffer after `data` was stored at its start. -/
def overwrite (buf data : Bytes) : Bytes := data ++ buf.drop data.length

/-- `buf[i] = b`; `none` is a store outside the buffer. -/
def store (buf : Bytes) (i : Nat) (b : UInt8) : Option Bytes :=
  if i < buf.length then some (buf.set i b) else none

/-- A buffer of `n` zero bytes. -/
def zeros (n : Nat) : Bytes := List.replicate n 0

def NulFree (data : Bytes) : Prop := 0 ∉ data

instance (data : Bytes) : Decidable (NulFree data) := inferInstanceAs (Decidable (¬ _))

theorem nulFree_append {data rest : Bytes} :
    NulFree (data ++ rest) ↔ NulFree data ∧ NulFree rest := by
  unfold NulFree
  rw [List.mem_append, not_or]

theorem nulFree_cons {b : UInt8} {data : Bytes} : NulFree (b :: data) ↔ b ≠ 0 ∧ NulFree data := by
  unfold NulFree
  rw [List.mem_cons, not_or, ne_comm]

theorem nulFree_cstr (mem : Bytes) : NulFree (cstr mem) := by
  intro nul
  simpa using List.mem_takeWhile_imp nul

theorem cstr_cons_eq_nil {b : UInt8} {rest : Bytes} : cstr (b :: rest) = [] ↔ b = 0 := by
  unfold cstr
  by_cases nul : b = 0 <;> simp [nul]

theorem cstr_append {data : Bytes} (nulFree : NulFree data) (rest : Bytes) :
    cstr (data ++ rest) = data ++ cstr rest := by
  have all : ∀ b ∈ data, decide (b ≠ 0) = true := by
    intro b member
    have : b ≠ 0 := fun same => nulFree (same ▸ member)
    simpa using this
  exact List.takeWhile_append_of_pos all

theorem cstr_append_nul {data rest : Bytes} (nulFree : NulFree data) :
    cstr (data ++ 0 :: rest) = data := by
  rw [cstr_append nulFree, cstr_cons_eq_nil.mpr rfl, List.append_nil]

/-- Behind a NUL nothing matters. -/
theorem cstr_append_zero (data rest : Bytes) : cstr (data ++ 0 :: rest) = cstr data := by
  induction data with
  | nil => rfl
  | cons b data ih =>
      unfold cstr at ih ⊢
      rw [List.cons_append, List.takeWhile_cons, List.takeWhile_cons, ih]

theorem cstr_eq_self_iff {mem : Bytes} : cstr mem = mem ↔ NulFree mem := by
  constructor
  · intro same
    rw [← same]
    exact nulFree_cstr mem
  · intro nulFree
    rw [← cstr_append_zero mem [], cstr_append_nul nulFree]

theorem length_cstr_le (mem : Bytes) : (cstr mem).length ≤ mem.length :=
  (List.takeWhile_sublist _).length_le

theorem take_length_cstr (mem : Bytes) : mem.take (cstr mem).length = cstr mem :=
  (List.prefix_iff_eq_take.mp (List.takeWhile_prefix _)).symm

/-- A C string ends at the latest where a NUL is known to be. -/
theorem length_cstr_append_nul_le (data rest : Bytes) :
    (cstr (data ++ 0 :: rest)).length ≤ data.length := by
  rw [cstr_append_zero]
  exact length_cstr_le data

theorem length_overwrite {buf data : Bytes} (fits : data.length ≤ buf.length) :
    (overwrite buf data).length = buf.length := by
  unfold overwrite
  rw [List.length_append, List.length_drop]
  omega

/-- Data that does not fill the buffer leaves its last byte. -/
theorem getLast_overwrite_of_lt {buf data : Bytes} (short : data.length < buf.length) :
    (overwrite buf data).getLast? = buf.getLast? := by
  have rest : buf.drop data.length ≠ [] := by simpa using short
  rw [overwrite, List.getLast?_append_of_ne_nil _ rest, List.getLast?_drop, if_neg (by omega)]

theorem overwrite_zeros (data : Bytes) (n : Nat) :
    overwrite (zeros n) data = data ++ zeros (n - data.length) := by
  unfold overwrite zeros
  rw [List.drop_replicate]

/-- A store right behind what was stored so far. -/
theorem store_overwrite {buf data : Bytes} (b : UInt8) (inside : data.length < buf.length) :
    store (overwrite buf data) data.length b = some (overwrite buf (data ++ [b])) := by
  have fits := length_overwrite (Nat.le_of_lt inside)
  have split : buf.drop data.length = buf.get ⟨data.length, inside⟩ :: buf.drop (data.length + 1) :=
    List.drop_eq_getElem_cons inside
  unfold store
  rw [if_pos (fits.symm ▸ inside), overwrite, split, List.set_append_right _ _ (Nat.le_refl _),
    Nat.sub_self, List.set_cons_zero, overwrite, List.length_append, List.length_singleton,
    List.append_assoc, List.singleton_append]

/-- A message with its terminator, over anything, is its own C string. -/
theorem cstr_overwrite {data : Bytes} (nulFree : NulFree data) (buf : Bytes) :
    cstr (overwrite buf (data ++ [0])) = data := by
  rw [overwrite, List.append_assoc, List.cons_append]
  exact cstr_append_nul nulFree

/-- A message over zeros, with room for the terminator, is its own C string. -/
theorem cstr_overwrite_zeros {data : Bytes} {n : Nat} (nulFree : NulFree data)
    (short : data.length < n) (beyond : Bytes) :
    cstr (overwrite (zeros n) data ++ beyond) = data := by
  obtain ⟨k, rest⟩ : ∃ k, n - data.length = k + 1 := ⟨n - data.length - 1, by omega⟩
  rw [overwrite_zeros, rest, zeros, List.replicate_succ, List.append_assoc, List.cons_append,
    cstr_append_nul nulFree]

/-! ## Strings in memory of their own -/

structure CString where
  text : Bytes
  nulFree : NulFree text

/-- The bytes of the string, the terminator included. -/
def CString.mem (s : CString) : Bytes := s.text ++ [0]

/-- `strncmp(s, t, n)`, as the order of the two; `none` is a read behind the memory of
one of them. -/
def strncmp : Bytes → Bytes → Nat → Option Ordering
  | _, _, 0 => some .eq
  | a :: s, b :: t, n + 1 =>
      if a ≠ b then some (compare a b) else if a = 0 then some .eq else strncmp s t n
  | _, _, _ + 1 => none

/-- The buffer after `strncpy(buf, src, n)`: the string cut at `n` bytes, or filled up
with NULs to `n`. -/
def strncpy (buf src : Bytes) (n : Nat) : Bytes := overwrite buf ((src ++ zeros n).take n)

/-- Comparing as many bytes as the first string has: the second starts with it. -/
theorem strncmp_length {s t : Bytes} (freeS : NulFree s) (freeT : NulFree t) :
    ∃ order, strncmp (s ++ [0]) (t ++ [0]) s.length = some order ∧ (order = .eq ↔ s <+: t) := by
  induction s generalizing t with
  | nil =>
      exact ⟨.eq, by rw [List.length_nil, strncmp], by simp⟩
  | cons a s ih =>
      obtain ⟨notNul, freeS⟩ := nulFree_cons.mp freeS
      cases t with
      | nil =>
          refine ⟨compare a 0, by simp [strncmp, notNul], ?_⟩
          rw [Std.LawfulEqOrd.compare_eq_iff_eq]
          simp [notNul]
      | cons b t =>
          by_cases same : a = b
          · subst same
            obtain ⟨order, compared, iff⟩ := ih freeS (nulFree_cons.mp freeT).2
            refine ⟨order, by simpa [strncmp, notNul] using compared, ?_⟩
            rw [iff, List.cons_prefix_cons]
            simp
          · refine ⟨compare a b, by simp [strncmp, same], ?_⟩
            rw [Std.LawfulEqOrd.compare_eq_iff_eq, List.cons_prefix_cons]
            simp [same]

theorem length_strncpy {buf src : Bytes} {n : Nat} (fits : n ≤ buf.length) :
    (strncpy buf src n).length = buf.length := by
  apply length_overwrite
  exact (List.length_take_le _ _).trans fits

/-- A string shorter than `n` comes out whole, whatever was in the buffer. -/
theorem cstr_strncpy {src : Bytes} {n : Nat} (nulFree : NulFree src) (short : src.length < n)
    (buf : Bytes) : cstr (strncpy buf src n) = src := by
  obtain ⟨k, rfl⟩ : ∃ k, n = src.length + (k + 1) := ⟨n - src.length - 1, by omega⟩
  have padded : (src ++ zeros (src.length + (k + 1))).take (src.length + (k + 1)) =
      src ++ 0 :: zeros k := by
    rw [List.take_append, List.take_of_length_le (by omega), zeros, List.take_replicate]
    simp [zeros, List.replicate_succ]
  rw [strncpy, overwrite, padded, List.append_assoc, List.cons_append]
  exact cstr_append_nul nulFree

/-- A buffer one byte longer than what is copied keeps that byte. -/
theorem getLast_strncpy {buf : Bytes} {n : Nat} (src : Bytes) (room : n < buf.length) :
    (strncpy buf src n).getLast? = buf.getLast? := by
  apply getLast_overwrite_of_lt
  exact Nat.lt_of_le_of_lt (List.length_take_le ..) room

/-- A string of `n` bytes or more takes the first `n`, and nothing is said behind them. -/
theorem strncpy_of_le {src : Bytes} {n : Nat} (long : n ≤ src.length) (buf : Bytes) :
    strncpy buf src n = src.take n ++ buf.drop n := by
  rw [strncpy, List.take_append_of_le_length long, overwrite, List.length_take,
    Nat.min_eq_left long]

/-- `strncpy` into all of a buffer but its last byte leaves a string, the source or what
fits of it, exactly if the source is shorter or that byte was NUL. -/
theorem strncpy_terminated_iff {buf src : Bytes} {n : Nat} (nulFree : NulFree src)
    (size : buf.length = n + 1) :
    (0 ∈ strncpy buf src n ∧ cstr (strncpy buf src n) = src.take n) ↔
      src.length < n ∨ buf.getLast? = some 0 := by
  obtain ⟨b, last⟩ : ∃ b, buf.drop n = [b] := by
    apply List.length_eq_one_iff.mp
    rw [List.length_drop]
    omega
  have lastByte : buf.getLast? = some b := by
    rw [← List.take_append_drop n buf, last, List.getLast?_concat]
  have free : NulFree (src.take n) := fun nul => nulFree (List.mem_of_mem_take nul)
  by_cases short : src.length < n
  · have padded : (0 : UInt8) ∈ (src ++ zeros n).take n := by
      obtain ⟨k, rfl⟩ : ∃ k, n = src.length + (k + 1) := ⟨n - src.length - 1, by omega⟩
      rw [List.take_append, List.mem_append]
      right
      rw [Nat.add_sub_cancel_left, zeros, List.take_replicate]
      simp
    refine ⟨fun _ => Or.inl short, fun _ => ⟨List.mem_append_left _ padded, ?_⟩⟩
    rw [cstr_strncpy nulFree short, List.take_of_length_le (Nat.le_of_lt short)]
  · rw [strncpy_of_le (Nat.le_of_not_lt short), last, cstr_append free, List.append_right_eq_self,
      cstr_cons_eq_nil, lastByte, Option.some.injEq, or_iff_right short, and_iff_right_iff_imp]
    rintro rfl
    simp

end UnixDemos.Library
