/-
# TermIo.GetpassWipe — what is left of the password

The wipe of `main` runs up to the first NUL in the buffer.  The loop of `getpass` stores
whatever byte was typed, so a NUL that was typed hides the bytes behind it.
-/
import UnixDemos.TermIo.Getpass

namespace UnixDemos.TermIo.Getpass

open UnixDemos.Library

set_option autoImplicit false

/-! ## Calls of getpass -/

section Calls

variable {signed : Bool} {fuel : Nat} {p p' : Process}

/-- A call that is prompted for a password, on input that ends. -/
theorem getpass_prompted (size : p.buf.length = maxPassLen + 1) (ends : Ends signed p.input)
    (enough : p.input.length < fuel) (prompt : String) :
    getpass signed ⟨true, true⟩ fuel prompt p = some
      ({ p with
          input := p.input.drop ((typed signed p.input).length + 1)
          buf := overwrite p.buf ((typed signed p.input).take maxPassLen ++ [0])
          log := p.log ++ [.fputs prompt] ++ [.putc newline] }, .buf) := by
  have short : (typed signed p.input).length < fuel :=
    Nat.lt_of_le_of_lt (List.takeWhile_sublist _).length_le enough
  have read := readLoop_ends size [] ends short
  have start : (⟨p.input, p.buf, 0⟩ : Reading) = reached p.buf [] p.input := rfl
  simp only [getpass, Process.note, start, read, store_reached size, reduceCtorEq, if_false]
  rfl

/-- Whatever fails, a call that returns leaves the terminal and the signal mask as they
were; and no call stores outside the buffer. -/
theorem getpass_restores {answers : Answers} {prompt : String} {ret : Return}
    (size : p.buf.length = maxPassLen + 1)
    (called : getpass signed answers fuel prompt p = some (p', ret)) :
    ret ≠ .outside ∧ p'.buf.length = maxPassLen + 1 ∧
      (ret = .null ∨ ret = .buf → p'.lflag = p.lflag ∧ p'.mask = p.mask) := by
  simp only [getpass] at called
  split at called
  · cases called
    exact ⟨by simp, size, fun _ => ⟨rfl, rfl⟩⟩
  · split at called
    · cases called
      exact ⟨by simp, size, by simp⟩
    · split at called
      · cases called
      · rename_i failed
        have start : readLoop signed fuel (reached p.buf [] p.input) = some none := failed
        obtain ⟨-, result⟩ := readLoop_some size start
        cases result
      · rename_i r done
        have start : readLoop signed fuel (reached p.buf [] p.input) = some (some r) := done
        obtain ⟨-, result⟩ := readLoop_some size start
        cases result
        rw [store_reached size] at called
        cases called
        refine ⟨by simp, ?_, fun _ => ⟨rfl, rfl⟩⟩
        refine (length_overwrite ?_).trans size
        rw [List.length_append, List.length_take, List.length_singleton, size]
        omega

end Calls

/-! ## The wipe -/

/-- The string becomes zeros, and what is behind its NUL stays. -/
theorem wipe_eq {mem : Bytes} (nul : 0 ∈ mem) :
    wipe mem = some (zeros (cstr mem).length ++ mem.dropWhile (· ≠ 0)) := by
  induction mem with
  | nil => cases nul
  | cons b mem ih =>
      by_cases isNul : b = 0
      · subst isNul
        simp [wipe, cstr, zeros]
      · have later : 0 ∈ mem := (List.mem_cons.mp nul).resolve_left (Ne.symm isNul)
        simp [wipe, isNul, ih later, cstr, zeros, List.replicate_succ]

/-- No byte but NUL stands behind a NUL. -/
def NulLast (text : Bytes) : Prop := ∀ b ∈ text.dropWhile (· ≠ 0), b = 0

instance (text : Bytes) : Decidable (NulLast text) := inferInstanceAs (Decidable (∀ _ ∈ _, _))

theorem nulLast_append_zeros (text : Bytes) (n : Nat) :
    NulLast (text ++ zeros n) ↔ NulLast text := by
  unfold NulLast
  rw [List.dropWhile_append]
  cases behind : text.dropWhile (· ≠ 0) with
  | nil => simp [zeros]
  | cons b rest => simp [zeros, or_imp, forall_and]

theorem zeros_append_eq_iff {n m : Nat} {rest : Bytes} (size : n + rest.length = m) :
    zeros n ++ rest = zeros m ↔ ∀ b ∈ rest, b = 0 := by
  subst size
  unfold zeros
  rw [List.replicate_add, List.append_cancel_left_eq, List.eq_replicate_iff]
  exact and_iff_right rfl

/-- What the wipe leaves is zero exactly if the string was all there was. -/
theorem wipe_zeros_iff {mem : Bytes} (nul : 0 ∈ mem) :
    wipe mem = some (zeros mem.length) ↔ NulLast mem := by
  have size : (cstr mem).length + (mem.dropWhile (· ≠ 0)).length = mem.length := by
    rw [← List.length_append, cstr, List.takeWhile_append_dropWhile]
  rw [wipe_eq nul, Option.some.injEq, zeros_append_eq_iff size]
  rfl

/-- The NUL of the password is one more of the zeros behind it. -/
theorem overwrite_fresh {text : Bytes} {n : Nat} (fits : text.length ≤ n) :
    overwrite (zeros (n + 1)) (text ++ [0]) = text ++ zeros (n - text.length + 1) := by
  have room : n + 1 - (text.length + 1) = n - text.length := by omega
  rw [overwrite_zeros, List.length_append, List.length_singleton, room, List.append_assoc]
  rfl

theorem main_of_getpass {signed : Bool} {answers : Answers} {fuel : Nat} {p q : Process}
    {buf : Bytes} (called : getpass signed answers fuel "Enter password:" p = some (q, .buf))
    (wiped : wipe q.buf = some buf) :
    main signed answers fuel p =
      some ({ q.note (.printf "password: %s\n" (cstr q.buf)) with buf }, .status 0) := by
  simp only [main, called, Process.note, wiped]

/-- **The wipe.**  Let any bytes be typed, until the line ends for `getpass`.  `main` is
done, with status 0, and its wipe has left nothing but zeros in the static buffer exactly
if no typed NUL has another byte behind it among the first `MAX_PASS_LEN`. -/
theorem wiped_iff {signed : Bool} {fuel : Nat} {p : Process}
    (fresh : p.buf = zeros (maxPassLen + 1)) (ends : Ends signed p.input)
    (enough : p.input.length < fuel) :
    ∃ p', main signed ⟨true, true⟩ fuel p = some (p', .status 0) ∧
      (p'.buf = zeros (maxPassLen + 1) ↔
        NulLast ((typed signed p.input).take maxPassLen)) := by
  have size : p.buf.length = maxPassLen + 1 := by rw [fresh, zeros, List.length_replicate]
  have called := getpass_prompted size ends enough "Enter password:"
  have short : ((typed signed p.input).take maxPassLen).length ≤ maxPassLen :=
    List.length_take_le ..
  rw [fresh, overwrite_fresh short] at called
  generalize (typed signed p.input).take maxPassLen = text at called short ⊢
  have nul : 0 ∈ text ++ zeros (maxPassLen - text.length + 1) :=
    List.mem_append_right _ List.mem_cons_self
  have length : (text ++ zeros (maxPassLen - text.length + 1)).length = maxPassLen + 1 := by
    rw [List.length_append, zeros, List.length_replicate]
    omega
  have wiped := wipe_eq nul
  have zero := wipe_zeros_iff nul
  rw [nulLast_append_zeros, length, wiped, Option.some.injEq] at zero
  exact ⟨_, main_of_getpass called wiped, zero⟩

/-! ## A password with a NUL in it -/

/-- The process at its prompt, with all flags set and no signal blocked. -/
def atPrompt (input : Bytes) : Process where
  input := input
  buf := zeros (maxPassLen + 1)
  lflag := fun _ => true
  mask := fun _ => false
  log := []

/-- Behind `a` and a NUL, the `b` stays. -/
theorem byte_behind_nul_kept :
    (main true ⟨true, true⟩ 5 (atPrompt [97, 0, 98, newline])).map (fun r => (r.1.buf, r.2)) =
      some ([0, 0, 98, 0, 0, 0, 0, 0, 0], .status 0) := by
  decide

/-- The password `secret` is wiped. -/
theorem wiped_iff_secret :
    ∃ p', main false ⟨true, true⟩ 8 (atPrompt [115, 101, 99, 114, 101, 116, newline]) =
      some (p', .status 0) ∧ p'.buf = zeros (maxPassLen + 1) := by
  obtain ⟨p', ran, wiped⟩ := @wiped_iff false 8 (atPrompt [115, 101, 99, 114, 101, 116, newline])
    rfl (Or.inr (by decide)) (by decide)
  exact ⟨p', ran, wiped.mpr (by decide +kernel)⟩

end UnixDemos.TermIo.Getpass
