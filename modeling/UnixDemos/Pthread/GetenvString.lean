/-
# Pthread.GetenvString — when getenv_ returns a string

`strncpy` is told to leave the last byte of the buffer alone, and nothing else writes
it.  So it is for ever what it was in the block from `malloc` (`Ended`), however often
the buffer is used.  A value that is shorter than `MAXSTRINGSZ - 1` bytes is followed by
NULs of its own; a longer one, or one of just that length, has its NUL only if the block
happened to end in one.
-/
import UnixDemos.Pthread.GetenvIsolation

namespace UnixDemos.Pthread.Getenv

open UnixDemos.Library

set_option autoImplicit false

/-- A NUL ends the value, or what fits of it. -/
def Proper (buf value : Bytes) : Prop := 0 ∈ buf ∧ cstr buf = value.take (maxStringSz - 1)

section Blocks

variable {τ : Type} [DecidableEq τ]

/-- What `malloc` has for a call, if it is one of `t`. -/
def blockFor (t : τ) (asked : τ × CString × List CString × Option (Addr × Bytes)) : Option Bytes :=
  if asked.1 = t then asked.2.2.2.map Prod.snd else none

/-- The first block `malloc` has for a call of `t`. -/
def granted (t : τ) (calls : List (τ × CString × List CString × Option (Addr × Bytes))) :
    Option Bytes :=
  (calls.filterMap (blockFor t)).head?

theorem granted_of_le {t : τ}
    {calls all : List (τ × CString × List CString × Option (Addr × Bytes))} (more : calls <+: all)
    {bytes : Bytes} (given : granted t calls = some bytes) : granted t all = some bytes := by
  obtain ⟨later, rfl⟩ := more
  unfold granted at given ⊢
  rw [List.filterMap_append, List.head?_append, given, Option.some_or]

theorem granted_snoc (t : τ) (calls : List (τ × CString × List CString × Option (Addr × Bytes)))
    (asked : τ × CString × List CString × Option (Addr × Bytes)) :
    granted t (calls ++ [asked]) = (granted t calls).or (blockFor t asked) := by
  unfold granted
  rw [List.filterMap_append]
  cases calls.filterMap (blockFor t) with
  | nil => cases here : blockFor t asked <;> simp [here]
  | cons first later => rfl

end Blocks

/-! ## The last byte of a buffer -/

/-- A buffer ends as the block did that was given for it; without a buffer, none was. -/
def Ended (heap : Addr → Option Bytes) : Option Addr → Option Bytes → Prop
  | none, given => given = none
  | some a, given => ∃ buf bytes, heap a = some buf ∧ given = some bytes ∧
      buf.length = maxStringSz ∧ buf.getLast? = bytes.getLast?

section Ended

variable {heap : Addr → Option Bytes} {owner : Option Addr} {given : Option Bytes} {a : Addr}

theorem Ended.update (ended : Ended heap owner given) {block : Option Bytes}
    (other : owner ≠ some a) : Ended (Function.update heap a block) owner given := by
  cases owner with
  | none => exact ended
  | some b =>
      obtain ⟨buf, bytes, allocated, rest⟩ := ended
      have apart : b ≠ a := fun same => other (congrArg some same)
      exact ⟨buf, bytes, (Function.update_of_ne apart ..).trans allocated, rest⟩

/-- `strncpy` into a buffer, of this owner or another. -/
theorem Ended.write (ended : Ended heap owner given) {buf : Bytes} (allocated : heap a = some buf)
    (value : Bytes) :
    Ended (Function.update heap a (some (strncpy buf value (maxStringSz - 1)))) owner given := by
  by_cases own : owner = some a
  · subst own
    obtain ⟨buf', bytes, allocated', grant, size, last⟩ := ended
    obtain rfl : buf = buf' := Option.some.inj (allocated.symm.trans allocated')
    have room : maxStringSz - 1 < buf.length := by
      rw [size]
      decide
    refine ⟨_, bytes, Function.update_self .., grant, ?_, ?_⟩
    · rw [length_strncpy (Nat.le_of_lt room), size]
    · rw [getLast_strncpy value room, last]
  · exact ended.update own

/-- A new block is nobody's buffer. -/
theorem Ended.fresh (ended : Ended heap owner given) {block : Option Bytes}
    (free : heap a = none) : Ended (Function.update heap a block) owner given := by
  apply ended.update
  rintro rfl
  obtain ⟨buf, bytes, allocated, -⟩ := ended
  rw [free] at allocated
  cases allocated

end Ended

/-! ## Calls -/

section Calls

variable {τ : Type} [DecidableEq τ] {s s' : System τ}

/-- Every thread that runs has a buffer that ends as its block did. -/
def AllEnded (s : System τ) : Prop :=
  ∀ t, s.exited t = false → Ended s.heap (s.buffer t) (granted t (s.log.map Call.asked))

omit [DecidableEq τ] in
theorem Ended.copy {u : τ} {name : CString} {environ : List CString} {a : Addr}
    {result : Option Addr} {given : Option Bytes} (ended : Ended s.heap (s.slot u) given)
    (done : s.initDone = true) (copied : copyValue s name environ a = some (s', result)) :
    Ended s'.heap (s'.buffer u) given := by
  rcases copyValue_cases copied with ⟨-, rfl, -⟩ | ⟨buf, value, -, allocated, rfl, -⟩
  · rwa [buffer_of_initDone done]
  · rw [buffer_of_initDone (by exact done)]
    exact ended.write allocated value

/-- A whole call: perhaps a new buffer for the caller, and then perhaps a value in it. -/
theorem Ended.getenv {t u : τ} {name : CString} {environ : List CString}
    {block : Option (Addr × Bytes)} {result : Option Addr} {given : Option Bytes}
    (answers : mallocAnswers s block = true)
    (called : getenv_ s t name environ block = some (s', result))
    (ended : Ended s.heap (s.buffer u) given) :
    Ended s'.heap (s'.buffer u) (given.or (blockFor u (t, name, environ, block))) := by
  obtain ⟨done, heap, -, -, -⟩ := pthreadOnce_frame s
  rw [← buffer_pthreadOnce, buffer_of_initDone done, ← heap] at ended
  unfold getenv_ envbuf at called
  cases slot : (pthreadOnce s).slot t with
  | some a =>
      rw [slot] at called
      have stays : given.or (blockFor u (t, name, environ, block)) = given := by
        by_cases own : t = u
        · subst own
          rw [slot] at ended
          obtain ⟨buf, bytes, -, rfl, -⟩ := ended
          rfl
        · simp [blockFor, own]
      rw [stays]
      exact ended.copy done called
  | none =>
      rw [slot] at called
      cases block with
      | none =>
          cases called
          rw [buffer_of_initDone done]
          simpa [blockFor] using ended
      | some new =>
          obtain ⟨a, bytes⟩ := new
          obtain ⟨free, size⟩ : s.heap a = none ∧ bytes.length = maxStringSz := by
            simpa [mallocAnswers] using answers
          rw [← heap] at free
          dsimp only at called
          refine Ended.copy ?_ (by exact done) called
          by_cases own : u = t
          · subst own
            rw [slot] at ended
            obtain rfl : given = none := ended
            dsimp only
            rw [Function.update_self]
            exact ⟨bytes, bytes, Function.update_self .., by simp [blockFor], size, rfl⟩
          · dsimp only
            rw [Function.update_of_ne own]
            simpa [blockFor, Ne.symm own] using ended.fresh free

/-- A thread that exits gives back no buffer but its own. -/
theorem AllEnded.exit (ended : AllEnded s) (good : Good s) (t : τ) : AllEnded (threadExit s t) := by
  intro u runs
  have other : u ≠ t := by
    rintro rfl
    unfold threadExit at runs
    split at runs <;> simp at runs
  unfold threadExit at runs ⊢
  split at runs
  · exact ended u ((Function.update_of_ne other ..).symm.trans runs)
  · rename_i a owns
    have before := ended u ((Function.update_of_ne other ..).symm.trans runs)
    have done : s.initDone = true := by
      by_contra notDone
      simp [System.buffer, notDone] at owns
    have apart : s.buffer u ≠ some a := fun owns' => other (good.distinct u t a owns' owns)
    rw [buffer_of_initDone done] at before apart
    rw [buffer_of_initDone (by exact done)]
    dsimp only
    rw [Function.update_of_ne other]
    exact before.update apart

theorem AllEnded.step (ended : AllEnded s) (good : Good s) {e : Event τ}
    (stepped : s.step e = some s') : AllEnded s' := by
  cases e with
  | call t name environ block =>
      obtain ⟨-, runs, answers, ⟨-, rfl⟩ | ⟨m, result, called, rfl⟩⟩ := call_cases stepped
      · exact ended
      · have same := (good.getenv runs answers called).2
        intro u runs'
        have after := (ended u (same.exited ▸ runs')).getenv answers called
        rw [List.map_append, same.log, List.map_singleton, granted_snoc]
        exact after
  | exit t =>
      obtain ⟨-, rfl⟩ := exit_cases stepped
      exact ended.exit good t

theorem AllEnded.run (ended : AllEnded s) (good : Good s) {events : List (Event τ)}
    (ran : run System.step s events = some s') : AllEnded s' := by
  have both := run_invariant System.step (fun s => Good s ∧ AllEnded s)
    (fun m e m' inv stepped => ⟨(inv.1.step stepped).1, inv.2.step inv.1 stepped⟩)
    ⟨good, ended⟩ ran
  exact both.2

/-- **A proper string.**  Whatever the threads have called, in any environments and with
any contents of the blocks from `malloc`, the buffer that the latest successful call of a
thread returned holds the value, or what fits of it, with a NUL behind it, exactly if the
value is shorter than `MAXSTRINGSZ - 1` bytes or the thread's block ended in a NUL. -/
theorem getenv_proper_iff (slot : τ → Option Addr) (heap : Addr → Option Bytes)
    {events : List (Event τ)} {s : System τ}
    (ran : Library.run System.step (start slot heap) events = some s) {t : τ} {a : Addr}
    {v : Bytes} (last : latest t s.log = some (a, v)) (stays : .exit t ∉ events) :
    ∃ buf bytes, s.heap a = some buf ∧ buf.length = maxStringSz ∧
      granted t (events.filterMap Event.asks) = some bytes ∧
      (Proper buf v ↔ v.length < maxStringSz - 1 ∨ bytes.getLast? = some 0) := by
  obtain ⟨good, exited, log, -⟩ := (good_start slot heap).run ran
  have runs : s.exited t = false := by
    by_contra gone
    rcases exited t (by simpa using gone) with before | now
    · cases before
    · exact stays now
  have ended : AllEnded s := by
    refine AllEnded.run ?_ (good_start slot heap) ran
    exact fun u _ => rfl
  have owns := (good.sound t).buffer_of_latest last runs
  obtain ⟨old, written⟩ := (good.sound t).holds a v last runs
  have own := ended t runs
  rw [owns] at own
  obtain ⟨buf, bytes, allocated, grant, size, sameLast⟩ := own
  obtain rfl : buf = strncpy old v (maxStringSz - 1) :=
    Option.some.inj (allocated.symm.trans written)
  have nulFree : NulFree v := by
    obtain ⟨c, -, success⟩ := mem_of_latest last
    obtain ⟨-, -, found⟩ := success_eq_some.mp success
    exact find_nulFree found
  have room : old.length = maxStringSz - 1 + 1 := by
    rw [strncpy, overwrite, List.length_append, List.length_drop, List.length_take,
      List.length_append, zeros, List.length_replicate] at size
    have : maxStringSz = 4096 := rfl
    omega
  refine ⟨_, bytes, allocated, size, granted_of_le log grant, ?_⟩
  rw [← sameLast, getLast_strncpy v (by omega)]
  exact strncpy_terminated_iff nulFree room

end Calls

/-! ## A value as long as the buffer -/

/-- 4095 sevens. -/
def longValue : Bytes := List.replicate (maxStringSz - 1) 55

theorem nulFree_longValue : NulFree longValue := by
  unfold NulFree longValue
  simp [List.mem_replicate]

/-- `ID=` and the sevens. -/
def longEntry : CString where
  text := [73, 68, 61] ++ longValue
  nulFree := nulFree_append.mpr ⟨by decide, nulFree_longValue⟩

theorem find_longEntry : find idVar [longEntry] = some (some longValue) := by
  have value : cstr (longValue ++ [0]) = longValue := cstr_append_nul nulFree_longValue
  have short : idVar.text.length < intMax := by decide
  have matched := matchEntry_of_short short longEntry
  rw [find, len_of_short short, findFrom, if_neg (by decide), matched]
  simp [idVar, longEntry, CString.mem, strncmp, equals, value]

/-- One call, on a block without a NUL. -/
def longCall : List (Event Unit) :=
  [.call () idVar [longEntry] (some (1, List.replicate maxStringSz 255))]

/-- The value, and the last byte of the block. -/
def longBuffer : Bytes := strncpy (List.replicate maxStringSz 255) longValue (maxStringSz - 1)

def afterLongCall : System Unit where
  initDone := true
  slot := fun _ => some 1
  heap := Function.update (fun _ => none) 1 (some longBuffer)
  exited := fun _ => false
  log := [⟨(), idVar, [longEntry], some (1, List.replicate maxStringSz 255), some 1⟩]
  outside := false

theorem longCall_runs :
    run System.step (start (fun _ => none) fun _ => none) longCall = some afterLongCall := by
  have fits : ¬ maxStringSz < maxStringSz - 1 := by decide
  have slots : Function.update (fun _ : Unit => (none : Option Addr)) () (some 1) =
      fun _ => some 1 := by
    funext t
    exact Function.update_self ..
  simp [run, longCall, System.step, start, mallocAnswers, getenv_, envbuf, pthreadOnce, threadInit,
    copyValue, find_longEntry, fits, slots, afterLongCall, longBuffer]

/-- The value is copied whole, and no byte of the buffer is NUL. -/
theorem long_value_unterminated :
    ∃ s buf, run System.step (start (fun _ => none) fun _ => none) longCall = some s ∧
      latest () s.log = some (1, longValue) ∧ s.heap 1 = some buf ∧ ¬ Proper buf longValue := by
  refine ⟨afterLongCall, longBuffer, longCall_runs, ?_, ?_, ?_⟩
  · simp [latest, Call.success, find_longEntry, afterLongCall]
  · simp [afterLongCall]
  · rintro ⟨nul, -⟩
    rw [longBuffer, strncpy_of_le (by simp [longValue])] at nul
    simp [longValue] at nul

/-- The short value of test_env.c on the block that ends in no NUL. -/
theorem getenv_proper_iff_test_env :
    ∃ s buf, run System.step (start (fun _ => some 7) fun _ => none) testEnv = some s ∧
      s.heap 2 = some buf ∧ Proper buf [55] := by
  obtain ⟨s, ran, seen⟩ := Option.map_eq_some_iff.mp testEnv_runs
  obtain ⟨-, last⟩ := Prod.mk.inj seen
  obtain ⟨buf, bytes, allocated, -, -, proper⟩ :=
    getenv_proper_iff _ _ ran last (by simp [testEnv])
  exact ⟨s, buf, ran, allocated, proper.mpr (Or.inl (by decide))⟩

end UnixDemos.Pthread.Getenv
