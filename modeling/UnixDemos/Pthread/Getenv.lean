/-
# Pthread.Getenv — the getenv_ of getenv_thr.c

`getenv_` copies the value of a variable into a buffer of the calling thread, which
it gets from `malloc` on the thread's first call and finds again through a key.  It
holds `env_mutex` from the look-up of the buffer to its last line, so one call is one
step here, and `environ` is an argument of the call: nobody changes it meanwhile.

`pthread_once` creates the key in the first call of all, and with the key every
thread's slot, NULL; what `slot` holds before that means nothing.  The destructor of
the key is `free`, so a thread that exits gives its buffer back.

`malloc` answers with a block nobody has and with any contents.  The length of the name
and the index into `environ` are `int`s, so a name of 2^31 bytes or an environment of more
than 2^31 entries can lead to an access outside a string or outside `environ`.  Such an
access, and a write outside a block, is recorded in `outside`, and nothing is said about
what comes behind it.
-/
import Mathlib.Logic.Function.Basic
import UnixDemos.Library.CInt
import UnixDemos.Library.CString
import UnixDemos.Library.Run

namespace UnixDemos.Pthread.Getenv

open UnixDemos.Library

set_option autoImplicit false

abbrev Addr := Nat

/-- `MAXSTRINGSZ`. -/
def maxStringSz : Nat := 4096

/-- The character `=`. -/
def equals : UInt8 := 61

/-! ## State -/

/-- A call: its argument, the environment, what `malloc` would answer, and the pointer it
returned; `none` is NULL. -/
structure Call (τ : Type) where
  thread : τ
  name : CString
  environ : List CString
  block : Option (Addr × Bytes)
  result : Option Addr

structure System (τ : Type) where
  initDone : Bool
  slot : τ → Option Addr
  heap : Addr → Option Bytes
  exited : τ → Bool
  log : List (Call τ)
  outside : Bool

inductive Event (τ : Type) where
  | call (t : τ) (name : CString) (environ : List CString) (block : Option (Addr × Bytes))
  | exit (t : τ)

/-! ## The call -/

/-- The byte at an `int` index; `none` is a read outside the memory of the string. -/
def charAt (s : CString) (k : Int) : Option UInt8 := if k < 0 then none else s.mem[k.toNat]?

/-- The string from an `int` index on. -/
def stringAt (s : CString) (k : Int) : Option Bytes :=
  if k < 0 then none else some (cstr (s.mem.drop k.toNat))

/-- The two tests on one entry, and the value behind them if they succeed; the outer `none`
is a read outside the entry.  `strncmp` takes `len` as a `size_t`. -/
def matchEntry (name : CString) (len : Int) (entry : CString) : Option (Option Bytes) :=
  match strncmp name.mem entry.mem (toSize len).toNat with
  | none => none
  | some .eq =>
      match charAt entry len with
      | none => none
      | some c => if c = equals then (stringAt entry (wrap32 (len + 1))).map some else some none
  | some _ => some none

/-- The loop over `environ` from the index `i` on: the value behind the first match, if
there is one.  The outer `none` is a read outside an entry or outside `environ`. -/
def findFrom (name : CString) (len : Int) : Int → List CString → Option (Option Bytes)
  | i, [] => if i < 0 then none else some none
  | i, entry :: environ =>
      if i < 0 then none
      else
        match matchEntry name len entry with
        | none => none
        | some (some value) => some (some value)
        | some none => findFrom name len (wrap32 (i + 1)) environ

/-- `len = strlen(name)` and the loop. -/
def find (name : CString) (environ : List CString) : Option (Option Bytes) :=
  findFrom name (wrap32 name.text.length) 0 environ

section Steps

variable {τ : Type} [DecidableEq τ] (s : System τ)

/-- `thread_init`: with a new key every slot is NULL. -/
def threadInit : System τ := { s with slot := fun _ => none }

/-- `pthread_once(&init_done, thread_init)`. -/
def pthreadOnce : System τ :=
  if s.initDone then s else { threadInit s with initDone := true }

/-- The buffer of the thread: the one in its slot, or a new one. -/
def envbuf (t : τ) (block : Option (Addr × Bytes)) : System τ × Option Addr :=
  match s.slot t with
  | some a => (s, some a)
  | none =>
      match block with
      | none => (s, none)
      | some (a, bytes) =>
          ({ s with
              heap := Function.update s.heap a (some bytes)
              slot := Function.update s.slot t (some a) }, some a)

/-- The loop and the copy, with the buffer at `a`. -/
def copyValue (name : CString) (environ : List CString) (a : Addr) :
    Option (System τ × Option Addr) :=
  match find name environ with
  | none => none
  | some none => some (s, none)
  | some (some value) =>
      match s.heap a with
      | none => none
      | some buf =>
          if buf.length < maxStringSz - 1 then none
          else
            let buf := strncpy buf value (maxStringSz - 1)
            some ({ s with heap := Function.update s.heap a (some buf) }, some a)

/-- The call: the state it leaves and the pointer it returns; `none` is an access outside
a block. -/
def getenv_ (t : τ) (name : CString) (environ : List CString) (block : Option (Addr × Bytes)) :
    Option (System τ × Option Addr) :=
  match envbuf (pthreadOnce s) t block with
  | (s, none) => some (s, none)
  | (s, some a) => copyValue s name environ a

/-- What `malloc(MAXSTRINGSZ)` can answer. -/
def mallocAnswers : Option (Addr × Bytes) → Bool
  | none => true
  | some (a, bytes) => s.heap a = none && bytes.length = maxStringSz

/-- The buffer of a thread, as `pthread_getspecific` would give it. -/
def System.buffer (t : τ) : Option Addr := if s.initDone then s.slot t else none

/-- A thread exits; `free` is called on its buffer. -/
def threadExit (t : τ) : System τ :=
  match s.buffer t with
  | none => { s with exited := Function.update s.exited t true }
  | some a =>
      { s with
        exited := Function.update s.exited t true
        slot := Function.update s.slot t none
        heap := Function.update s.heap a none }

def System.step : Event τ → Option (System τ)
  | .call t name environ block =>
      if s.outside = true ∨ s.exited t = true ∨ mallocAnswers s block = false then none
      else
        match getenv_ s t name environ block with
        | none => some { s with outside := true }
        | some (s', result) =>
            some { s' with log := s'.log ++ [⟨t, name, environ, block, result⟩] }
  | .exit t => if s.outside = true ∨ s.exited t = true then none else some (threadExit s t)

/-- No call was made; the slots hold anything. -/
def start (slot : τ → Option Addr) (heap : Addr → Option Bytes) : System τ :=
  ⟨false, slot, heap, fun _ => false, [], false⟩

end Steps

/-! ## Successful calls -/

section Log

variable {τ : Type} [DecidableEq τ]

/-- The call an event makes. -/
def Event.asks : Event τ → Option (τ × CString × List CString × Option (Addr × Bytes))
  | .call t name environ block => some (t, name, environ, block)
  | .exit _ => none

def Call.asked (c : Call τ) : τ × CString × List CString × Option (Addr × Bytes) :=
  (c.thread, c.name, c.environ, c.block)

/-- A call of `t` that returned a pointer, with the value it had found. -/
def Call.success (t : τ) (c : Call τ) : Option (Addr × Bytes) :=
  if c.thread = t then
    match c.result, find c.name c.environ with
    | some a, some (some value) => some (a, value)
    | _, _ => none
  else none

/-- The latest successful call of `t`. -/
def latest (t : τ) (log : List (Call τ)) : Option (Addr × Bytes) :=
  (log.filterMap (Call.success t)).getLast?

theorem latest_snoc (t : τ) (log : List (Call τ)) (c : Call τ) :
    latest t (log ++ [c]) = (c.success t).or (latest t log) := by
  unfold latest
  rw [List.filterMap_append]
  cases found : c.success t <;> simp [found]

theorem mem_of_latest {t : τ} {log : List (Call τ)} {a : Addr} {v : Bytes}
    (last : latest t log = some (a, v)) : ∃ c ∈ log, c.success t = some (a, v) := by
  exact List.mem_filterMap.mp (List.mem_of_getLast? last)

theorem success_eq_some {t : τ} {c : Call τ} {a : Addr} {v : Bytes} :
    c.success t = some (a, v) ↔
      c.thread = t ∧ c.result = some a ∧ find c.name c.environ = some (some v) := by
  unfold Call.success
  split
  · split <;> simp_all
  · simp_all

end Log

/-! ## The loop stays inside the entries -/

section Loop

variable {name : CString} {len : Int}

theorem stringAt_nulFree {s : CString} {k : Int} {value : Bytes}
    (found : stringAt s k = some value) : NulFree value := by
  unfold stringAt at found
  split at found
  · cases found
  · rw [← Option.some.inj found]
    exact nulFree_cstr _

/-- Behind a match there is a `=` at `len`, and the value starts at the next `int`. -/
theorem matchEntry_some {entry : CString} {value : Bytes}
    (found : matchEntry name len entry = some (some value)) :
    charAt entry len = some equals ∧ stringAt entry (wrap32 (len + 1)) = some value := by
  unfold matchEntry at found
  split at found
  · cases found
  · split at found
    · cases found
    · rename_i c byte
      split at found
      · rename_i isEquals
        obtain ⟨v, behind, same⟩ := Option.map_eq_some_iff.mp found
        rw [behind, Option.some.inj same, byte, isEquals]
        exact ⟨rfl, rfl⟩
      · cases found
  · cases found

theorem findFrom_nulFree {environ : List CString} {i : Int} {value : Bytes}
    (found : findFrom name len i environ = some (some value)) : NulFree value := by
  induction environ generalizing i with
  | nil =>
      unfold findFrom at found
      split at found <;> cases found
  | cons entry environ ih =>
      unfold findFrom at found
      split at found
      · cases found
      · split at found
        · cases found
        · rename_i v matched
          rw [← Option.some.inj (Option.some.inj found)]
          exact stringAt_nulFree (matchEntry_some matched).2
        · exact ih found

/-- A value the loop finds is a string. -/
theorem find_nulFree {environ : List CString} {value : Bytes}
    (found : find name environ = some (some value)) : NulFree value :=
  findFrom_nulFree found

theorem len_of_short (short : name.text.length < intMax) :
    wrap32 name.text.length = name.text.length := by
  have top : intMax = 2 ^ 31 - 1 := rfl
  exact wrap32_of_mem (by omega) (by omega)

/-- Where `len` and `len + 1` are the numbers they should be. -/
theorem matchEntry_of_short (short : name.text.length < intMax) (entry : CString) :
    matchEntry name name.text.length entry =
      match strncmp name.mem entry.mem name.text.length with
      | none => none
      | some .eq =>
          match entry.mem[name.text.length]? with
          | none => none
          | some c =>
              if c = equals then some (some (cstr (entry.mem.drop (name.text.length + 1))))
              else some none
      | some _ => some none := by
  have top : intMax = 2 ^ 31 - 1 := rfl
  have behind : wrap32 (name.text.length + 1 : Int) = (name.text.length + 1 : Nat) :=
    wrap32_of_mem (by omega) (by omega)
  have size : (toSize (name.text.length : Int)).toNat = name.text.length := by
    rw [toSize_of_mem (by omega) (by omega), Int.toNat_natCast]
  unfold matchEntry charAt stringAt
  rw [size, behind, if_neg (by omega), if_neg (by omega), Int.toNat_natCast, Int.toNat_natCast,
    Option.map_some]

theorem matchEntry_inside (short : name.text.length < intMax) (entry : CString) :
    matchEntry name name.text.length entry ≠ none := by
  obtain ⟨order, compared, iff⟩ := strncmp_length name.nulFree entry.nulFree
  have compared' : strncmp name.mem entry.mem name.text.length = some order := compared
  rw [matchEntry_of_short short, compared']
  cases order with
  | lt => nofun
  | gt => nofun
  | eq =>
      have shorter := (iff.mp rfl).length_le
      have inside : name.text.length < entry.mem.length := by
        rw [CString.mem, List.length_append]
        exact Nat.lt_succ_of_le shorter
      simp only [List.getElem?_eq_getElem inside]
      split <;> nofun

theorem findFrom_inside (short : name.text.length < intMax) (environ : List CString) {i : Nat}
    (bound : i + environ.length ≤ intMax) :
    findFrom name name.text.length i environ ≠ none := by
  have top : intMax = 2 ^ 31 - 1 := rfl
  induction environ generalizing i with
  | nil =>
      rw [findFrom, if_neg (by omega)]
      nofun
  | cons entry environ ih =>
      rw [List.length_cons] at bound
      have next : wrap32 (i + 1 : Int) = (i + 1 : Nat) := wrap32_of_mem (by omega) (by omega)
      rw [findFrom, if_neg (by omega), next]
      cases matched : matchEntry name name.text.length entry with
      | none => exact absurd matched (matchEntry_inside short entry)
      | some answer =>
          cases answer with
          | some value => nofun
          | none => exact ih (by omega)

/-- The arguments of a call for which the `int`s of the loop are large enough. -/
def Counted (name : CString) (environ : List CString) : Prop :=
  name.text.length < intMax ∧ environ.length ≤ intMax

theorem find_inside {environ : List CString} (counted : Counted name environ) :
    find name environ ≠ none := by
  rw [find, len_of_short counted.1]
  exact findFrom_inside (i := 0) counted.1 environ (by simpa using counted.2)

end Loop

end UnixDemos.Pthread.Getenv
