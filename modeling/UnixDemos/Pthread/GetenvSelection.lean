/-
# Pthread.GetenvSelection — which entry getenv_ copies from

`getenv_` compares as many bytes of an entry as the name has and then looks for a `=`
at that place.  An entry that starts with the name has a byte there, at least its NUL,
so the look stays inside.  If the name itself has no `=`, the two tests together say
that the text of the entry before its first `=` is the name (`starts_iff_key`), and the
loop is the search for the first such entry (`find_eq`), as far as an `int` can count.

The length of the name is an `int` as well, and `len + 1` has to be one.  A longer name is
not found in the environment that has it and nothing else (`find_own`).
-/
import Mathlib.Algebra.Ring.Nat
import UnixDemos.Pthread.GetenvIsolation

namespace UnixDemos.Pthread.Getenv

open UnixDemos.Library

set_option autoImplicit false

/-- The text before the first `=`; an entry without one has no key. -/
def key (entry : CString) : Option Bytes :=
  if equals ∈ entry.text then some (entry.text.takeWhile (· ≠ equals)) else none

/-- The text behind the first `=`. -/
def value (entry : CString) : Bytes := (entry.text.dropWhile (· ≠ equals)).drop 1

section Entry

variable {name : Bytes} {entry : CString} {rest : Bytes}

theorem scan_key (plain : equals ∉ name) (rest : Bytes) :
    (name ++ equals :: rest).takeWhile (· ≠ equals) = name ∧
      (name ++ equals :: rest).dropWhile (· ≠ equals) = equals :: rest := by
  have others : ∀ b ∈ name, decide (b ≠ equals) = true := by
    intro b member
    exact decide_eq_true fun same => plain (same ▸ member)
  rw [List.takeWhile_append_of_pos others, List.dropWhile_append_of_pos others]
  simp

/-- An entry has the key `name` exactly if it is `name`, a `=` and anything. -/
theorem starts_iff_key (plain : equals ∉ name) :
    key entry = some name ↔ ∃ rest, entry.text = name ++ equals :: rest := by
  unfold key
  constructor
  · intro same
    split at same
    · rename_i member
      obtain ⟨front, rest, shape, notIn⟩ := List.eq_append_cons_of_mem member
      rw [shape, (scan_key notIn rest).1] at same
      cases same
      exact ⟨rest, shape⟩
    · cases same
  · rintro ⟨rest, shape⟩
    rw [shape, if_pos (by simp), (scan_key plain rest).1]

theorem value_eq (plain : equals ∉ name) (shape : entry.text = name ++ equals :: rest) :
    value entry = rest := by
  rw [value, shape, (scan_key plain rest).2]
  rfl

end Entry

/-! ## The loop -/

section Loop

variable {name : CString} (short : name.text.length < intMax) (plain : equals ∉ name.text)

include short plain

/-- The test on one entry: it stays inside the entry and tells whether the entry has the
key. -/
theorem matchEntry_eq (entry : CString) :
    matchEntry name name.text.length entry =
      some (if key entry = some name.text then some (value entry) else none) := by
  obtain ⟨order, compared, iff⟩ := strncmp_length name.nulFree entry.nulFree
  have compared' : strncmp name.mem entry.mem name.text.length = some order := compared
  have differs : ¬ name.text <+: entry.text → key entry ≠ some name.text := by
    intro other same
    obtain ⟨rest, shape⟩ := (starts_iff_key plain).mp same
    exact other (shape ▸ List.prefix_append _ _)
  rw [matchEntry_of_short short, compared']
  cases order with
  | lt => rw [if_neg (differs fun starts => by cases iff.mpr starts)]
  | gt => rw [if_neg (differs fun starts => by cases iff.mpr starts)]
  | eq =>
      obtain ⟨rest, shape⟩ := iff.mp rfl
      have memory : entry.mem = name.text ++ (rest ++ [0]) := by
        rw [CString.mem, ← shape, List.append_assoc]
      have free : NulFree rest := (nulFree_append.mp (shape ▸ entry.nulFree)).2
      cases rest with
      | nil =>
          -- the byte at `len` is the NUL of the entry
          have noKey : key entry ≠ some name.text := by
            intro same
            obtain ⟨rest, shape'⟩ := (starts_iff_key plain).mp same
            rw [← shape] at shape'
            simpa using congrArg List.length shape'
          have byte : entry.mem[name.text.length]? = some 0 := by simp [memory]
          rw [byte, if_neg noKey]
          exact if_neg (by decide)
      | cons c rest =>
          have byte : entry.mem[name.text.length]? = some c := by simp [memory]
          simp only [byte]
          by_cases isEquals : c = equals
          · subst isEquals
            have behind : cstr (entry.mem.drop (name.text.length + 1)) = rest := by
              have dropped : entry.mem.drop (name.text.length + 1) = rest ++ 0 :: [] := by
                rw [memory, List.drop_append]
                simp
              rw [dropped, cstr_append_nul (nulFree_cons.mp free).2]
            rw [if_pos rfl, if_pos ((starts_iff_key plain).mpr ⟨rest, shape.symm⟩), behind,
              value_eq plain shape.symm]
          · have noKey : key entry ≠ some name.text := by
              intro same
              obtain ⟨rest', shape'⟩ := (starts_iff_key plain).mp same
              rw [← shape, List.append_cancel_left_eq] at shape'
              exact isEquals (List.cons.inj shape').1
            rw [if_neg isEquals, if_neg noKey]

omit short plain in
/-- From the index `i` on the loop gets to the NULL behind the last entry, or to an entry
with the key, at an index that is an `int`. -/
def Reaches (name : CString) (i : Nat) (environ : List CString) : Prop :=
  i + environ.length ≤ intMax ∨
    ∃ k entry, environ[k]? = some entry ∧ key entry = some name.text ∧ (i + k : Nat) ≤ intMax

omit short plain in
theorem Reaches.isInt {i : Nat} {environ : List CString} (reaches : Reaches name i environ) :
    i ≤ intMax := by
  rcases reaches with upToEnd | ⟨k, -, -, -, upTo⟩ <;> omega

omit short plain in
theorem reaches_cons {i : Nat} {entry : CString} {environ : List CString}
    (other : key entry ≠ some name.text) :
    Reaches name i (entry :: environ) ↔ Reaches name (i + 1) environ := by
  constructor
  · rintro (upToEnd | ⟨k, e, here, hasKey, upTo⟩)
    · rw [List.length_cons] at upToEnd
      exact Or.inl (by omega)
    · cases k with
      | zero =>
          cases here
          exact absurd hasKey other
      | succ k => exact Or.inr ⟨k, e, here, hasKey, by omega⟩
  · rintro (upToEnd | ⟨k, e, here, hasKey, upTo⟩)
    · refine Or.inl ?_
      rw [List.length_cons]
      omega
    · exact Or.inr ⟨k + 1, e, here, hasKey, by omega⟩

/-- The loop finds the value of the first entry with the key. -/
theorem findFrom_of_reaches {environ : List CString} {i : Nat}
    (reaches : Reaches name i environ) :
    findFrom name name.text.length i environ =
      some ((environ.find? fun e => key e = some name.text).map value) := by
  have top : intMax = 2 ^ 31 - 1 := rfl
  induction environ generalizing i with
  | nil =>
      rw [findFrom, if_neg (by omega)]
      rfl
  | cons entry environ ih =>
      rw [findFrom, if_neg (by omega), matchEntry_eq short plain]
      by_cases here : key entry = some name.text
      · simp [here]
      · have later := (reaches_cons here).mp reaches
        have next : wrap32 (i + 1 : Int) = (i + 1 : Nat) := by
          have isInt := later.isInt
          exact wrap32_of_mem (by omega) (by omega)
        rw [if_neg here, next, List.find?_cons_of_neg (by simpa using here)]
        exact ih later

/-- Otherwise the index overflows. -/
theorem findFrom_of_not_reaches {environ : List CString} {i : Nat} (isInt : i ≤ intMax)
    (overflows : ¬ Reaches name i environ) :
    findFrom name name.text.length i environ = none := by
  have top : intMax = 2 ^ 31 - 1 := rfl
  induction environ generalizing i with
  | nil => exact absurd (Or.inl (by simpa using isInt)) overflows
  | cons entry environ ih =>
      have here : key entry ≠ some name.text := by
        intro hasKey
        exact overflows (Or.inr ⟨0, entry, rfl, hasKey, isInt⟩)
      rw [findFrom, if_neg (by omega), matchEntry_eq short plain, if_neg here]
      by_cases more : (i + 1 : Nat) ≤ intMax
      · have next : wrap32 (i + 1 : Int) = (i + 1 : Nat) := wrap32_of_mem (by omega) (by omega)
        dsimp only
        rw [next]
        exact ih more fun reaches => overflows ((reaches_cons here).mpr reaches)
      · -- the index was `INT_MAX`
        have next : wrap32 (i + 1 : Int) < 0 := by
          unfold wrap32
          omega
        cases environ <;> exact if_pos next

theorem find_eq {environ : List CString} (reaches : Reaches name 0 environ) :
    find name environ = some ((environ.find? fun e => key e = some name.text).map value) := by
  rw [find, len_of_short short]
  exact findFrom_of_reaches short plain reaches

end Loop

/-! ## Names that are too long -/

/-- The name, a `=` and nothing. -/
def own (name : CString) : CString where
  text := name.text ++ [equals]
  nulFree := nulFree_append.mpr ⟨name.nulFree, by decide⟩

theorem key_own {name : CString} (plain : equals ∉ name.text) :
    key (own name) = some name.text :=
  (starts_iff_key plain).mpr ⟨[], rfl⟩

theorem equals_own {name : CString} (plain : equals ∉ name.text) {k : Nat}
    (here : (own name).mem[k]? = some equals) : k = name.text.length := by
  have memory : (own name).mem = name.text ++ [equals, 0] := by simp [own, CString.mem]
  rw [memory] at here
  rcases Nat.lt_or_ge k name.text.length with inName | behind
  · rw [List.getElem?_append_left inName] at here
    exact absurd (List.mem_of_getElem? here) plain
  · rw [List.getElem?_append_right behind] at here
    obtain ⟨d, rfl⟩ := Nat.exists_eq_add_of_le behind
    rw [Nat.add_sub_cancel_left] at here
    rcases d with _ | _ | d
    · rfl
    · exact absurd here (by decide)
    · cases here

/-- The only `=` is behind the name, and `len` is not the place or `len + 1` is negative. -/
theorem find_own {name : CString} (plain : equals ∉ name.text) (long : intMax ≤ name.text.length)
    (v : Bytes) : find name [own name] ≠ some (some v) := by
  have top : intMax = 2 ^ 31 - 1 := rfl
  intro found
  have matched : matchEntry name (wrap32 name.text.length) (own name) = some (some v) := by
    unfold find findFrom at found
    rw [if_neg (by decide)] at found
    split at found
    · cases found
    · rename_i w matched
      rw [matched, found]
    · unfold findFrom at found
      split at found <;> cases found
  obtain ⟨byte, behind⟩ := matchEntry_some matched
  unfold charAt at byte
  unfold stringAt at behind
  split at byte
  · cases byte
  · rename_i nonneg
    split at behind
    · cases behind
    · rename_i nonneg'
      have place := equals_own plain byte
      unfold wrap32 at nonneg nonneg' place
      omega

/-! ## The call -/

/-- The call reads no byte outside an entry.  It returns NULL exactly if no entry has the
name before its first `=`, and otherwise copies from the first that has. -/
def Selects {τ : Type} [DecidableEq τ] (s : System τ) (t : τ) (name : CString)
    (environ : List CString) (block : Addr × Bytes) : Prop :=
  find name environ ≠ none ∧
  ∃ s' result, getenv_ s t name environ (some block) = some (s', result) ∧
    (result = none ↔ ∀ entry ∈ environ, key entry ≠ some name.text) ∧
    ∀ a, result = some a →
      ∃ entry, environ.find? (fun e => key e = some name.text) = some entry ∧
        ∃ old, s'.heap a = some (strncpy old (value entry) (maxStringSz - 1))

section Call

variable {τ : Type} [DecidableEq τ] {s : System τ} {t : τ} {name : CString}
  {environ : List CString} {block : Addr × Bytes} (good : Good s) (runs : s.exited t = false)
  (answers : mallocAnswers s (some block) = true) (plain : equals ∉ name.text)

include good runs answers plain

theorem Good.selects (short : name.text.length < intMax) (reaches : Reaches name 0 environ) :
    Selects s t name environ block := by
  have found := find_eq short plain reaches
  have inside : find name environ ≠ none := by simp [found]
  obtain ⟨s', result, called⟩ := good.getenv_some runs answers inside
  obtain ⟨good', same⟩ := good.getenv runs answers called
  have answered := good'.answered ⟨t, name, environ, some block, result⟩ (by simp) (by simp)
  dsimp only at answered
  refine ⟨inside, s', result, called, ?_, ?_⟩
  · rw [answered, found, Option.some.injEq, Option.map_eq_none_iff, List.find?_eq_none]
    simp
  · rintro a rfl
    cases first : environ.find? fun e => key e = some name.text with
    | none => simp [found, first] at answered
    | some entry =>
        rw [first, Option.map_some] at found
        have success : Call.success t ⟨t, name, environ, some block, some a⟩ =
            some (a, value entry) := success_eq_some.mpr ⟨rfl, rfl, found⟩
        refine ⟨entry, rfl, (good'.sound t).holds a (value entry) ?_ (same.exited ▸ runs)⟩
        rw [latest_snoc, success, Option.some_or]

/-- A name that is too long is not found in its own entry. -/
theorem Good.not_selects_own (long : intMax ≤ name.text.length) :
    ¬ Selects s t name [own name] block := by
  rintro ⟨inside, s', result, called, null, -⟩
  obtain ⟨good', -⟩ := good.getenv runs answers called
  have answered := good'.answered ⟨t, name, [own name], some block, result⟩ (by simp) (by simp)
  dsimp only at answered
  obtain ⟨answer, found⟩ := Option.ne_none_iff_exists'.mp inside
  cases answer with
  | some v => exact find_own plain long v found
  | none => exact null.mp (answered.mpr found) _ List.mem_cons_self (key_own plain)

end Call

/-- **The right variable.**  In every state the threads can reach, a call of a thread that
runs, with a block from `malloc` at hand, selects the right entry of every environment the
`int i` can go through, exactly if the name and the `=` behind it can be counted by an `int`.
For such a name the condition on the environment is exact as well. -/
theorem getenv_selects_iff {τ : Type} [DecidableEq τ] (slot : τ → Option Addr)
    (heap : Addr → Option Bytes) {events : List (Event τ)} {s : System τ}
    (ran : run System.step (start slot heap) events = some s) {t : τ} (runs : s.exited t = false)
    {name : CString} (plain : equals ∉ name.text)
    {block : Addr × Bytes} (answers : mallocAnswers s (some block) = true) :
    ((∀ environ, Reaches name 0 environ → Selects s t name environ block) ↔
      name.text.length < intMax) ∧
    (name.text.length < intMax → ∀ environ,
      Selects s t name environ block ↔ Reaches name 0 environ) := by
  have good := ((good_start slot heap).run ran).1
  refine ⟨⟨fun all => ?_, fun short environ reaches => ?_⟩, fun short environ => ⟨?_, ?_⟩⟩
  · by_contra long
    have one : Reaches name 0 [own name] := by
      refine Or.inl ?_
      rw [List.length_singleton]
      decide
    exact good.not_selects_own runs answers plain (by omega) (all _ one)
  · exact good.selects runs answers plain short reaches
  · rintro ⟨inside, -⟩
    by_contra overflows
    rw [find, len_of_short short] at inside
    exact inside (findFrom_of_not_reaches (i := 0) short plain (by decide) overflows)
  · exact good.selects runs answers plain short

/-- `NA`, `NAMES=x`, `NAME`, `NAME=ann` and `NAME=bob`. -/
def mixedEnviron : List CString :=
  [⟨[78, 65], by decide⟩, ⟨[78, 65, 77, 69, 83, 61, 120], by decide⟩,
    nameVar, ⟨[78, 65, 77, 69, 61, 97, 110, 110], by decide⟩,
    ⟨[78, 65, 77, 69, 61, 98, 111, 98], by decide⟩]

/-- Of these `NAME` is found in the fourth. -/
theorem getenv_selects_iff_fourth :
    ∃ s' a, getenv_ (start (fun _ : Bool => none) fun _ => none) true nameVar mixedEnviron
        (some (1, zeros maxStringSz)) = some (s', some a) ∧
      ∃ old, s'.heap a = some (strncpy old [97, 110, 110] (maxStringSz - 1)) := by
  obtain ⟨-, selects⟩ :=
    @getenv_selects_iff Bool _ (fun _ => none) (fun _ => none) [] _ (run_nil _ _) true rfl nameVar
      (by decide) (1, zeros maxStringSz) (by decide +kernel)
  obtain ⟨-, s', result, called, null, copied⟩ :=
    (selects (by decide) mixedEnviron).mpr (Or.inl (by decide))
  have fourth : (mixedEnviron.find? fun e => key e = some nameVar.text).map value =
      some [97, 110, 110] := by decide
  cases result with
  | none => exact absurd (null.mp rfl) (by decide)
  | some a =>
      obtain ⟨entry, first, written⟩ := copied a rfl
      rw [first] at fourth
      rw [Option.some.inj fourth] at written
      exact ⟨s', a, called, written⟩

/-- 2^32 times the letter A. -/
def hugeName : CString where
  text := List.replicate (2 ^ 32) 65
  nulFree := by
    intro member
    exact absurd (List.mem_replicate.mp member).2 (by decide)

theorem plain_hugeName : equals ∉ hugeName.text := by
  intro member
  exact absurd (List.mem_replicate.mp member).2 (by decide)

/-- `=x`. -/
def noName : CString := ⟨[61, 120], by decide⟩

/-- For a name of 2^32 bytes `len` is 0, and the entry `=x` is taken for its variable. -/
theorem huge_name_found :
    equals ∉ hugeName.text ∧ hugeName.text.length = 2 ^ 32 ∧
    key noName ≠ some hugeName.text ∧
    find hugeName [noName] = some (some [120]) ∧
    ¬ Selects (start (fun _ : Bool => none) fun _ => none) true hugeName [noName]
      (1, zeros maxStringSz) := by
  have size : hugeName.text.length = 2 ^ 32 := List.length_replicate
  have other : key noName ≠ some hugeName.text := by
    intro same
    have short : (key noName).map List.length = some 0 := by decide
    rw [same, Option.map_some, size] at short
    exact absurd short (by decide)
  have found : find hugeName [noName] = some (some [120]) := by
    have len : wrap32 ((2 ^ 32 : Nat) : Int) = 0 := by decide
    rw [find, size, len]
    rfl
  refine ⟨plain_hugeName, size, other, found, ?_⟩
  rintro ⟨-, s', result, called, null, -⟩
  obtain ⟨good, -⟩ := (good_start _ _).getenv rfl (by decide +kernel) called
  have answered := good.answered ⟨true, hugeName, [noName], some (1, zeros maxStringSz), result⟩
    (by simp) (by simp)
  dsimp only at answered
  have isNull : result = none := null.mpr (by simpa using other)
  rw [found] at answered
  cases answered.mp isNull

end UnixDemos.Pthread.Getenv
