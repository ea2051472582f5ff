/-
# TermIo.Getpass — getpass_demo.c: a password from the terminal

`getpass` blocks two signals, turns the echo off, reads a line into a static buffer of
`MAX_PASS_LEN + 1` bytes and undoes the first two; `main` prints the string in the buffer
and then overwrites it with zeros.

`input` is what the terminal delivers after the flush of the first `tcsetattr`.  Whether
`char` is signed is up to the machine, so `signed` is a parameter.

* `reached buf seen rest` is where the loop stands when it has read `seen`: the front of
  `seen` is in the buffer, and `ptr` is behind it;
* the loop stops at the first byte that a `char` takes for the end of a line (`typed`),
  and behind the last byte only if `char` is signed;
* the wipe stops at the first NUL of the buffer, whoever put it there.
-/
import UnixDemos.Library.Stdio

namespace UnixDemos.TermIo.Getpass

open UnixDemos.Library

set_option autoImplicit false

/-! ## The program -/

/-- `MAX_PASS_LEN`. -/
def maxPassLen : Nat := 8

/-- The flags of `c_lflag`. -/
inductive Flag where
  | echo
  | echoe
  | echok
  | echonl
  | other (n : Nat)
  deriving DecidableEq, Repr

inductive Sig where
  | int
  | tstp
  | other (n : Nat)
  deriving DecidableEq, Repr

inductive Io where
  | fputs (text : String)
  | putc (c : UInt8)
  | printf (format : String) (arg : Bytes)
  | perror (text : String)
  deriving DecidableEq, Repr

/-- `buf` is the static buffer of `getpass`. -/
structure Process where
  input : Bytes
  buf : Bytes
  lflag : Flag → Bool
  mask : Sig → Bool
  log : List Io

def Process.note (p : Process) (io : Io) : Process := { p with log := p.log ++ [io] }

/-- `false` is a call that fails. -/
structure Answers where
  fopen : Bool
  tcgetattr : Bool

/-- What comes of a call of `getpass`; `outside` is a store outside the buffer. -/
inductive Return where
  | null
  | buf
  | exit (code : Int)
  | outside
  deriving DecidableEq, Repr

/-- The variables of the loop; `ptr` is an index into `buf`. -/
structure Reading where
  rest : Bytes
  buf : Bytes
  ptr : Nat

/-- The loop.  The outer `none` is a loop that is not done after `fuel` rounds, the inner
one a store outside the buffer. -/
def readLoop (signed : Bool) : Nat → Reading → Option (Option Reading)
  | 0, _ => none
  | fuel + 1, r =>
      let c := toChar signed (getc r.rest).1
      let rest := (getc r.rest).2
      if EndsLine c then some (some { r with rest })
      else if r.ptr < maxPassLen then
        match store r.buf r.ptr (ofChar c) with
        | none => some none
        | some buf => readLoop signed fuel { rest, buf, ptr := r.ptr + 1 }
      else readLoop signed fuel { r with rest }

/-- `sigprocmask(SIG_BLOCK, &sig, &osig)`. -/
def block (mask : Sig → Bool) (sig : Sig) : Bool := mask sig || sig = .int || sig = .tstp

/-- `c_lflag &= ~(ECHO | ECHOE | ECHOK | ECHONL)`. -/
def noEcho (lflag : Flag → Bool) (flag : Flag) : Bool :=
  lflag flag && !(flag = .echo || flag = .echoe || flag = .echok || flag = .echonl)

def getpass (signed : Bool) (answers : Answers) (fuel : Nat) (prompt : String) (p : Process) :
    Option (Process × Return) :=
  if answers.fopen = false then some (p, .null)
  else
    let osig := p.mask
    let p := { p with mask := block p.mask }
    if answers.tcgetattr = false then some (p.note (.perror "tcgetattr error"), .exit (-1))
    else
      let ots := p.lflag
      let p := Process.note { p with lflag := noEcho p.lflag } (.fputs prompt)
      match readLoop signed fuel ⟨p.input, p.buf, 0⟩ with
      | none => none
      | some none => some (p, .outside)
      | some (some r) =>
          match store r.buf r.ptr 0 with
          | none => some (p, .outside)
          | some buf =>
              let p := Process.note { p with input := r.rest, buf } (.putc newline)
              some ({ p with lflag := ots, mask := osig }, .buf)

/-- The loop `while (*ptr) *ptr++ = 0`; `none` is a read behind the buffer. -/
def wipe : Bytes → Option Bytes
  | [] => none
  | b :: buf => if b = 0 then some (b :: buf) else (wipe buf).map (0 :: ·)

inductive Exit where
  | status (code : Int)
  | outside
  deriving DecidableEq, Repr

def main (signed : Bool) (answers : Answers) (fuel : Nat) (p : Process) :
    Option (Process × Exit) :=
  match getpass signed answers fuel "Enter password:" p with
  | none => none
  | some (p, .null) => some (p.note (.perror "getpass error"), .status (-1))
  | some (p, .exit code) => some (p, .status code)
  | some (p, .outside) => some (p, .outside)
  | some (p, .buf) =>
      let p := p.note (.printf "password: %s\n" (cstr p.buf))
      match wipe p.buf with
      | none => some (p, .outside)
      | some buf => some ({ p with buf }, .status 0)

/-! ## The loop -/

section Loop

variable {signed : Bool} {buf : Bytes} {fuel : Nat}

/-- The loop has read `seen`. -/
def reached (buf seen rest : Bytes) : Reading :=
  ⟨rest, overwrite buf (seen.take maxPassLen), (seen.take maxPassLen).length⟩

/-- A `char` that does not end the line goes into the buffer, or nowhere. -/
theorem readLoop_more (size : buf.length = maxPassLen + 1) {seen input rest : Bytes} {i : Int}
    (next : getc input = (i, rest)) (more : ¬ EndsLine (toChar signed i)) :
    readLoop signed (fuel + 1) (reached buf seen input) =
      readLoop signed fuel (reached buf (seen ++ [ofChar (toChar signed i)]) rest) := by
  have stored (b : UInt8) : store (overwrite buf (seen.take maxPassLen))
      (seen.take maxPassLen).length b = some (overwrite buf (seen.take maxPassLen ++ [b])) := by
    apply store_overwrite
    rw [List.length_take, size]
    omega
  simp only [readLoop, reached, next, if_neg more, stored]
  by_cases room : seen.length < maxPassLen
  · have all (b : UInt8) : (seen ++ [b]).take maxPassLen = seen ++ [b] := by
      apply List.take_of_length_le
      rw [List.length_append]
      exact room
    rw [List.take_of_length_le (Nat.le_of_lt room), if_pos room, all, List.length_append]
    rfl
  · have full : maxPassLen ≤ seen.length := Nat.le_of_not_lt room
    rw [List.take_append_of_le_length full, List.length_take, Nat.min_eq_left full,
      if_neg (Nat.lt_irrefl _)]

theorem readLoop_stop {seen input rest : Bytes} {i : Int} (next : getc input = (i, rest))
    (stop : EndsLine (toChar signed i)) :
    readLoop signed (fuel + 1) (reached buf seen input) = some (some (reached buf seen rest)) := by
  simp only [readLoop, reached, next, if_pos stop]

/-- The bytes that the loop takes for the line. -/
def typed (signed : Bool) (input : Bytes) : Bytes := input.takeWhile fun b => !lineEnd signed b

theorem typed_cons (signed : Bool) (b : UInt8) (input : Bytes) :
    typed signed (b :: input) = if lineEnd signed b then [] else b :: typed signed input := by
  unfold typed
  cases ended : lineEnd signed b <;> simp [ended]

/-- The loop has a last round. -/
def Ends (signed : Bool) (input : Bytes) : Prop := signed = true ∨ newline ∈ input

/-- With a round for every byte of the line and one more, the loop is done. -/
theorem readLoop_ends (size : buf.length = maxPassLen + 1) (seen : Bytes) {input : Bytes}
    (ends : Ends signed input) (enough : (typed signed input).length < fuel) :
    readLoop signed fuel (reached buf seen input) = some (some
      (reached buf (seen ++ typed signed input)
        (input.drop ((typed signed input).length + 1)))) := by
  obtain ⟨fuel, rfl⟩ : ∃ k, fuel = k + 1 := ⟨fuel - 1, by omega⟩
  induction input generalizing fuel seen with
  | nil =>
      obtain rfl : signed = true := ends.resolve_right List.not_mem_nil
      rw [readLoop_stop (by rfl) endsLine_eof]
      simp [typed]
  | cons b input ih =>
      rw [typed_cons] at enough ⊢
      by_cases stop : lineEnd signed b = true
      · rw [readLoop_stop (by rfl) ((endsLine_byte signed b).mpr stop), if_pos stop]
        simp
      · have other : newline ≠ b := by
          rintro rfl
          simp [lineEnd] at stop
        have later : Ends signed input :=
          ends.imp id fun member => (List.mem_cons.mp member).resolve_left other
        rw [if_neg stop, List.length_cons] at enough
        obtain ⟨fuel, rfl⟩ : ∃ k, fuel = k + 1 := ⟨fuel - 1, by omega⟩
        rw [readLoop_more size (by rfl) fun c => stop ((endsLine_byte signed b).mp c),
          ofChar_toChar, ih (seen ++ [b]) later fuel (by omega), if_neg stop]
        simp

/-- A loop that is done has read such a line, in bytes that end it. -/
theorem readLoop_some (size : buf.length = maxPassLen + 1) {seen input : Bytes}
    {result : Option Reading}
    (done : readLoop signed fuel (reached buf seen input) = some result) :
    Ends signed input ∧ result = some
      (reached buf (seen ++ typed signed input)
        (input.drop ((typed signed input).length + 1))) := by
  induction fuel generalizing seen input with
  | zero => cases done
  | succ fuel ih =>
      cases input with
      | nil =>
          cases signed with
          | true =>
              rw [readLoop_stop (by rfl) endsLine_eof] at done
              cases done
              exact ⟨Or.inl rfl, by simp [typed]⟩
          | false =>
              -- the 255 that EOF becomes is read again and again
              rw [readLoop_more size (by rfl) not_endsLine_eof] at done
              rcases (ih done).1 with signed | member
              · cases signed
              · cases member
      | cons b input =>
          rw [typed_cons]
          by_cases stop : lineEnd signed b = true
          · rw [readLoop_stop (by rfl) ((endsLine_byte signed b).mpr stop)] at done
            cases done
            refine ⟨?_, by simp [stop]⟩
            rcases Bool.or_eq_true _ _ |>.mp stop with isNewline | last
            · exact Or.inr (List.mem_cons.mpr (Or.inl (of_decide_eq_true isNewline).symm))
            · exact Or.inl (Bool.and_eq_true _ _ |>.mp last).1
          · rw [readLoop_more size (by rfl) fun c => stop ((endsLine_byte signed b).mp c),
              ofChar_toChar] at done
            obtain ⟨ends, rfl⟩ := ih done
            exact ⟨ends.imp id (List.mem_cons_of_mem b), by simp [stop]⟩

end Loop

/-! ## One line -/

/-- The bytes before the first newline. -/
def line (input : Bytes) : Bytes := input.takeWhile (· ≠ newline)

def behindLine (input : Bytes) : Bytes := (input.dropWhile (· ≠ newline)).tail

theorem line_append_dropWhile (input : Bytes) :
    line input ++ input.dropWhile (· ≠ newline) = input :=
  List.takeWhile_append_dropWhile

theorem newline_notMem_line (input : Bytes) : newline ∉ line input := by
  intro member
  simpa using List.mem_takeWhile_imp member

theorem drop_line (input : Bytes) : input.drop ((line input).length + 1) = behindLine input := by
  have whole := congrArg (List.drop ((line input).length + 1)) (line_append_dropWhile input)
  rw [← whole, List.drop_length_add_append, List.drop_one, behindLine]

theorem length_behindLine_lt {input : Bytes} (more : input ≠ []) :
    (behindLine input).length < input.length := by
  have := List.length_pos_iff.mpr more
  have := (List.dropWhile_sublist (l := input) (· ≠ newline)).length_le
  rw [behindLine, List.length_tail]
  omega

theorem behindLine_append {front : Bytes} (free : newline ∉ front) (rest : Bytes) :
    behindLine (front ++ rest) = behindLine rest := by
  have all : ∀ b ∈ front, decide (b ≠ newline) = true := by
    intro b member
    have : b ≠ newline := fun same => free (same ▸ member)
    simpa using this
  rw [behindLine, List.dropWhile_append_of_pos all, behindLine]

theorem typed_false (input : Bytes) : typed false input = line input := by
  unfold typed line lineEnd
  simp

theorem typed_true_append {front : Bytes} (free : newline ∉ front) (clean : 255 ∉ front)
    (rest : Bytes) : typed true (front ++ rest) = front ++ typed true rest := by
  apply List.takeWhile_append_of_pos
  intro b member
  have notNewline : b ≠ newline := fun same => free (same ▸ member)
  have notLast : b ≠ 255 := fun same => clean (same ▸ member)
  simp [lineEnd, notNewline, notLast]

/-- A line with a 255 in it, where a signed `char` stops. -/
theorem split_of_mem_line {input : Bytes} (member : 255 ∈ line input) :
    ∃ front rest, input = front ++ 255 :: rest ∧ 255 ∉ front ∧ newline ∉ front ∧
      typed true input = front ∧ ∃ more, line input = front ++ 255 :: more := by
  obtain ⟨front, more, cut, clean⟩ := List.eq_append_cons_of_mem member
  have free : newline ∉ front := by
    intro inFront
    apply newline_notMem_line input
    rw [cut]
    exact List.mem_append_left _ inFront
  have whole := line_append_dropWhile input
  rw [cut, List.append_assoc, List.cons_append] at whole
  refine ⟨front, _, whole.symm, clean, free, ?_, more, cut⟩
  rw [← whole, typed_true_append free clean, typed_cons]
  simp [lineEnd]

theorem typed_of_notMem {input : Bytes} (clean : 255 ∉ line input) :
    typed true input = line input := by
  induction input with
  | nil => rfl
  | cons b input ih =>
      unfold line at clean ⊢
      rw [typed_cons]
      by_cases isNewline : b = newline
      · simp [isNewline, lineEnd]
      · rw [List.takeWhile_cons_of_pos (by simpa using isNewline)] at clean ⊢
        rw [List.mem_cons, not_or] at clean
        rw [ih clean.2, line, if_neg (by simp [lineEnd, isNewline, Ne.symm clean.1])]

/-- The whole line is read, and what fits of it is left in the buffer, with a NUL. -/
def ReadsLine (signed : Bool) (buf input : Bytes) : Prop :=
  ∃ fuel r buf', readLoop signed fuel ⟨input, buf, 0⟩ = some (some r) ∧
    r.rest = behindLine input ∧ store r.buf r.ptr 0 = some buf' ∧
    (line input).take maxPassLen ++ [0] <+: buf'

theorem store_reached {buf : Bytes} (size : buf.length = maxPassLen + 1) (seen rest : Bytes) :
    store (reached buf seen rest).buf (reached buf seen rest).ptr 0 =
      some (overwrite buf (seen.take maxPassLen ++ [0])) := by
  apply store_overwrite
  rw [List.length_take, size]
  omega

theorem readsLine_iff_typed {signed : Bool} {buf input : Bytes}
    (size : buf.length = maxPassLen + 1) :
    ReadsLine signed buf input ↔ Ends signed input ∧
      input.drop ((typed signed input).length + 1) = behindLine input ∧
      (line input).take maxPassLen ++ [0] <+:
        overwrite buf ((typed signed input).take maxPassLen ++ [0]) := by
  constructor
  · rintro ⟨fuel, r, buf', done, rest, stored, holds⟩
    have start : (⟨input, buf, 0⟩ : Reading) = reached buf [] input := rfl
    rw [start] at done
    obtain ⟨ends, result⟩ := readLoop_some size done
    cases result
    rw [store_reached size] at stored
    cases stored
    exact ⟨ends, rest, holds⟩
  · rintro ⟨ends, rest, holds⟩
    exact ⟨_, _, _, readLoop_ends size [] ends (Nat.lt_succ_self _), rest, store_reached size ..,
      holds⟩

theorem reads_of_typed_eq_line {signed : Bool} {input : Bytes} (buf : Bytes)
    (same : typed signed input = line input) :
    input.drop ((typed signed input).length + 1) = behindLine input ∧
      (line input).take maxPassLen ++ [0] <+:
        overwrite buf ((typed signed input).take maxPassLen ++ [0]) := by
  rw [same]
  exact ⟨drop_line input, List.prefix_append ..⟩

/-- Nothing may be left behind the byte where a signed `char` stops. -/
theorem stopped_rest_iff {front : Bytes} (free : newline ∉ front) (rest : Bytes) :
    (front ++ 255 :: rest).drop (front.length + 1) = behindLine (front ++ 255 :: rest) ↔
      rest = [] := by
  have clean : newline ∉ front ++ [255] := by
    rw [List.mem_append, not_or]
    exact ⟨free, by decide⟩
  have behind : behindLine (front ++ 255 :: rest) = behindLine rest := by
    rw [← behindLine_append clean rest, List.append_assoc, List.singleton_append]
  rw [behind, List.drop_length_add_append, List.drop_one, List.tail_cons]
  constructor
  · intro same
    by_contra more
    have shorter := length_behindLine_lt more
    rw [← same] at shorter
    exact Nat.lt_irrefl _ shorter
  · rintro rfl
    rfl

/-- The byte itself must be behind what the buffer holds. -/
theorem stopped_holds_iff (buf front more : Bytes) :
    (front ++ 255 :: more).take maxPassLen ++ [0] <+:
      overwrite buf (front.take maxPassLen ++ [0]) ↔ maxPassLen ≤ front.length := by
  constructor
  · intro holds
    by_contra short
    obtain ⟨k, room⟩ : ∃ k, maxPassLen = front.length + (k + 1) :=
      ⟨maxPassLen - front.length - 1, by omega⟩
    rw [List.take_of_length_le (i := maxPassLen) (l := front) (by omega), room,
      List.take_length_add_append, List.take_succ_cons, overwrite, List.append_assoc,
      List.append_assoc, List.prefix_append_right_inj, List.cons_append, List.cons_append,
      List.cons_prefix_cons] at holds
    exact absurd holds.1 (by decide)
  · intro long
    rw [List.take_append_of_le_length long]
    exact List.prefix_append ..

/-- **A whole line.**  The loop ends, reads what is there up to the first newline and
leaves the front of the line with a NUL, exactly in these cases.  An unsigned `char`
needs a newline to end at.  A signed one takes a byte 255 for the end: there is none in
the line, or it is the last byte of all, with more before it than the buffer holds. -/
theorem reads_line_iff (signed : Bool) (input : Bytes) {buf : Bytes}
    (size : buf.length = maxPassLen + 1) :
    ReadsLine signed buf input ↔
      signed = false ∧ newline ∈ input ∨
      signed = true ∧ (255 ∉ line input ∨ ∃ front, input = front ++ [255] ∧ 255 ∉ front ∧
        newline ∉ front ∧ maxPassLen ≤ front.length) := by
  rw [readsLine_iff_typed size]
  cases signed with
  | false =>
      simp only [Ends, Bool.false_eq_true, false_or, true_and, false_and, or_false]
      have whole := reads_of_typed_eq_line buf (typed_false input)
      exact ⟨fun reads => reads.1, fun ends => ⟨ends, whole⟩⟩
  | true =>
      simp only [Ends, true_or, true_and, Bool.true_eq_false, false_and, false_or]
      by_cases clean : 255 ∉ line input
      · exact ⟨fun _ => Or.inl clean, fun _ => reads_of_typed_eq_line buf (typed_of_notMem clean)⟩
      · rw [or_iff_right clean]
        obtain ⟨front, rest, rfl, clean', free, same, more, cut⟩ :=
          split_of_mem_line (not_not.mp clean)
        rw [same, cut, stopped_rest_iff free, stopped_holds_iff]
        constructor
        · rintro ⟨rfl, long⟩
          exact ⟨front, rfl, clean', free, long⟩
        · rintro ⟨front', whole, clean'', -, long⟩
          obtain ⟨rfl, rfl⟩ := append_stop_inj clean' clean'' whole
          exact ⟨rfl, long⟩

/-- A signed `char` stops in the middle of a line, an unsigned one never. -/
theorem byte_255_ends_line :
    ¬ ReadsLine true (zeros (maxPassLen + 1)) [97, 255, 98, newline] ∧
      ¬ ReadsLine false (zeros (maxPassLen + 1)) [97] := by
  rw [readsLine_iff_typed rfl, readsLine_iff_typed rfl]
  constructor
  · rintro ⟨-, rest, -⟩
    exact absurd rest (by decide)
  · rintro ⟨ends, -⟩
    exact absurd ends (by simp [Ends, newline])

/-- The password `secret` is read whole on either machine. -/
theorem reads_line_iff_secret :
    ReadsLine true (zeros (maxPassLen + 1)) [115, 101, 99, 114, 101, 116, newline] ∧
      ReadsLine false (zeros (maxPassLen + 1)) [115, 101, 99, 114, 101, 116, newline] :=
  ⟨(reads_line_iff true _ rfl).mpr (Or.inr ⟨rfl, Or.inl (by decide)⟩),
    (reads_line_iff false _ rfl).mpr (Or.inl ⟨rfl, by decide⟩)⟩

end UnixDemos.TermIo.Getpass
