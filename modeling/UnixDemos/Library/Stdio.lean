/-
# Library.Stdio — `fgets` and `getc`

`fgets(buf, n, stream)` stores bytes up to and including a newline, but at most
`n - 1` of them, and returns NULL at the end of the stream.  `fgetsChunks` is what
successive calls store; together the chunks are the stream, each of them a
nonempty piece of at most `n - 1` bytes.

`getc` gives the next byte as an `int`, or `EOF`.  Stored in a `char` the two are no
longer told apart: a signed `char` takes the byte 255 for `EOF` (`endsLine_byte`), and an
unsigned one never is `EOF` (`not_endsLine_eof`).
-/
import UnixDemos.Library.CString
import UnixDemos.Library.Stream

namespace UnixDemos.Library

set_option autoImplicit false

/-- The newline character. -/
def newline : UInt8 := 10

/-- Up to `room` bytes of the stream, the first newline being the last. -/
def takeLine : Nat → Bytes → Bytes × Bytes
  | 0, stream => ([], stream)
  | _ + 1, [] => ([], [])
  | room + 1, c :: stream =>
      if c = newline then ([c], stream)
      else (c :: (takeLine room stream).1, (takeLine room stream).2)

/-- What `fgets` stores before its NUL, and what it leaves; `none` is NULL. -/
def fgets (n : Nat) (stream : Bytes) : Option (Bytes × Bytes) :=
  if stream = [] then none else some (takeLine (n - 1) stream)

def fgetsChunks (n : Nat) (stream : Bytes) : List Bytes := pieces List.length (fgets n) stream

theorem takeLine_append (room : Nat) (stream : Bytes) :
    (takeLine room stream).1 ++ (takeLine room stream).2 = stream := by
  induction room generalizing stream with
  | zero => rfl
  | succ room ih =>
      cases stream with
      | nil => rfl
      | cons c stream =>
          unfold takeLine
          split
          · rfl
          · rw [List.cons_append, ih]

theorem length_takeLine_le (room : Nat) (stream : Bytes) :
    (takeLine room stream).1.length ≤ room := by
  induction room generalizing stream with
  | zero => exact Nat.le_refl _
  | succ room ih =>
      cases stream with
      | nil => exact Nat.zero_le _
      | cons c stream =>
          unfold takeLine
          split
          · exact Nat.succ_le_succ (Nat.zero_le _)
          · exact Nat.succ_le_succ (ih stream)

theorem takeLine_ne_nil {room : Nat} {stream : Bytes} (hasRoom : 0 < room) (more : stream ≠ []) :
    (takeLine room stream).1 ≠ [] := by
  cases room with
  | zero => exact absurd hasRoom (Nat.lt_irrefl _)
  | succ room =>
      cases stream with
      | nil => exact absurd rfl more
      | cons c stream =>
          unfold takeLine
          split <;> exact List.cons_ne_nil _ _

section Chunks

variable {n : Nat} {stream chunk rest : Bytes}

theorem fgets_eq_none (ended : fgets n stream = none) : stream = [] := by
  by_contra more
  rw [fgets, if_neg more] at ended
  cases ended

/-- What a call that does not return NULL does. -/
theorem fgets_spec (hasRoom : 2 ≤ n) (stored : fgets n stream = some (chunk, rest)) :
    stream = chunk ++ rest ∧ chunk ≠ [] ∧ chunk.length < n := by
  unfold fgets at stored
  split at stored
  · cases stored
  · rename_i more
    have parts := Option.some.inj stored
    have whole := takeLine_append (n - 1) stream
    have short := length_takeLine_le (n - 1) stream
    have nonempty := takeLine_ne_nil (show 0 < n - 1 by omega) more
    rw [parts] at whole short nonempty
    exact ⟨whole.symm, nonempty, by simp only at short; omega⟩

theorem fgets_smaller (hasRoom : 2 ≤ n) (stream chunk rest : Bytes)
    (stored : fgets n stream = some (chunk, rest)) : rest.length < stream.length := by
  obtain ⟨whole, nonempty, -⟩ := fgets_spec hasRoom stored
  have := List.length_pos_iff.mpr nonempty
  rw [whole, List.length_append]
  omega

theorem fgetsChunks_cons (hasRoom : 2 ≤ n) (stored : fgets n stream = some (chunk, rest)) :
    fgetsChunks n stream = chunk :: fgetsChunks n rest :=
  pieces_cons (fgets_smaller hasRoom) stored

theorem fgetsChunks_nil (n : Nat) : fgetsChunks n [] = [] := pieces_nil rfl

/-- The chunks of a stream: nothing is lost, and every chunk fits the buffer. -/
theorem fgetsChunks_spec (hasRoom : 2 ≤ n) (stream : Bytes) :
    (fgetsChunks n stream).flatten = stream ∧
      ∀ chunk ∈ fgetsChunks n stream, chunk ≠ [] ∧ chunk.length < n := by
  induction left : stream.length using Nat.strong_induction_on generalizing stream with
  | _ left ih =>
      cases call : fgets n stream with
      | none =>
          have empty := fgets_eq_none call
          subst empty
          rw [fgetsChunks_nil]
          exact ⟨rfl, fun chunk member => absurd member List.not_mem_nil⟩
      | some stored =>
          obtain ⟨chunk, rest⟩ := stored
          obtain ⟨whole, nonempty, short⟩ := fgets_spec hasRoom call
          obtain ⟨flat, each⟩ := ih rest.length (left ▸ fgets_smaller hasRoom _ _ _ call) rest rfl
          rw [fgetsChunks_cons hasRoom call, List.flatten_cons, flat]
          refine ⟨whole.symm, fun c member => ?_⟩
          rcases List.mem_cons.mp member with rfl | later
          · exact ⟨nonempty, short⟩
          · exact each c later

theorem takeLine_line {room : Nat} {body : Bytes} (oneLine : newline ∉ body)
    (fits : body.length < room) :
    takeLine room (body ++ [newline] ++ rest) = (body ++ [newline], rest) := by
  induction body generalizing room with
  | nil =>
      cases room with
      | zero => cases fits
      | succ room => simp [takeLine]
  | cons c body ih =>
      cases room with
      | zero => cases fits
      | succ room =>
          obtain ⟨first, later⟩ := List.ne_and_not_mem_of_not_mem_cons oneLine
          have shorter := ih later (Nat.lt_of_succ_lt_succ fits)
          simp only [List.cons_append, takeLine, if_neg (Ne.symm first), shorter]

/-- A stream of lines that fit is cut into its lines. -/
theorem fgetsChunks_lines (hasRoom : 2 ≤ n) {lines : List Bytes}
    (ends : ∀ line ∈ lines, Terminated newline line ∧ line.length < n) :
    fgetsChunks n lines.flatten = lines := by
  induction lines with
  | nil => exact fgetsChunks_nil n
  | cons line lines ih =>
      obtain ⟨⟨⟨body, whole, oneLine⟩, short⟩, later⟩ := List.forall_mem_cons.mp ends
      have fits : body.length < n - 1 := by
        rw [whole, List.length_append, List.length_singleton] at short
        omega
      have first : fgets n (line ++ lines.flatten) = some (line, lines.flatten) := by
        rw [whole, fgets, if_neg (by simp), takeLine_line oneLine fits]
      rw [List.flatten_cons, fgetsChunks_cons hasRoom first, ih later]

end Chunks

/-! ## `getc` -/

/-- `EOF`. -/
def eof : Int := -1

def getc : Bytes → Int × Bytes
  | [] => (eof, [])
  | b :: stream => (b.toNat, stream)

/-- An `int` stored in a `char`. -/
def toChar (signed : Bool) (i : Int) : Int := if signed then (i + 128) % 256 - 128 else i % 256

/-- The byte that a `char` is. -/
def ofChar (c : Int) : UInt8 := UInt8.ofNat (c % 256).toNat

/-- The `char` compares equal to `EOF` or is the newline. -/
def EndsLine (c : Int) : Prop := c = eof ∨ c = newline.toNat

instance (c : Int) : Decidable (EndsLine c) := inferInstanceAs (Decidable (_ ∨ _))

/-- A byte at which a loop on a `char` takes the line to end. -/
def lineEnd (signed : Bool) (b : UInt8) : Bool := b = newline || signed && b = 255

theorem ofChar_toChar (signed : Bool) (b : UInt8) : ofChar (toChar signed b.toNat) = b := by
  have bound := b.toNat_lt
  have back : toChar signed b.toNat % 256 = b.toNat := by
    unfold toChar
    split <;> omega
  rw [ofChar, back, Int.toNat_natCast, UInt8.ofNat_toNat]

theorem endsLine_byte (signed : Bool) (b : UInt8) :
    EndsLine (toChar signed b.toNat) ↔ lineEnd signed b = true := by
  have bound := b.toNat_lt
  have isNewline : b = newline ↔ b.toNat = 10 := UInt8.toNat_inj.symm
  have isLast : b = 255 ↔ b.toNat = 255 := UInt8.toNat_inj.symm
  have newlineNat : newline.toNat = 10 := rfl
  unfold EndsLine lineEnd toChar eof
  cases signed <;> simp [isNewline, isLast, newlineNat] <;> omega

theorem endsLine_eof : EndsLine (toChar true eof) := Or.inl rfl

theorem not_endsLine_eof : ¬ EndsLine (toChar false eof) := by decide

end UnixDemos.Library
