/-
# IPC.Fifo — the line reader of fifo_demo.c

The child copies standard input to a FIFO with `fgets`, `strlen` and `write`; the
parent takes it out again with `readline`, one byte a call, and prints each line.

`readline` reads a byte before it looks for room, and tests for the end of the
stream after the loop, whatever is in the buffer.  So a byte that finds the buffer
full is gone, and so is a last line without a newline.  `Outcome` lists the three
ways a call can end, and `readline_outcome` shows there is no other; from it
follows exactly which streams come through.
-/
import UnixDemos.Library.Stdio

namespace UnixDemos.IPC.Fifo

open UnixDemos.Library

set_option autoImplicit false

/-- `MAXLINE`. -/
def maxLine : Nat := 1024

inductive Out where
  | printf (text : Bytes)
  | message (text : String)
  | perror (text : String)
  | exit (status : Int)
  deriving DecidableEq, Repr

/-! ## The reader -/

/-- How a call of `readline` ends. -/
inductive Readline where
  | line (buf rest : Bytes)
  | null (buf : Bytes)
  | readError
  | outside
  deriving DecidableEq, Repr

/-- The end of `readline`: `*ptr = 0; return buf`. -/
def terminate (buf : Bytes) (ptr : Nat) (rest : Bytes) : Readline :=
  match store buf ptr 0 with
  | none => .outside
  | some buf => .line buf rest

/-- The loop of `readline`.  Behind the last byte of the stream `read` answers 0,
or -1 if the stream `fails`. -/
def readlineLoop (fails : Bool) (size : Nat) : Bytes → Nat → Bytes → Readline
  | buf, _, [] => if fails then .readError else .null buf
  | buf, ptr, c :: stream =>
      if ptr + 1 < size then
        match store buf ptr c with
        | none => .outside
        | some buf =>
            if c = newline then terminate buf (ptr + 1) stream
            else readlineLoop fails size buf (ptr + 1) stream
      else
        -- the byte was read before the test for room, and is dropped
        terminate buf ptr stream

def readline (fails : Bool) (buf : Bytes) (size : Nat) (stream : Bytes) : Readline :=
  readlineLoop fails size buf 0 stream

/-- One turn of the parent's loop: the text printed, the buffer and the stream. -/
def nextLine (fails : Bool) (size : Nat) : Bytes × Bytes → Option (Bytes × Bytes × Bytes)
  | (buf, stream) =>
      match readline fails buf size stream with
      | .line buf rest => some (cstr buf, buf, rest)
      | _ => none

/-- What the parent prints for the lines it gets. -/
def lines (fails : Bool) (size : Nat) (buf stream : Bytes) : List Bytes :=
  pieces (fun s => s.2.length) (nextLine fails size) (buf, stream)

/-- The parent, with `buf` as it happens to be. -/
def parent (fails : Bool) (buf stream : Bytes) : List Out :=
  (lines fails maxLine buf stream).map .printf ++
    if fails then [.perror "read error", .exit (-1)]
    else [.message "FIFO write end closed\n", .exit 0]

/-! ## The writer -/

/-- The child's loop over what `fgets` stored: the bytes in the FIFO, and how it
ends.  The `k`-th `write` of `len` bytes takes `taken k len` of them. -/
def childLoop (taken : Nat → Nat → Nat) : Nat → List Bytes → Bytes × List Out
  | _, [] => ([], [.exit 0])
  | k, chunk :: chunks =>
      let text := cstr (chunk ++ [0])
      if taken k text.length = text.length then
        (text ++ (childLoop taken (k + 1) chunks).1, (childLoop taken (k + 1) chunks).2)
      else (text.take (taken k text.length), [.perror "write error", .exit (-1)])

def child (taken : Nat → Nat → Nat) (stdin : Bytes) : Bytes × List Out :=
  childLoop taken 0 (fgetsChunks maxLine stdin)

def Out.text : Out → Bytes
  | .printf text => text
  | _ => []

/-- What the parent prints of the child's standard input when every write is
complete and no read fails. -/
def transfer (buf stdin : Bytes) : Bytes :=
  (parent false buf (child (fun _ len => len) stdin).1).flatMap Out.text

/-- With complete writes a NUL-free standard input is in the FIFO as it was. -/
theorem child_sends {stdin : Bytes} (nulFree : NulFree stdin) :
    child (fun _ len => len) stdin = (stdin, [.exit 0]) := by
  have whole : ∀ (chunks : List Bytes) (k : Nat), NulFree chunks.flatten →
      childLoop (fun _ len => len) k chunks = (chunks.flatten, [.exit 0]) := by
    intro chunks
    induction chunks with
    | nil => exact fun _ _ => rfl
    | cons chunk chunks ih =>
        intro k nulFree
        rw [List.flatten_cons] at nulFree ⊢
        obtain ⟨here, later⟩ := nulFree_append.mp nulFree
        simp only [childLoop, if_true, cstr_append_nul here, ih (k + 1) later]
  have flat := (fgetsChunks_spec (show 2 ≤ maxLine by decide) stdin).1
  unfold child
  rw [whole _ 0 (flat.symm ▸ nulFree), flat]

/-! ## One call of `readline` -/

section Call

variable {fails : Bool} {size : Nat} {buf stored stream : Bytes}

/-- How a call that has `stored` some bytes goes on: it comes to a newline with room
for it, it finds the buffer full and drops a byte, or the stream ends. -/
inductive Outcome (fails : Bool) (size : Nat) (buf stored : Bytes) : Bytes → Readline → Prop where
  | complete {line rest : Bytes} (free : newline ∉ line)
      (room : stored.length + line.length + 1 < size) :
      Outcome fails size buf stored (line ++ newline :: rest)
        (.line (overwrite buf (stored ++ line ++ [newline] ++ [0])) rest)
  | full {line rest : Bytes} {c : UInt8} (free : newline ∉ line)
      (room : stored.length + line.length + 1 = size) :
      Outcome fails size buf stored (line ++ c :: rest)
        (.line (overwrite buf (stored ++ line ++ [0])) rest)
  | ended {stream : Bytes} (free : newline ∉ stream)
      (room : stored.length + stream.length < size) :
      Outcome fails size buf stored stream
        (if fails then .readError else .null (overwrite buf (stored ++ stream)))

theorem Outcome.cons {c : UInt8} {result : Readline} (other : c ≠ newline)
    (later : Outcome fails size buf (stored ++ [c]) stream result) :
    Outcome fails size buf stored (c :: stream) result := by
  have free : ∀ line : Bytes, newline ∉ line → newline ∉ c :: line := fun line free member =>
    (List.mem_cons.mp member).elim (fun same => other same.symm) free
  cases later with
  | @complete line rest notIn room =>
      rw [List.length_append, List.length_singleton] at room
      have outcome := @Outcome.complete fails size buf stored (c :: line) rest (free line notIn)
        (by rw [List.length_cons]; omega)
      simpa using outcome
  | @full line rest d notIn room =>
      rw [List.length_append, List.length_singleton] at room
      have outcome := @Outcome.full fails size buf stored (c :: line) rest d (free line notIn)
        (by rw [List.length_cons]; omega)
      simpa using outcome
  | ended notIn room =>
      rw [List.length_append, List.length_singleton] at room
      have outcome := @Outcome.ended fails size buf stored (c :: stream) (free stream notIn)
        (by rw [List.length_cons]; omega)
      simpa using outcome

theorem terminate_overwrite (rest : Bytes) (inside : stored.length < buf.length) :
    terminate (overwrite buf stored) stored.length rest =
      .line (overwrite buf (stored ++ [0])) rest := by
  unfold terminate
  rw [store_overwrite 0 inside]

theorem readlineLoop_outcome (fits : size ≤ buf.length) (room : stored.length < size) :
    Outcome fails size buf stored stream
      (readlineLoop fails size (overwrite buf stored) stored.length stream) := by
  induction stream generalizing stored with
  | nil =>
      have outcome := @Outcome.ended fails size buf stored [] List.not_mem_nil (by simpa using room)
      simpa [readlineLoop] using outcome
  | cons c stream ih =>
      have inside : stored.length < buf.length := by omega
      unfold readlineLoop
      by_cases more : stored.length + 1 < size
      · rw [if_pos more, store_overwrite c inside]
        have longer : (stored ++ [c]).length = stored.length + 1 := by simp
        by_cases isNewline : c = newline
        · have outcome := @Outcome.complete fails size buf stored [] stream List.not_mem_nil
            (by simpa using more)
          have ends := @terminate_overwrite buf (stored ++ [c]) stream (by omega)
          rw [longer] at ends
          simp only [if_pos isNewline, ends]
          simpa [isNewline] using outcome
        · have later := @ih (stored ++ [c]) (by omega)
          rw [longer] at later
          simp only [if_neg isNewline]
          exact later.cons isNewline
      · rw [if_neg more, terminate_overwrite stream inside]
        have outcome := @Outcome.full fails size buf stored [] stream c List.not_mem_nil
          (by rw [List.length_nil]; omega)
        simpa using outcome

/-- What a call of `readline` on a buffer of at least `size` bytes can do. -/
theorem readline_outcome (hasRoom : 0 < size) (fits : size ≤ buf.length) :
    Outcome fails size buf [] stream (readline fails buf size stream) := by
  have outcome := @readlineLoop_outcome fails size buf [] stream fits hasRoom
  simpa [readline, overwrite] using outcome

end Call

/-! ## The whole stream -/

/-- The streams that come through: they end in a newline, or are empty, and every
stretch without a newline leaves room for a newline and the NUL. -/
def Whole (size : Nat) (stream : Bytes) : Prop :=
  (stream = [] ∨ stream.getLast? = some newline) ∧
    ∀ stretch, stretch <:+: stream → newline ∉ stretch → stretch.length + 1 < size

section Transfer

variable {fails : Bool} {size : Nat} {buf stream line rest : Bytes}

theorem whole_append (room : line.length + 1 < size) :
    Whole size (line ++ newline :: rest) ↔ Whole size rest := by
  have ends : (line ++ newline :: rest).getLast? = some newline ↔
      rest = [] ∨ rest.getLast? = some newline := by
    cases rest with
    | nil => simp
    | cons c rest => simp [List.getLast?_append]
  constructor
  · rintro ⟨last, short⟩
    refine ⟨ends.mp (last.resolve_left (by simp)), fun stretch within => ?_⟩
    have later : rest <:+: line ++ newline :: rest :=
      List.infix_append_of_infix_right (List.suffix_cons _ _).isInfix
    exact short stretch (within.trans later)
  · rintro ⟨last, short⟩
    refine ⟨Or.inr (ends.mpr last), fun stretch within notIn => ?_⟩
    rcases infix_of_notMem within notIn with before | after
    · have := before.length_le
      omega
    · exact short stretch after notIn

theorem not_whole_of_full {c : UInt8} (free : newline ∉ line) (room : line.length + 1 = size) :
    ¬ Whole size (line ++ c :: rest) := by
  rintro ⟨-, short⟩
  have := short line (List.prefix_append _ _).isInfix free
  omega

theorem whole_of_ended (hasRoom : 2 ≤ size) (free : newline ∉ stream) :
    Whole size stream ↔ stream = [] := by
  constructor
  · rintro ⟨empty | last, -⟩
    · exact empty
    · exact absurd (List.mem_of_getLast? last) free
  · rintro rfl
    refine ⟨Or.inl rfl, fun stretch within _ => ?_⟩
    rw [List.infix_nil.mp within]
    exact hasRoom

/-- A call that returns a line has taken a byte. -/
theorem readlineLoop_smaller {buf' : Bytes} {ptr : Nat}
    (returned : readlineLoop fails size buf ptr stream = .line buf' rest) :
    rest.length < stream.length := by
  have ends : ∀ (b : Bytes) (p : Nat) (left : Bytes), terminate b p left = .line buf' rest →
      rest = left := by
    intro b p left done
    unfold terminate at done
    split at done
    · cases done
    · cases done
      rfl
  induction stream generalizing buf ptr with
  | nil =>
      unfold readlineLoop at returned
      split at returned <;> cases returned
  | cons c stream ih =>
      unfold readlineLoop at returned
      split at returned
      · split at returned
        · cases returned
        · split at returned
          · rw [ends _ _ _ returned]
            exact Nat.lt_succ_self _
          · exact Nat.lt_succ_of_lt (ih returned)
      · rw [ends _ _ _ returned]
        exact Nat.lt_succ_self _

theorem lines_of_line {buf' : Bytes} (returned : readline fails buf size stream = .line buf' rest) :
    lines fails size buf stream = cstr buf' :: lines fails size buf' rest := by
  refine pieces_cons ?_ (by simp [nextLine, returned])
  rintro ⟨b, left⟩ text ⟨b', left'⟩ next
  simp only [nextLine] at next
  split at next
  · rename_i called
    cases next
    exact readlineLoop_smaller called
  · cases next

theorem lines_of_null {buf' : Bytes} (returned : readline fails buf size stream = .null buf') :
    lines fails size buf stream = [] :=
  pieces_nil (by simp [nextLine, returned])

/-- What the lines keep of a stream is never longer than the stream, and is the
stream exactly when the stream is whole. -/
theorem lines_flatten (hasRoom : 2 ≤ size) (fits : size ≤ buf.length) (nulFree : NulFree stream) :
    (lines false size buf stream).flatten.length ≤ stream.length ∧
      ((lines false size buf stream).flatten = stream ↔ Whole size stream) := by
  induction left : stream.length using Nat.strong_induction_on generalizing buf stream with
  | _ left ih =>
      subst left
      have outcome := @readline_outcome false size buf stream (by omega) fits
      generalize returned : readline false buf size stream = result at outcome
      cases outcome with
      | @complete line rest free room =>
          simp only [List.nil_append, List.length_nil, Nat.zero_add] at returned room
          obtain ⟨lineFree, later⟩ := nulFree_append.mp nulFree
          have restFree := (nulFree_cons.mp later).2
          have text : cstr (overwrite buf (line ++ [newline] ++ [0])) = line ++ [newline] := by
            apply cstr_overwrite
            exact nulFree_append.mpr ⟨lineFree, by decide⟩
          have still : size ≤ (overwrite buf (line ++ [newline] ++ [0])).length := by
            rw [length_overwrite (by simp; omega)]
            exact fits
          obtain ⟨most, same⟩ := ih rest.length (by simp; omega) still restFree rfl
          rw [lines_of_line returned, text, List.flatten_cons, whole_append room, ← same]
          constructor
          · simp only [List.length_append, List.length_cons, List.length_nil]
            omega
          · rw [List.append_assoc, List.singleton_append, List.append_cancel_left_eq,
              List.cons.injEq]
            exact and_iff_right rfl
      | @full line rest c free room =>
          simp only [List.nil_append, List.length_nil, Nat.zero_add] at returned room
          obtain ⟨lineFree, later⟩ := nulFree_append.mp nulFree
          have restFree := (nulFree_cons.mp later).2
          have text := cstr_overwrite lineFree buf
          have still : size ≤ (overwrite buf (line ++ [0])).length := by
            rw [length_overwrite (by simp; omega)]
            exact fits
          obtain ⟨most, -⟩ := ih rest.length (by simp; omega) still restFree rfl
          rw [lines_of_line returned, text, List.flatten_cons]
          -- the dropped byte makes the result shorter than the stream
          have less :
              (line ++ (lines false size (overwrite buf (line ++ [0])) rest).flatten).length <
                (line ++ c :: rest).length := by
            rw [List.length_append, List.length_append, List.length_cons]
            omega
          refine ⟨Nat.le_of_lt less, fun same => ?_, fun whole => ?_⟩
          · rw [same] at less
            exact absurd less (Nat.lt_irrefl _)
          · exact absurd whole (not_whole_of_full free room)
      | ended free room =>
          rw [if_neg (by decide)] at returned
          rw [lines_of_null returned, whole_of_ended hasRoom free]
          exact ⟨Nat.zero_le _, eq_comm⟩

/-- The parent prints its lines and a message. -/
theorem parent_text (fails : Bool) (buf stream : Bytes) :
    (parent fails buf stream).flatMap Out.text = (lines fails maxLine buf stream).flatten := by
  have printed : ((lines fails maxLine buf stream).map Out.printf).flatMap Out.text =
      (lines fails maxLine buf stream).flatten := by
    rw [List.flatMap_map]
    exact List.flatMap_id ..
  rw [parent, List.flatMap_append, printed]
  cases fails <;> exact List.append_nil _

/-- **Which streams the FIFO carries**: a NUL-free standard input comes through
exactly when it is whole, that is when its last line is terminated and no line is
longer than `MAXLINE - 1` with its newline. -/
theorem transfer_lossless_iff (buf stdin : Bytes) (fits : buf.length = maxLine)
    (nulFree : NulFree stdin) : transfer buf stdin = stdin ↔ Whole maxLine stdin := by
  rw [transfer, parent_text, child_sends nulFree]
  exact (lines_flatten (by decide) (Nat.le_of_eq fits.symm) nulFree).2

theorem transfer_lossless_iff_two_lines :
    transfer (zeros maxLine) [104, 105, 10, 10] = [104, 105, 10, 10] ∧
      Whole maxLine [104, 105, 10, 10] := by
  have comes : transfer (zeros maxLine) [104, 105, 10, 10] = [104, 105, 10, 10] := by
    decide +kernel
  exact ⟨comes, (transfer_lossless_iff _ _ (by decide +kernel) (by decide)).mp comes⟩

/-- A last line without a newline is not printed. -/
theorem unterminated_line_lost :
    ¬ ∀ buf stdin : Bytes, buf.length = maxLine → NulFree stdin → transfer buf stdin = stdin := by
  intro lossless
  have lost : transfer (zeros maxLine) [97] = [] := by decide +kernel
  have kept := lossless (zeros maxLine) [97] (by decide +kernel) (by decide)
  rw [lost] at kept
  cases kept

end Transfer

end UnixDemos.IPC.Fifo
