/-
# IPC.FifoReadline — successive calls of readline

A stream falls into fragments: a line with its newline if both fit, or as much as the
buffer holds, and then the byte that found no room is dropped.  Successive calls return
the fragments in order.  What is left at the end has no newline and does not fill the
buffer; a call reads it and returns NULL, and so does every call after it.
-/
import UnixDemos.IPC.Fifo

namespace UnixDemos.IPC.Fifo

open UnixDemos.Library

set_option autoImplicit false

/-- What `n` successive calls on one buffer return.  Behind the end of the stream there
is nothing more to read; a read error ends the process. -/
def readlines (fails : Bool) (size : Nat) : Nat → Bytes → Bytes → List Readline
  | 0, _, _ => []
  | n + 1, buf, stream =>
      match readline fails buf size stream with
      | .line buf rest => .line buf rest :: readlines fails size n buf rest
      | .null buf => .null buf :: readlines fails size n buf []
      | result => [result]

/-- What one call takes out of the stream and returns in a buffer of `size` bytes. -/
inductive Fragment (size : Nat) where
  | complete (line : Bytes) (free : newline ∉ line) (room : line.length + 1 ≤ size - 1)
  | full (line : Bytes) (dropped : UInt8) (free : newline ∉ line) (room : line.length = size - 1)

namespace Fragment

variable {size : Nat}

/-- The bytes in the buffer before the NUL. -/
def text : Fragment size → Bytes
  | complete line _ _ => line ++ [newline]
  | full line _ _ _ => line

/-- The bytes of the stream the call took: the dropped one is not in the buffer. -/
def taken : Fragment size → Bytes
  | complete line _ _ => line ++ [newline]
  | full line dropped _ _ => line ++ [dropped]

/-- A call returned this fragment, with its NUL, in a buffer that is as long as before. -/
def Returned (f : Fragment size) (result : Readline) : Prop :=
  ∃ buf rest, result = .line buf rest ∧ buf.length = size ∧ f.text ++ [0] <+: buf

end Fragment

/-- How successive calls on `buf` divide a stream: into fragments, which they return, and a
rest, for which and after which they return NULL. -/
structure Divides (size : Nat) (buf stream : Bytes) (fragments : List (Fragment size))
    (rest : Bytes) : Prop where
  whole : stream = (fragments.map Fragment.taken).flatten ++ rest
  free : newline ∉ rest
  short : rest.length < size
  calls : ∃ lines last, List.Forall₂ Fragment.Returned fragments lines ∧
    ∀ more, readlines false size (fragments.length + more) buf stream =
      lines ++ List.replicate more (.null last)

section Calls

variable {size : Nat} {buf stream : Bytes}

/-- At the end of the stream every further call returns NULL. -/
theorem readlines_nil (size n : Nat) (buf : Bytes) :
    readlines false size n buf [] = List.replicate n (.null buf) := by
  induction n with
  | zero => rfl
  | succ n ih =>
      have ended : readline false buf size [] = .null buf := rfl
      rw [readlines, ended, List.replicate_succ]
      simp only [ih]

/-- A call that stored a text and its NUL returned the text. -/
theorem returned_overwrite (f : Fragment size) (rest : Bytes) (fits : buf.length = size)
    (room : f.text.length + 1 ≤ size) :
    f.Returned (.line (overwrite buf (f.text ++ [0])) rest) := by
  have inside : (f.text ++ [(0 : UInt8)]).length ≤ buf.length := by
    rw [List.length_append, List.length_singleton, fits]
    exact room
  exact ⟨_, rest, rfl, (length_overwrite inside).trans fits, List.prefix_append _ _⟩

theorem Divides.ended {last : Bytes} (returned : readline false buf size stream = .null last)
    (free : newline ∉ stream) (short : stream.length < size) :
    Divides size buf stream [] stream where
  whole := rfl
  free := free
  short := short
  calls := by
    refine ⟨[], last, .nil, fun more => ?_⟩
    cases more with
    | zero => rfl
    | succ n =>
        rw [List.length_nil, Nat.zero_add, readlines, returned, List.replicate_succ]
        simp only [readlines_nil, List.nil_append]

/-- One more call in front. -/
theorem Divides.cons {f : Fragment size} {fragments : List (Fragment size)} {buf' rest : Bytes}
    (returned : readline false buf size (f.taken ++ stream) = .line buf' stream)
    (text : f.Returned (.line buf' stream)) (later : Divides size buf' stream fragments rest) :
    Divides size buf (f.taken ++ stream) (f :: fragments) rest where
  whole := by
    rw [List.map_cons, List.flatten_cons, List.append_assoc, ← later.whole]
  free := later.free
  short := later.short
  calls := by
    obtain ⟨lines, last, returns, calls⟩ := later.calls
    refine ⟨.line buf' stream :: lines, last, .cons text returns, fun more => ?_⟩
    rw [List.length_cons, Nat.succ_add, readlines, returned]
    simp only [calls, List.cons_append]

/-- **Successive calls of readline.**  On every stream, with a buffer of at least two
bytes, the calls that do not return NULL return the fragments the stream begins with, in
order, each terminated inside the buffer, and all later calls return NULL.  What they miss
of the stream is one byte behind each full buffer, and a rest without a newline that does
not fill the buffer. -/
theorem readline_fragments (hasRoom : 2 ≤ size) (fits : buf.length = size) (stream : Bytes) :
    ∃ fragments rest, Divides size buf stream fragments rest := by
  induction left : stream.length using Nat.strong_induction_on generalizing buf stream with
  | _ left ih =>
      subst left
      have outcome := @readline_outcome false size buf stream (by omega) (Nat.le_of_eq fits.symm)
      generalize returned : readline false buf size stream = result at outcome
      cases outcome with
      | @complete line rest free room =>
          simp only [List.nil_append, List.length_nil, Nat.zero_add] at returned room
          have text := returned_overwrite (.complete line free (by omega)) rest fits
            (by simp only [Fragment.text, List.length_append, List.length_singleton]; omega)
          obtain ⟨_, _, ⟨⟩, fits', -⟩ := id text
          obtain ⟨fragments, last, later⟩ := ih rest.length (by simp; omega) fits' rest rfl
          rw [List.append_cons] at returned ⊢
          exact ⟨_, last, .cons returned text later⟩
      | @full line rest c free room =>
          simp only [List.nil_append, List.length_nil, Nat.zero_add] at returned room
          have text := returned_overwrite (.full line c free (by omega)) rest fits
            (by simp only [Fragment.text]; omega)
          obtain ⟨_, _, ⟨⟩, fits', -⟩ := id text
          obtain ⟨fragments, last, later⟩ := ih rest.length (by simp; omega) fits' rest rfl
          rw [List.append_cons] at returned ⊢
          exact ⟨_, last, .cons returned text later⟩
      | ended free room =>
          rw [if_neg (by decide)] at returned
          exact ⟨[], stream, .ended returned free (by simpa using room)⟩

/-- A line that just fits, a full buffer and the byte behind it, and a rest. -/
theorem readline_fragments_four_bytes :
    readlines false 4 4 (zeros 4) [97, 98, 10, 99, 100, 101, 102, 103] =
      [.line [97, 98, 10, 0] [99, 100, 101, 102, 103], .line [99, 100, 101, 0] [103],
        .null [103, 100, 101, 0], .null [103, 100, 101, 0]] ∧
    ∃ fragments rest,
      Divides 4 (zeros 4) [97, 98, 10, 99, 100, 101, 102, 103] fragments rest :=
  ⟨by decide, @readline_fragments 4 (zeros 4) (by decide) (by decide) _⟩

end Calls

end UnixDemos.IPC.Fifo
