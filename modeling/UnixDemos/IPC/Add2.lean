/-
# IPC.Add2 — the coprocess of add2.c

`add2` reads, takes what it read for one line, and writes one reply.  A turn of its
loop is cut where another process could act or a buffer be left: the `read`, the
store `line[n] = 0`, the work on the buffer, the `write`.  `answer` is the work on
the buffer; `reply` says what comes of it for a string, and `answer_eq` that it
does when the string stands terminated in the buffer.
-/
import UnixDemos.Library.Decimal
import UnixDemos.Library.Stdio

namespace UnixDemos.IPC.Add2

open UnixDemos.Library

set_option autoImplicit false

/-- `MAXLINE` of add2.c and of coprocess.c. -/
def maxLine : Nat := 2048

/-- The text `invalid args` and a newline, 13 bytes. -/
def invalidArgs : Bytes := [105, 110, 118, 97, 108, 105, 100, 32, 97, 114, 103, 115, 10]

/-- The reply to a string: the sum in 32-bit arithmetic, or the error text. -/
def reply (line : Bytes) : Bytes :=
  match sscanfTwo line with
  | some (int1, int2) => printInt (wrap32 (int1 + int2)) ++ [newline]
  | none => invalidArgs

/-- `sscanf`, `sprintf` and `strlen` on the buffer: the buffer afterwards and what
is to be written. -/
def answer (line : Bytes) : Bytes × Bytes :=
  match sscanfTwo (cstr line) with
  | some (int1, int2) =>
      let line := overwrite line (printInt (wrap32 (int1 + int2)) ++ [newline] ++ [0])
      (line, cstr line)
  | none => (line, invalidArgs)

theorem nulFree_sum (v : Int) : NulFree (printInt v ++ [newline]) :=
  nulFree_append.mpr ⟨nulFree_printInt v, by decide⟩

theorem nulFree_reply (line : Bytes) : NulFree (reply line) := by
  unfold reply
  split
  · exact nulFree_sum _
  · decide

theorem reply_ne_nil (line : Bytes) : reply line ≠ [] := by
  unfold reply
  split
  · exact List.append_ne_nil_of_right_ne_nil _ (List.cons_ne_nil _ _)
  · exact List.cons_ne_nil _ _

theorem length_reply_le (line : Bytes) : (reply line).length ≤ 13 := by
  unfold reply
  split
  · rename_i int1 int2 _
    have short := length_printInt_wrap32 (int1 + int2)
    rw [List.length_append, List.length_singleton]
    omega
  · decide

/-- What is written is the reply to the string in the buffer, wherever that ends. -/
theorem answer_text (line : Bytes) : (answer line).2 = reply (cstr line) := by
  unfold answer reply
  split
  · exact cstr_overwrite (nulFree_sum _) line
  · rfl

/-- The work on a buffer that holds a terminated string is the reply to it. -/
theorem answer_eq {line text : Bytes} (holds : cstr line = text) (fits : line.length = maxLine) :
    (answer line).2 = reply text ∧ (answer line).1.length = maxLine := by
  refine ⟨holds ▸ answer_text line, ?_⟩
  unfold answer
  split
  · rename_i int1 int2 _
    have short := length_printInt_wrap32 (int1 + int2)
    rw [length_overwrite, fits]
    simp only [List.length_append, List.length_singleton, fits, maxLine]
    omega
  · exact fits

end UnixDemos.IPC.Add2
