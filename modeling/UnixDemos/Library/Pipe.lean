/-
# Library.Pipe — pipes as lists of messages

A pipe holds the messages written to it and not read yet.  Reading does not see
where one ends: it takes all bytes there are, up to its count.  An empty pipe
blocks the reader while a write end is open and reads as end of file afterwards.
-/
import UnixDemos.Library.CString

namespace UnixDemos.Library

set_option autoImplicit false

/-- The messages in a pipe, oldest first. -/
abbrev Pipe := List Bytes

namespace Pipe

/-- A `write` of no bytes puts nothing into the pipe. -/
def write (p : Pipe) (data : Bytes) : Pipe := if data = [] then p else p ++ [data]

/-- `read`: what it returns and what stays; `none` while it blocks. -/
def read (p : Pipe) (count : Nat) (writerOpen : Bool) : Option (Bytes × Pipe) :=
  let bytes := p.flatten
  if bytes = [] then
    if writerOpen then none else some ([], [])
  else some (bytes.take count, if bytes.drop count = [] then [] else [bytes.drop count])

theorem write_empty {data : Bytes} (nonempty : data ≠ []) : Pipe.write [] data = [data] := by
  rw [Pipe.write, if_neg nonempty, List.nil_append]

/-- A single message that fits is read whole. -/
theorem read_single {data : Bytes} {count : Nat} (nonempty : data ≠ []) (fits : data.length ≤ count)
    (writerOpen : Bool) : Pipe.read [data] count writerOpen = some (data, []) := by
  have whole : List.flatten [data] = data := by simp
  unfold Pipe.read
  simp only [whole, if_neg nonempty, List.drop_eq_nil_of_le fits, if_true,
    List.take_of_length_le fits]

/-- What a read of an empty pipe can return is end of file. -/
theorem read_empty {count : Nat} {writerOpen : Bool} {data : Bytes} {left : Pipe}
    (returned : Pipe.read [] count writerOpen = some (data, left)) : data = [] := by
  cases writerOpen with
  | true => cases returned
  | false =>
      cases returned
      rfl

end Pipe

end UnixDemos.Library
