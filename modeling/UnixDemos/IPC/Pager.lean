/-
# IPC.Pager — pipe_pager.c and popen_pager.c: a file sent to a pager

Both programs take a file apart with `fgets` and hand the pieces on: `pipe_pager` by
`strlen` and `write` to a pipe of its own, `popen_pager` by `fputs` to a stream of
`popen`.  Neither knows how many bytes `fgets` stored; both send the string in the
buffer, and what they send is `strings`, piece by piece.  So they agree on every file, and
they send the file itself exactly if it has no NUL.
-/
import UnixDemos.Library.Stdio

namespace UnixDemos.IPC.Pager

open UnixDemos.Library

set_option autoImplicit false

/-! ## The programs -/

/-- `MAXLINE` of both programs. -/
def maxLine : Nat := 2048

inductive Io where
  | fprintf (text : String)
  | perror (text : String)
  deriving DecidableEq, Repr

/-- `out` is what the pager gets to read. -/
structure State where
  line : Bytes
  out : Bytes
  log : List Io

def State.start (line : Bytes) : State := ⟨line, [], []⟩

/-- `perror(text); exit(-1);` -/
def State.fail (s : State) (text : String) : State × Int :=
  ({ s with log := s.log ++ [.perror text] }, -1)

/-- `fgets` stores a piece and its NUL. -/
def State.fgets (s : State) (chunk : Bytes) : State :=
  { s with line := overwrite s.line (chunk ++ [0]) }

def usage (argv : List String) : String :=
  "Usage: " ++ argv.headD "(null)" ++ " <pathname>"

section PipePager

/-- `false` is a call that fails; `fopen` has the contents of the file, and the `k`-th
`write`, of `n` bytes, returns `write k n`. -/
structure PipeAnswers where
  fopen : Option Bytes
  pipe : Bool
  fork : Bool
  write : Nat → Nat → Int
  ferror : Bool
  waitpid : Bool

/-- The parent's loop over the pieces; the second component is the status of an `exit`. -/
def pipeLoop (answers : PipeAnswers) : Nat → List Bytes → State → State × Option Int
  | _, [], s => (s, none)
  | k, chunk :: chunks, s =>
      let s := s.fgets chunk
      let n := (cstr s.line).length
      let written := answers.write k n
      let s := { s with out := s.out ++ s.line.take written.toNat }
      if written ≠ n then ((s.fail "write error").1, some (-1))
      else pipeLoop answers (k + 1) chunks s

/-- The parent; the child becomes the pager. -/
def pipePager (answers : PipeAnswers) (argv : List String) (line : Bytes) : State × Int :=
  let s := State.start line
  if argv.length ≠ 2 then ({ s with log := s.log ++ [.fprintf (usage argv)] }, -1)
  else
    match answers.fopen with
    | none => s.fail "fopen error"
    | some content =>
        if answers.pipe = false then s.fail "pipe error"
        else if answers.fork = false then s.fail "fork error"
        else
          match pipeLoop answers 0 (fgetsChunks maxLine content) s with
          | (s, some status) => (s, status)
          | (s, none) =>
              if answers.ferror = true then s.fail "fgets error"
              else if answers.waitpid = false then s.fail "waitpid error"
              else (s, 0)

end PipePager

section PopenPager

/-- The `k`-th `fputs`, of a string of `n` bytes, brings `fputs k n` of them to the pager. -/
structure PopenAnswers where
  fopen : Option Bytes
  popen : Bool
  fputs : Nat → Nat → Nat
  ferror : Bool
  pclose : Bool

/-- The loop; nobody looks at what `fputs` returns. -/
def popenLoop (answers : PopenAnswers) : Nat → List Bytes → State → State
  | _, [], s => s
  | k, chunk :: chunks, s =>
      let s := s.fgets chunk
      let text := cstr s.line
      let s := { s with out := s.out ++ text.take (answers.fputs k text.length) }
      popenLoop answers (k + 1) chunks s

def popenPager (answers : PopenAnswers) (argv : List String) (line : Bytes) : State × Int :=
  let s := State.start line
  if argv.length ≠ 2 then ({ s with log := s.log ++ [.fprintf (usage argv)] }, 127)
  else
    match answers.fopen with
    | none => s.fail "fopen error"
    | some content =>
        if answers.popen = false then s.fail "popen error"
        else
          let s := popenLoop answers 0 (fgetsChunks maxLine content) s
          if answers.ferror = true then s.fail "fgets error"
          else if answers.pclose = false then s.fail "pclose error"
          else (s, 0)

end PopenPager

/-! ## The strings of the pieces -/

/-- The strings in the pieces, one after the other. -/
def strings (chunks : List Bytes) : Bytes := (chunks.map cstr).flatten

theorem strings_cons (chunk : Bytes) (chunks : List Bytes) :
    strings (chunk :: chunks) = cstr chunk ++ strings chunks := rfl

theorem length_strings_le (chunks : List Bytes) :
    (strings chunks).length ≤ chunks.flatten.length := by
  induction chunks with
  | nil => exact Nat.le_refl _
  | cons chunk chunks ih =>
      rw [strings_cons, List.flatten_cons, List.length_append, List.length_append]
      exact Nat.add_le_add (length_cstr_le chunk) ih

/-- The strings are all there was exactly if no piece has a NUL. -/
theorem strings_eq_flatten_iff (chunks : List Bytes) :
    strings chunks = chunks.flatten ↔ NulFree chunks.flatten := by
  induction chunks with
  | nil => exact ⟨fun _ => List.not_mem_nil, fun _ => rfl⟩
  | cons chunk chunks ih =>
      rw [strings_cons, List.flatten_cons, nulFree_append, ← ih, ← cstr_eq_self_iff]
      constructor
      · intro same
        have lengths := congrArg List.length same
        have first := length_cstr_le chunk
        have later := length_strings_le chunks
        rw [List.length_append, List.length_append] at lengths
        exact List.append_inj same (by omega)
      · rintro ⟨first, later⟩
        rw [first, later]

/-- The buffer holds the string of the piece, whatever it held before. -/
theorem cstr_fgets (s : State) (chunk : Bytes) : cstr (s.fgets chunk).line = cstr chunk := by
  rw [State.fgets, overwrite, List.append_assoc, List.cons_append]
  exact cstr_append_zero ..

/-! ## The loops -/

theorem pipeLoop_complete {answers : PipeAnswers} (complete : ∀ k n, answers.write k n = n)
    (k : Nat) (chunks : List Bytes) (s : State) :
    (pipeLoop answers k chunks s).1.out = s.out ++ strings chunks ∧
      (pipeLoop answers k chunks s).2 = none := by
  induction chunks generalizing k s with
  | nil => exact ⟨(List.append_nil _).symm, rfl⟩
  | cons chunk chunks ih =>
      have taken : (s.fgets chunk).line.take (cstr (s.fgets chunk).line).length = cstr chunk := by
        rw [take_length_cstr, cstr_fgets]
      simp only [pipeLoop, complete, ne_eq, not_true_eq_false, if_false, Int.toNat_natCast, taken]
      obtain ⟨out, status⟩ := ih (k + 1) { s.fgets chunk with out := s.out ++ cstr chunk }
      exact ⟨out.trans (List.append_assoc ..), status⟩

theorem popenLoop_complete {answers : PopenAnswers} (complete : ∀ k n, answers.fputs k n = n)
    (k : Nat) (chunks : List Bytes) (s : State) :
    (popenLoop answers k chunks s).out = s.out ++ strings chunks := by
  induction chunks generalizing k s with
  | nil => exact (List.append_nil _).symm
  | cons chunk chunks ih =>
      simp only [popenLoop, complete, List.take_length, cstr_fgets]
      exact (ih (k + 1) { s.fgets chunk with out := s.out ++ cstr chunk }).trans
        (List.append_assoc ..)

/-! ## The programs agree -/

/-- The file is opened, the pager is there, and every write is complete. -/
structure PipeAnswers.Copies (answers : PipeAnswers) (content : Bytes) : Prop where
  fopen : answers.fopen = some content
  pipe : answers.pipe = true
  fork : answers.fork = true
  write : ∀ k n, answers.write k n = n

structure PopenAnswers.Copies (answers : PopenAnswers) (content : Bytes) : Prop where
  fopen : answers.fopen = some content
  popen : answers.popen = true
  fputs : ∀ k n, answers.fputs k n = n

theorem pipePager_out {answers : PipeAnswers} {content : Bytes} (copies : answers.Copies content)
    {argv : List String} (args : argv.length = 2) (line : Bytes) :
    (pipePager answers argv line).1.out = strings (fgetsChunks maxLine content) := by
  obtain ⟨out, status⟩ :=
    pipeLoop_complete copies.write 0 (fgetsChunks maxLine content) (State.start line)
  simp only [pipePager, args, copies.fopen, copies.pipe, copies.fork]
  generalize pipeLoop answers 0 (fgetsChunks maxLine content) (State.start line) = copied at *
  obtain ⟨s, _⟩ := copied
  cases status
  -- ferror and waitpid come when everything is sent
  cases answers.ferror <;> cases answers.waitpid <;> exact out

theorem popenPager_out {answers : PopenAnswers} {content : Bytes} (copies : answers.Copies content)
    {argv : List String} (args : argv.length = 2) (line : Bytes) :
    (popenPager answers argv line).1.out = strings (fgetsChunks maxLine content) := by
  have out := popenLoop_complete copies.fputs 0 (fgetsChunks maxLine content) (State.start line)
  simp only [popenPager, args, copies.fopen, copies.popen]
  cases answers.ferror <;> cases answers.pclose <;> exact out

/-- **The same bytes.**  For every file, whatever its lines are like and whatever was in
the two buffers, the pagers are sent the same bytes, and these are the bytes of the file
exactly if it has no NUL. -/
theorem pagers_agree {pipe : PipeAnswers} {popen : PopenAnswers} {content : Bytes}
    (copies : pipe.Copies content) (copies' : popen.Copies content)
    {argv argv' : List String} (args : argv.length = 2) (args' : argv'.length = 2)
    (line line' : Bytes) :
    (pipePager pipe argv line).1.out = (popenPager popen argv' line').1.out ∧
      ((pipePager pipe argv line).1.out = content ↔ NulFree content) := by
  rw [pipePager_out copies args line, popenPager_out copies' args' line']
  refine ⟨rfl, ?_⟩
  have flat := (fgetsChunks_spec (show 2 ≤ maxLine by decide) content).1
  have whole := strings_eq_flatten_iff (fgetsChunks maxLine content)
  rwa [flat] at whole

def pipeReady (content : Bytes) : PipeAnswers :=
  ⟨some content, true, true, fun _ n => n, false, true⟩

def popenReady (content : Bytes) : PopenAnswers :=
  ⟨some content, true, fun _ n => n, false, true⟩

/-- A file of two lines, the second without a newline. -/
theorem pagers_agree_two_lines :
    (pipePager (pipeReady [104, 105, newline, 33]) ["pipe_pager", "f"] []).1.out =
        [104, 105, newline, 33] ∧
      (popenPager (popenReady [104, 105, newline, 33]) ["popen_pager", "f"] []).1.out =
        [104, 105, newline, 33] := by
  obtain ⟨same, whole⟩ := @pagers_agree (pipeReady [104, 105, newline, 33])
    (popenReady [104, 105, newline, 33]) _ ⟨rfl, rfl, rfl, fun _ _ => rfl⟩
    ⟨rfl, rfl, fun _ _ => rfl⟩ ["pipe_pager", "f"] ["popen_pager", "f"] rfl rfl [] []
  have sent := whole.mpr (by decide)
  exact ⟨sent, same.symm.trans sent⟩

end UnixDemos.IPC.Pager
