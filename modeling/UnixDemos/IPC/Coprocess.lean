/-
# IPC.Coprocess — the parent of coprocess.c and its coprocess

The parent sends each line of standard input down one pipe, waits for a reply on
the other, and prints it.  Nothing on either pipe says where a message ends, and
both sides store a NUL at `line[n]` after a read of up to `MAXLINE` bytes.

A step is one system call, or one piece of work between two calls, of one of the
two processes; `Move` says whose, and whether the call fails.  A process that has
exited has closed its ends of the pipes: the other one reads end of file or gets
SIGPIPE, which the parent catches and which kills `add2`, since a caught signal
goes back to its default with `execl`.

A store outside its buffer is recorded in `outside`; the buffer itself then stays
as it is.
-/
import UnixDemos.IPC.Add2
import UnixDemos.Library.Pipe
import UnixDemos.Library.Run

namespace UnixDemos.IPC.Coprocess

open UnixDemos.Library
open UnixDemos.IPC.Add2 (maxLine reply answer)

set_option autoImplicit false

/-! ## State -/

inductive Exit where
  | status (code : Int)
  | sigpipe
  deriving DecidableEq, Repr

/-- What the parent does next; `line[n] = 0` has its own step. -/
inductive ParentPc where
  | fgets
  | write
  | read
  | terminate (n : Nat)
  | fputs
  | exited (how : Exit)
  deriving DecidableEq, Repr

inductive ChildPc where
  | read
  | terminate (n : Nat)
  | answer
  | write (text : Bytes)
  | exited (how : Exit)
  deriving DecidableEq, Repr

inductive Io where
  | wrote (data : Bytes)
  | add2Read (data : Bytes)
  | fputs (text : Bytes)
  | printf (text : String)
  | perror (message : String)
  | fprintf (message : String)
  deriving DecidableEq, Repr

structure System where
  stdin : Bytes
  parent : ParentPc
  parentLine : Bytes
  child : ChildPc
  childLine : Bytes
  requests : Pipe
  replies : Pipe
  log : List Io
  outside : Bool

inductive Process where
  | parent
  | child
  deriving DecidableEq, Repr

structure Move where
  who : Process
  fails : Bool
  deriving DecidableEq, Repr

/-! ## Steps -/

variable (s : System)

def System.note (entry : Io) : System := { s with log := s.log ++ [entry] }

def System.parentExit (code : Int) : System := { s with parent := .exited (.status code) }

def System.childExit (how : Exit) : System := { s with child := .exited how }

def ParentPc.running : ParentPc → Bool
  | .exited _ => false
  | _ => true

def ChildPc.running : ChildPc → Bool
  | .exited _ => false
  | _ => true

def stepParent (fails : Bool) : Option System :=
  match s.parent with
  | .fgets =>
      if fails then some ((s.note (.perror "fgets error on stdin")).parentExit (-1))
      else
        match fgets maxLine s.stdin with
        | none => some (s.parentExit 0)
        | some (chunk, rest) =>
            some { s with
              stdin := rest
              parentLine := overwrite s.parentLine (chunk ++ [0])
              parent := .write }
  | .write =>
      let text := cstr s.parentLine
      if fails then some ((s.note (.perror "write to pipe error")).parentExit (-1))
      else if s.child.running = false ∧ text ≠ [] then
        some ((s.note (.printf "Caught SIGPIPE\n")).parentExit 1)
      else
        some { s.note (.wrote text) with requests := s.requests.write text, parent := .read }
  | .read =>
      if fails then some ((s.note (.perror "read from pipe error")).parentExit (-1))
      else
        match s.replies.read maxLine s.child.running with
        | none => none
        | some (data, left) =>
            if data.length = 0 then
              some ((s.note (.fprintf "child closed pipe\n")).parentExit 0)
            else
              some { s with
                parentLine := overwrite s.parentLine data
                replies := left
                parent := .terminate data.length }
  | .terminate n =>
      if fails then none
      else
        match store s.parentLine n 0 with
        | none => some { s with outside := true, parent := .fputs }
        | some line => some { s with parentLine := line, parent := .fputs }
  | .fputs =>
      if fails then some ((s.note (.perror "fputs error")).parentExit (-1))
      else some { s.note (.fputs (cstr s.parentLine)) with parent := .fgets }
  | .exited _ => none

def stepChild (fails : Bool) : Option System :=
  match s.child with
  | .read =>
      -- a failed read ends the loop as end of file does
      if fails then some (s.childExit (.status 0))
      else
        match s.requests.read maxLine s.parent.running with
        | none => none
        | some (data, left) =>
            if data.length = 0 then some (s.childExit (.status 0))
            else
              some { s.note (.add2Read data) with
                childLine := overwrite s.childLine data
                requests := left
                child := .terminate data.length }
  | .terminate n =>
      if fails then none
      else
        match store s.childLine n 0 with
        | none => some { s with outside := true, child := .answer }
        | some line => some { s with childLine := line, child := .answer }
  | .answer =>
      if fails then none
      else
        some { s with childLine := (answer s.childLine).1, child := .write (answer s.childLine).2 }
  | .write text =>
      if fails then some ((s.note (.perror "write error")).childExit (.status (-1)))
      else if s.parent.running = false then some (s.childExit .sigpipe)
      else some { s with replies := s.replies.write text, child := .read }
  | .exited _ => none

def System.step (m : Move) : Option System :=
  match m.who with
  | .parent => stepParent s m.fails
  | .child => stepChild s m.fails

/-- Both processes before their loops, the buffers as they happen to be. -/
def start (stdin parentLine childLine : Bytes) : System :=
  ⟨stdin, .fgets, parentLine, .read, childLine, [], [], [], false⟩

/-! ## What was written, read and printed -/

def Io.written : Io → Option Bytes
  | .wrote data => some data
  | _ => none

def Io.received : Io → Option Bytes
  | .add2Read data => some data
  | _ => none

def Io.printed : Io → Option Bytes
  | .fputs text => some text
  | _ => none

/-- The messages the parent wrote. -/
def writtenIn (log : List Io) : List Bytes := log.filterMap Io.written

/-- What the reads of `add2` returned. -/
def receivedIn (log : List Io) : List Bytes := log.filterMap Io.received

/-- The texts the parent printed. -/
def printedIn (log : List Io) : List Bytes := log.filterMap Io.printed

@[simp] theorem writtenIn_snoc (log : List Io) (entry : Io) :
    writtenIn (log ++ [entry]) = writtenIn log ++ entry.written.toList :=
  filterMap_snoc _ _ _

@[simp] theorem receivedIn_snoc (log : List Io) (entry : Io) :
    receivedIn (log ++ [entry]) = receivedIn log ++ entry.received.toList :=
  filterMap_snoc _ _ _

@[simp] theorem printedIn_snoc (log : List Io) (entry : Io) :
    printedIn (log ++ [entry]) = printedIn log ++ entry.printed.toList :=
  filterMap_snoc _ _ _

/-! ## What a step can do -/

/-- A message, as opposed to an entry for data that was moved. -/
def Io.Quiet (entry : Io) : Prop :=
  entry.written = none ∧ entry.received = none ∧ entry.printed = none

inductive ParentEffect (s : System) : System → Prop where
  | exits (code : Int) : ParentEffect s (s.parentExit code)
  | fails {entry : Io} (quiet : entry.Quiet) (code : Int) :
      ParentEffect s ((s.note entry).parentExit code)
  | fgets {chunk rest : Bytes} (pc : s.parent = .fgets)
      (stored : fgets maxLine s.stdin = some (chunk, rest)) :
      ParentEffect s { s with
        stdin := rest
        parentLine := overwrite s.parentLine (chunk ++ [0])
        parent := .write }
  | writes (pc : s.parent = .write) :
      ParentEffect s { s.note (.wrote (cstr s.parentLine)) with
        requests := s.requests.write (cstr s.parentLine)
        parent := .read }
  | reads {data : Bytes} {left : Pipe} (pc : s.parent = .read) (nonempty : data ≠ [])
      (returned : s.replies.read maxLine s.child.running = some (data, left)) :
      ParentEffect s { s with
        parentLine := overwrite s.parentLine data
        replies := left
        parent := .terminate data.length }
  | overruns {n : Nat} (pc : s.parent = .terminate n) (stored : store s.parentLine n 0 = none) :
      ParentEffect s { s with outside := true, parent := .fputs }
  | terminates {n : Nat} {line : Bytes} (pc : s.parent = .terminate n)
      (stored : store s.parentLine n 0 = some line) :
      ParentEffect s { s with parentLine := line, parent := .fputs }
  | fputs (pc : s.parent = .fputs) :
      ParentEffect s { s.note (.fputs (cstr s.parentLine)) with parent := .fgets }

inductive ChildEffect (s : System) : System → Prop where
  | exits (how : Exit) : ChildEffect s (s.childExit how)
  | fails {entry : Io} (quiet : entry.Quiet) (how : Exit) :
      ChildEffect s ((s.note entry).childExit how)
  | reads {data : Bytes} {left : Pipe} (pc : s.child = .read) (nonempty : data ≠ [])
      (returned : s.requests.read maxLine s.parent.running = some (data, left)) :
      ChildEffect s { s.note (.add2Read data) with
        childLine := overwrite s.childLine data
        requests := left
        child := .terminate data.length }
  | overruns {n : Nat} (pc : s.child = .terminate n) (stored : store s.childLine n 0 = none) :
      ChildEffect s { s with outside := true, child := .answer }
  | terminates {n : Nat} {line : Bytes} (pc : s.child = .terminate n)
      (stored : store s.childLine n 0 = some line) :
      ChildEffect s { s with childLine := line, child := .answer }
  | answers (pc : s.child = .answer) :
      ChildEffect s { s with
        childLine := (answer s.childLine).1
        child := .write (answer s.childLine).2 }
  | writes {text : Bytes} (pc : s.child = .write text) :
      ChildEffect s { s with replies := s.replies.write text, child := .read }

section Effects

variable {s s' : System} {fails : Bool}

theorem stepParent_effect (step : stepParent s fails = some s') : ParentEffect s s' := by
  unfold stepParent at step
  cases pc : s.parent with
  | fgets =>
      simp only [pc] at step
      split at step
      · cases step
        exact .fails ⟨rfl, rfl, rfl⟩ _
      · split at step
        · cases step
          exact .exits 0
        · rename_i chunk rest stored
          cases step
          exact .fgets pc stored
  | write =>
      simp only [pc] at step
      split at step
      · cases step
        exact .fails ⟨rfl, rfl, rfl⟩ _
      · split at step
        · cases step
          exact .fails ⟨rfl, rfl, rfl⟩ _
        · cases step
          exact .writes pc
  | read =>
      simp only [pc] at step
      split at step
      · cases step
        exact .fails ⟨rfl, rfl, rfl⟩ _
      · split at step
        · cases step
        · rename_i data left returned
          split at step
          · cases step
            exact .fails ⟨rfl, rfl, rfl⟩ _
          · rename_i some_byte
            cases step
            exact .reads pc (fun empty => some_byte (empty ▸ rfl)) returned
  | terminate n =>
      simp only [pc] at step
      split at step
      · cases step
      · split at step
        · rename_i stored
          cases step
          exact .overruns pc stored
        · rename_i line stored
          cases step
          exact .terminates pc stored
  | fputs =>
      simp only [pc] at step
      split at step
      · cases step
        exact .fails ⟨rfl, rfl, rfl⟩ _
      · cases step
        exact .fputs pc
  | exited how => simp [pc] at step

theorem stepChild_effect (step : stepChild s fails = some s') : ChildEffect s s' := by
  unfold stepChild at step
  cases pc : s.child with
  | read =>
      simp only [pc] at step
      split at step
      · cases step
        exact .exits _
      · split at step
        · cases step
        · rename_i data left returned
          split at step
          · cases step
            exact .exits _
          · rename_i some_byte
            cases step
            exact .reads pc (fun empty => some_byte (empty ▸ rfl)) returned
  | terminate n =>
      simp only [pc] at step
      split at step
      · cases step
      · split at step
        · rename_i stored
          cases step
          exact .overruns pc stored
        · rename_i line stored
          cases step
          exact .terminates pc stored
  | answer =>
      simp only [pc] at step
      split at step
      · cases step
      · cases step
        exact .answers pc
  | write text =>
      simp only [pc] at step
      split at step
      · cases step
        exact .fails ⟨rfl, rfl, rfl⟩ _
      · split at step
        · cases step
          exact .exits _
        · cases step
          exact .writes pc
  | exited how => simp [pc] at step

end Effects

end UnixDemos.IPC.Coprocess
