/-
# Flock.TellWait — the handshake of tell_wait.c

Two pipes connect a parent and a child: `TELL_PARENT` writes a `p` into the first and
`WAIT_CHILD` reads it, `TELL_CHILD` writes a `c` into the second and `WAIT_PARENT` reads
it.  After `fork` both processes hold both ends of both pipes and never close them, so
a read can see end of file only when no process is left to read.

The programs of the two processes are any lists of calls.  Each byte in a pipe carries
its author, which the code cannot see; the log has one entry for each call that
returned or failed.  `Balanced` counts: what was told is what was waited for, and what
is still in the pipe.
-/
import Mathlib.Logic.Function.Basic
import UnixDemos.Library.Run
import UnixDemos.Library.Stream

namespace UnixDemos.Flock.TellWait

open UnixDemos.Library

set_option autoImplicit false

/-! ## State -/

inductive Process where
  | parent
  | child
  deriving DecidableEq, Repr

def Process.other : Process → Process
  | .parent => .child
  | .child => .parent

inductive Fd where
  | pipefd1
  | pipefd2
  deriving DecidableEq, Repr

structure Token where
  byte : Char
  author : Process
  deriving DecidableEq, Repr

/-- `TELL_CHILD` and `WAIT_CHILD` in the parent, `TELL_PARENT` and `WAIT_PARENT` in the
child. -/
inductive Call where
  | tell
  | wait
  deriving DecidableEq, Repr

/-- Why a process exits with -1. -/
inductive Failure where
  | writeFailed
  | readFailed
  | endOfFile
  | wrongByte
  deriving DecidableEq, Repr

/-- What is printed to `stderr`; both waits have the text of `_wait_parent`. -/
def Failure.message : Failure → String
  | .writeFailed => "write error: %s\n"
  | .readFailed | .endOfFile => "read error: %s\n"
  | .wrongByte => "wait parent error\n"

inductive Io where
  | told (who : Process)
  | waited (who : Process) (author : Process)
  | failed (who : Process) (why : Failure) (message : String)
  deriving DecidableEq, Repr

structure System where
  pipes : Fd → List Token
  todo : Process → List Call
  alive : Process → Bool
  log : List Io

/-- The next step of a process; `fails` is a `write` or `read` that returns -1. -/
structure Move where
  who : Process
  fails : Bool
  deriving DecidableEq, Repr

/-! ## Calls -/

section Calls

variable (s : System)

def System.fail (who : Process) (why : Failure) : System :=
  { s with
    alive := Function.update s.alive who false
    log := s.log ++ [.failed who why why.message] }

/-- `write(fd[1], byte, 1)`. -/
def tell (who : Process) (fd : Fd) (byte : Char) (fails : Bool) : Option System :=
  if fails then some (s.fail who .writeFailed)
  else
    some { s with
      pipes := Function.update s.pipes fd (s.pipes fd ++ [⟨byte, who⟩])
      log := s.log ++ [.told who] }

/-- `read(fd[0], &c, 1)` and the test of `c`; `none` while it blocks. -/
def wait (who : Process) (fd : Fd) (byte : Char) (fails : Bool) : Option System :=
  if fails then some (s.fail who .readFailed)
  else
    match s.pipes fd with
    | [] =>
        if s.alive .parent || s.alive .child then none else some (s.fail who .endOfFile)
    | token :: rest =>
        let s := { s with pipes := Function.update s.pipes fd rest }
        if token.byte ≠ byte then some (s.fail who .wrongByte)
        else some { s with log := s.log ++ [.waited who token.author] }

def tellParent : Bool → Option System := tell s .child .pipefd1 'p'

def waitChild : Bool → Option System := wait s .parent .pipefd1 'p'

def tellChild : Bool → Option System := tell s .parent .pipefd2 'c'

def waitParent : Bool → Option System := wait s .child .pipefd2 'c'

def perform : Process → Call → Bool → Option System
  | .parent, .tell => tellChild s
  | .parent, .wait => waitChild s
  | .child, .tell => tellParent s
  | .child, .wait => waitParent s

/-- A process at the end of its program exits. -/
def System.step (m : Move) : Option System :=
  if s.alive m.who then
    match s.todo m.who with
    | [] => if m.fails then none else some { s with alive := Function.update s.alive m.who false }
    | call :: rest =>
        perform { s with todo := Function.update s.todo m.who rest } m.who call m.fails
  else none

/-- After `TELL_WAIT` and `fork`. -/
def start (parent child : List Call) : System where
  pipes := fun _ => []
  todo := fun who => match who with
    | .parent => parent
    | .child => child
  alive := fun _ => true
  log := []

end Calls

/-! ## Counting -/

/-- The pipe a process reads from, and the byte it expects there. -/
def inbox : Process → Fd
  | .parent => .pipefd1
  | .child => .pipefd2

def letter : Process → Char
  | .parent => 'p'
  | .child => 'c'

@[simp] theorem other_other (who : Process) : who.other.other = who := by cases who <;> rfl

@[simp] theorem other_ne (who : Process) : who.other ≠ who := by cases who <;> decide

@[simp] theorem ne_other (who : Process) : who ≠ who.other := (other_ne who).symm

theorem eq_other_of_ne {reader who : Process} (differ : reader ≠ who) : reader = who.other := by
  cases reader <;> cases who <;> first | rfl | exact absurd rfl differ

@[simp] theorem inbox_inj {reader who : Process} : inbox reader = inbox who ↔ reader = who := by
  cases reader <;> cases who <;> decide

def Io.isTold (who : Process) : Io → Bool
  | .told author => author = who
  | _ => false

def Io.isWaited (who : Process) : Io → Bool
  | .waited reader _ => reader = who
  | _ => false

/-- How many times a process has told the other one, and has returned from a wait. -/
def tells (who : Process) (log : List Io) : Nat := log.countP (Io.isTold who)

def waits (who : Process) (log : List Io) : Nat := log.countP (Io.isWaited who)

/-- At every moment, a process has returned from no more waits than it was told. -/
def Ordered (log : List Io) : Prop :=
  ∀ moment, moment <+: log → ∀ who, waits who moment ≤ tells who.other moment

/-- What can be logged: nobody reads a token of its own, a wrong byte or end of file. -/
def Io.Proper : Io → Prop
  | .told _ => True
  | .waited who author => author = who.other
  | .failed _ why _ => why = .writeFailed ∨ why = .readFailed

structure Balanced (s : System) : Prop where
  count : ∀ who, tells who.other s.log = waits who s.log + (s.pipes (inbox who)).length
  tokens : ∀ who, ∀ token ∈ s.pipes (inbox who), token = ⟨letter who, who.other⟩
  ordered : Ordered s.log
  proper : ∀ entry ∈ s.log, entry.Proper

theorem perform_tell (s : System) (who : Process) (fails : Bool) :
    perform s who .tell fails = tell s who (inbox who.other) (letter who.other) fails := by
  cases who <;> rfl

theorem perform_wait (s : System) (who : Process) (fails : Bool) :
    perform s who .wait fails = wait s who (inbox who) (letter who) fails := by
  cases who <;> rfl

section Steps

variable {s s' : System}

theorem balanced_start (parent child : List Call) : Balanced (start parent child) where
  count _ := rfl
  tokens := nofun
  ordered moment earlier who := by
    rw [List.prefix_nil.mp earlier]
    exact Nat.le_refl 0
  proper := nofun

/-- One more entry: the counts at the last moment give the order. -/
theorem Balanced.logged (balanced : Balanced s) {entry : Io} (log : s'.log = s.log ++ [entry])
    (count : ∀ who, tells who.other s'.log = waits who s'.log + (s'.pipes (inbox who)).length)
    (tokens : ∀ who, ∀ token ∈ s'.pipes (inbox who), token = ⟨letter who, who.other⟩)
    (proper : entry.Proper) : Balanced s' where
  count := count
  tokens := tokens
  ordered moment earlier who := by
    rw [log, List.prefix_concat_iff] at earlier
    rcases earlier with now | before
    · rw [now, ← log, count who]
      exact Nat.le_add_right _ _
    · exact balanced.ordered moment before who
  proper := by
    rw [log]
    exact forall_mem_snoc.mpr ⟨balanced.proper, proper⟩

theorem Balanced.fail (balanced : Balanced s) (who : Process) {why : Failure}
    (allowed : why = .writeFailed ∨ why = .readFailed) : Balanced (s.fail who why) := by
  refine balanced.logged rfl ?_ balanced.tokens allowed
  intro reader
  simpa [System.fail, tells, waits, Io.isTold, Io.isWaited] using balanced.count reader

/-- Only the pipe to the other process gets the token. -/
theorem Balanced.tell (balanced : Balanced s) (who : Process) :
    Balanced { s with
      pipes := Function.update s.pipes (inbox who.other)
        (s.pipes (inbox who.other) ++ [⟨letter who.other, who⟩])
      log := s.log ++ [.told who] } := by
  refine balanced.logged rfl ?_ ?_ trivial
  · intro reader
    have before := balanced.count reader
    by_cases own : reader = who
    · subst own
      simpa [tells, waits, Io.isTold, Io.isWaited, Function.update_apply] using before
    · rw [eq_other_of_ne own] at before ⊢
      simp only [other_other] at before ⊢
      simp [tells, waits, Io.isTold, Io.isWaited] at before ⊢
      omega
  · intro reader token member
    dsimp only at member
    by_cases own : reader = who
    · subst own
      rw [Function.update_of_ne (by simp)] at member
      exact balanced.tokens reader token member
    · rw [eq_other_of_ne own] at member ⊢
      rw [Function.update_self] at member
      refine forall_mem_snoc.mpr ⟨balanced.tokens _, ?_⟩ token member
      rw [other_other]

/-- A process takes the oldest token of its own pipe, which the other one wrote. -/
theorem Balanced.waited (balanced : Balanced s) {who : Process} {token : Token}
    {rest : List Token} (pipe : s.pipes (inbox who) = token :: rest) :
    Balanced { s with
      pipes := Function.update s.pipes (inbox who) rest
      log := s.log ++ [.waited who token.author] } := by
  have tokens := balanced.tokens who
  rw [pipe, List.forall_mem_cons] at tokens
  refine balanced.logged rfl ?_ ?_ (by rw [tokens.1]; rfl)
  · intro reader
    have before := balanced.count reader
    by_cases own : reader = who
    · subst own
      rw [pipe] at before
      simp [tells, waits, Io.isTold, Io.isWaited] at before ⊢
      omega
    · have other : who ≠ reader := fun same => own same.symm
      simpa [tells, waits, Io.isTold, Io.isWaited, Function.update_apply, own, other] using before
  · intro reader later member
    dsimp only at member
    by_cases own : reader = who
    · subst own
      rw [Function.update_self] at member
      exact tokens.2 later member
    · rw [Function.update_of_ne (by simpa using own)] at member
      exact balanced.tokens reader later member

theorem Balanced.step (balanced : Balanced s) {m : Move} (stepped : s.step m = some s') :
    Balanced s' := by
  unfold System.step at stepped
  split at stepped
  · rename_i alive
    split at stepped
    · split at stepped
      · cases stepped
      · cases stepped
        exact ⟨balanced.count, balanced.tokens, balanced.ordered, balanced.proper⟩
    · rename_i call rest _
      have called : Balanced { s with todo := Function.update s.todo m.who rest } :=
        ⟨balanced.count, balanced.tokens, balanced.ordered, balanced.proper⟩
      cases call with
      | tell =>
          rw [perform_tell] at stepped
          unfold TellWait.tell at stepped
          split at stepped
          · cases stepped
            exact called.fail m.who (Or.inl rfl)
          · cases stepped
            exact called.tell m.who
      | wait =>
          rw [perform_wait] at stepped
          simp only [TellWait.wait] at stepped
          split at stepped
          · cases stepped
            exact called.fail m.who (Or.inr rfl)
          · split at stepped
            · -- the reader itself holds a write end
              have open_ : (s.alive .parent || s.alive .child) = true := by
                rcases m with ⟨_ | _, _⟩ <;> simp_all
              rw [if_pos open_] at stepped
              cases stepped
            · rename_i token left pipe
              have byte : token.byte = letter m.who := by
                rw [called.tokens m.who token (by rw [pipe]; exact List.mem_cons_self)]
              rw [if_neg (by simp [byte])] at stepped
              cases stepped
              exact called.waited pipe
  · cases stepped

/-- A wait blocks exactly as long as the process was told no more often than it has waited. -/
theorem Balanced.wait_blocks_iff (balanced : Balanced s) {who : Process} {rest : List Call}
    (alive : s.alive who = true) (next : s.todo who = .wait :: rest) :
    s.step ⟨who, false⟩ = none ↔ tells who.other s.log = waits who s.log := by
  have open_ : (s.alive .parent || s.alive .child) = true := by cases who <;> simp [alive]
  simp only [System.step, alive, if_true, next, perform_wait, TellWait.wait, balanced.count who]
  cases pipe : s.pipes (inbox who) with
  | nil => simp [open_]
  | cons token left =>
      by_cases byte : token.byte = letter who <;> simp [byte]

end Steps

/-- **The handshake.**  For any two programs and every interleaving, at every moment of the
log the parent has returned from no more `WAIT_CHILD` than the child has called
`TELL_PARENT`, and the child from no more `WAIT_PARENT` than the parent has called
`TELL_CHILD`; no process reads a token of its own; and a process fails only if `write`
or `read` does. -/
theorem tell_wait_handshake {parent child : List Call} {moves : List Move} {s : System}
    (ran : run System.step (start parent child) moves = some s) :
    Ordered s.log ∧ (∀ who author, .waited who author ∈ s.log → author ≠ who) ∧
      ∀ who why message, .failed who why message ∈ s.log →
        why = .writeFailed ∨ why = .readFailed := by
  have balanced : Balanced s :=
    run_invariant _ Balanced (fun _ _ _ balanced stepped => balanced.step stepped)
      (balanced_start parent child) ran
  refine ⟨balanced.ordered, ?_, ?_⟩
  · intro who author member
    have foreign : author = who.other := balanced.proper _ member
    rw [foreign]
    exact other_ne who
  · intro who why message member
    exact balanced.proper _ member

/-- Both processes of deadlock.c tell and then wait. -/
def deadlockMoves : List Move :=
  [⟨.parent, false⟩, ⟨.child, false⟩, ⟨.child, false⟩, ⟨.parent, false⟩, ⟨.child, false⟩]

theorem deadlockMoves_run :
    (run System.step (start [.tell, .wait] [.tell, .wait]) deadlockMoves).map System.log =
      some [.told .parent, .told .child, .waited .child .parent, .waited .parent .child] := by
  rfl

theorem tell_wait_handshake_deadlock :
    ∃ s, run System.step (start [.tell, .wait] [.tell, .wait]) deadlockMoves = some s ∧
      waits .parent s.log = 1 ∧ Ordered s.log := by
  obtain ⟨s, ran, log⟩ := Option.map_eq_some_iff.mp deadlockMoves_run
  exact ⟨s, ran, by rw [log]; rfl, (tell_wait_handshake ran).1⟩

end UnixDemos.Flock.TellWait
