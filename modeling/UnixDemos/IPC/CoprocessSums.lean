/-
# IPC.CoprocessSums — sums from end to end

In every phase one of the two processes can move and the other waits for it
(`Lockstep.moves`), so as long as no call fails the parent comes to the end of standard
input, with a reply printed for every line.  For lines of two `int`s these are the sums.
-/
import UnixDemos.IPC.Add2Sum
import UnixDemos.IPC.CoprocessLockstep

namespace UnixDemos.IPC.Coprocess

open UnixDemos.Library
open UnixDemos.IPC.Add2 (maxLine reply answer FitsInt sumLine)

set_option autoImplicit false

/-! ## Whose turn it is -/

/-- The process that has the current line, or its reply. -/
def Phase.turn : Phase → Process
  | .ready | .asking _ | .answered _ | .got _ | .showing _ => .parent
  | .asked _ | .taken _ | .parsing _ | .answering _ => .child

def Process.other : Process → Process
  | .parent => .child
  | .child => .parent

/-- The steps until the current line is done. -/
def Phase.left : Phase → Nat
  | .ready => 0
  | .asking _ => 8
  | .asked _ => 7
  | .taken _ => 6
  | .parsing _ => 5
  | .answering _ => 4
  | .answered _ => 3
  | .got _ => 2
  | .showing _ => 1

section Turns

variable {stdin : Bytes} {s s' : System} {phase : Phase} {done : List Bytes}

/-- Both processes run, in lockstep. -/
structure Working (stdin : Bytes) (s : System) (phase : Phase) (done : List Bytes) : Prop where
  lockstep : Lockstep stdin s phase done
  parent : s.parent = phase.parentPc
  child : s.child = phase.childPc

theorem Phase.parentPc_running (phase : Phase) : phase.parentPc.running = true := by
  cases phase <;> rfl

theorem Phase.childPc_running (phase : Phase) : phase.childPc.running = true := by
  cases phase <;> rfl

theorem Working.parent_running (working : Working stdin s phase done) :
    s.parent.running = true := working.parent ▸ phase.parentPc_running

theorem Working.child_running (working : Working stdin s phase done) :
    s.child.running = true := working.child ▸ phase.childPc_running

/-- The process whose turn it is not waits in `read`, for a message that is not there. -/
theorem Working.waits (working : Working stdin s phase done) :
    s.step ⟨phase.turn.other, false⟩ = none := by
  have parent := working.parent
  have child := working.child
  have requests := working.lockstep.requests
  have replies := working.lockstep.replies
  have parentRuns := working.parent_running
  have childRuns := working.child_running
  cases phase <;>
    simp_all [Phase.turn, Process.other, System.step, stepParent, stepChild, Phase.parentPc,
      Phase.childPc, Phase.requests, Phase.replies, Pipe.read]

/-- Standard input is at its end, or the process whose turn it is brings the line on. -/
theorem Working.moves (working : Working stdin s phase done) :
    (phase = .ready ∧ s.stdin = [] ∧ s.step ⟨.parent, false⟩ = some (s.parentExit 0)) ∨
      ∃ t phase' done', s.step ⟨phase.turn, false⟩ = some t ∧ Working stdin t phase' done' ∧
        9 * t.stdin.length + phase'.left < 9 * s.stdin.length + phase.left := by
  obtain ⟨here, parent, child⟩ := id working
  have parentRuns := working.parent_running
  have childRuns := working.child_running
  cases phase with
  | ready =>
      cases call : fgets maxLine s.stdin with
      | none =>
          refine Or.inl ⟨rfl, fgets_eq_none call, ?_⟩
          simp [System.step, stepParent, parent, Phase.parentPc, call]
      | some stored =>
          obtain ⟨chunk, rest⟩ := stored
          have shorter := fgets_smaller (by decide) _ _ _ call
          refine Or.inr ⟨_, _, _, ?_, ⟨here.fgets call, rfl, child⟩, ?_⟩
          · simp [Phase.turn, System.step, stepParent, parent, Phase.parentPc, call]
          · simp only [Phase.left]
            omega
  | asking chunk =>
      refine Or.inr ⟨_, _, _, ?_, ⟨here.write, rfl, child⟩, Nat.lt_succ_self _⟩
      simp [Phase.turn, System.step, stepParent, parent, Phase.parentPc, childRuns]
  | asked chunk =>
      obtain ⟨-, nonempty, short⟩ := here.current chunk (List.mem_singleton.mpr rfl)
      have message := Pipe.read_single nonempty (Nat.le_of_lt short) s.parent.running
      have requests : s.requests = [chunk] := here.requests
      rw [← requests] at message
      refine Or.inr ⟨_, _, _, ?_, ⟨here.childRead, parent, rfl⟩, Nat.lt_succ_self _⟩
      simp [Phase.turn, System.step, stepChild, child, Phase.childPc, message, nonempty]
  | taken chunk =>
      obtain ⟨line, stored, next⟩ := here.childTerminate
      refine Or.inr ⟨_, _, _, ?_, ⟨next, parent, rfl⟩, Nat.lt_succ_self _⟩
      simp [Phase.turn, System.step, stepChild, child, Phase.childPc, stored]
  | parsing chunk =>
      have text := (Add2.answer_eq here.childHolds here.childFits).1
      refine Or.inr ⟨_, _, _, ?_, ⟨here.childAnswer, parent, ?_⟩, Nat.lt_succ_self _⟩
      · simp [Phase.turn, System.step, stepChild, child, Phase.childPc]
      · rw [text]
        rfl
  | answering chunk =>
      refine Or.inr ⟨_, _, _, ?_, ⟨here.childWrite, parent, rfl⟩, Nat.lt_succ_self _⟩
      simp [Phase.turn, System.step, stepChild, child, Phase.childPc, parentRuns]
  | answered chunk =>
      have short := Nat.le_trans (Add2.length_reply_le chunk) (show 13 ≤ maxLine by decide)
      have message := Pipe.read_single (Add2.reply_ne_nil chunk) short s.child.running
      have replies : s.replies = [reply chunk] := here.replies
      rw [← replies] at message
      refine Or.inr ⟨_, _, _, ?_, ⟨here.read, rfl, child⟩, Nat.lt_succ_self _⟩
      simp [Phase.turn, System.step, stepParent, parent, Phase.parentPc, message,
        Add2.reply_ne_nil]
  | got chunk =>
      obtain ⟨line, stored, next⟩ := here.terminate
      refine Or.inr ⟨_, _, _, ?_, ⟨next, rfl, child⟩, Nat.lt_succ_self _⟩
      simp [Phase.turn, System.step, stepParent, parent, Phase.parentPc, stored]
  | showing chunk =>
      refine Or.inr ⟨_, _, _, ?_, ⟨here.fputs, rfl, child⟩, Nat.lt_succ_self _⟩
      simp [Phase.turn, System.step, stepParent, parent, Phase.parentPc]

/-- The parent has exited at the end of standard input, and has printed all replies. -/
structure Finished (stdin : Bytes) (s : System) : Prop where
  parent : s.parent = .exited (.status 0)
  printed : printedIn s.log = (fgetsChunks maxLine stdin).map reply

theorem Working.finished (working : Working stdin s .ready done) (ended : s.stdin = []) :
    Finished stdin (s.parentExit 0) := by
  refine ⟨rfl, ?_⟩
  have chunks := working.lockstep.chunks
  rw [ended, fgetsChunks_nil, Phase.current, List.append_nil, List.append_nil] at chunks
  rw [chunks]
  exact working.lockstep.printed

/-- What can happen after the parent has exited. -/
theorem Finished.step (finished : Finished stdin s) {m : Move} (stepped : s.step m = some s') :
    Finished stdin s' := by
  obtain ⟨parent, printed⟩ := finished
  obtain ⟨who, fails⟩ := m
  cases who with
  | parent =>
      simp only [System.step, stepParent, parent] at stepped
      cases stepped
  | child =>
      cases stepChild_effect stepped with
      | exits how => exact ⟨parent, printed⟩
      | fails quiet how =>
          refine ⟨parent, ?_⟩
          simpa [System.childExit, System.note, quiet.2.2] using printed
      | reads pc nonempty returned =>
          refine ⟨parent, ?_⟩
          simpa [System.note, Io.printed] using printed
      | overruns pc stored => exact ⟨parent, printed⟩
      | terminates pc stored => exact ⟨parent, printed⟩
      | answers pc => exact ⟨parent, printed⟩
      | writes pc => exact ⟨parent, printed⟩

/-- Both processes can be brought to the end of standard input. -/
theorem Working.finishes (working : Working stdin s phase done) :
    Leads System.step s (Finished stdin) := by
  induction left : 9 * s.stdin.length + phase.left using Nat.strong_induction_on
    generalizing s phase done with
  | _ left' ih =>
      rcases working.moves with ⟨rfl, ended, exits⟩ | ⟨t, phase', done', stepped, next, less⟩
      · exact leads_step _ exits (leads_here (working.finished ended))
      · exact leads_step _ stepped (ih _ (left ▸ less) next rfl)

/-- A step in which no call fails is one that has its turn. -/
theorem Working.step (working : Working stdin s phase done) {m : Move} (calm : m.fails = false)
    (stepped : s.step m = some s') :
    (∃ phase' done', Working stdin s' phase' done') ∨ Finished stdin s' := by
  obtain ⟨who, fails⟩ := m
  cases calm
  have turn : who = phase.turn := by
    have waits := working.waits
    cases who <;> cases phase_turn : phase.turn <;> simp_all [Process.other]
  subst turn
  rcases working.moves with ⟨rfl, ended, exits⟩ | ⟨t, phase', done', moved, next, -⟩
  · cases exits.symm.trans stepped
    exact Or.inr (working.finished ended)
  · cases moved.symm.trans stepped
    exact Or.inl ⟨phase', done', next⟩

end Turns

/-! ## Result -/

theorem reply_sumLine {a b : Int} (intA : FitsInt a) (intB : FitsInt b) :
    reply (sumLine a b) = printInt (wrap32 (a + b)) ++ [newline] := by
  rw [reply, Add2.sscanfTwo_sumLine intA intB]

/-- Pairs of `int`s, one pair on a line. -/
def sumLines (pairs : List (Int × Int)) : Bytes :=
  (pairs.map fun pair => sumLine pair.1 pair.2).flatten

/-- What is printed for them. -/
def sums (pairs : List (Int × Int)) : List Bytes :=
  pairs.map fun pair => printInt (wrap32 (pair.1 + pair.2)) ++ [newline]

section Sums

variable {pairs : List (Int × Int)}

theorem nulFree_sumLines (pairs : List (Int × Int)) : NulFree (sumLines pairs) := by
  induction pairs with
  | nil => decide
  | cons pair pairs ih => exact nulFree_append.mpr ⟨Add2.nulFree_sumLine pair.1 pair.2, ih⟩

/-- `fgets` cuts standard input into the pairs, and the replies are the sums. -/
theorem replies_eq_sums (ints : ∀ pair ∈ pairs, FitsInt pair.1 ∧ FitsInt pair.2) :
    (fgetsChunks maxLine (sumLines pairs)).map reply = sums pairs := by
  rw [sumLines, fgetsChunks_lines (by decide), List.map_map]
  · apply List.map_congr_left
    intro pair member
    exact reply_sumLine (ints pair member).1 (ints pair member).2
  · intro line printed
    obtain ⟨pair, member, rfl⟩ := List.mem_map.mp printed
    have short := Add2.length_sumLine_le (ints pair member).1 (ints pair member).2
    refine ⟨⟨printInt pair.1 ++ ([32] ++ printInt pair.2), by simp [sumLine], ?_⟩, ?_⟩
    · have blank : newline ∉ [32] := by decide
      simp only [List.mem_append, not_or]
      exact ⟨Add2.newline_notMem_printInt _, blank, Add2.newline_notMem_printInt _⟩
    · have room : 0 < maxLine := by decide
      omega

theorem run_working {stdin parentLine childLine : Bytes} {moves : List Move} {s : System}
    (nulFree : NulFree stdin) (parentFits : parentLine.length = maxLine)
    (childFits : childLine.length = maxLine) (calm : ∀ m ∈ moves, m.fails = false)
    (reached : run System.step (start stdin parentLine childLine) moves = some s) :
    (∃ phase done, Working stdin s phase done) ∨ Finished stdin s :=
  run_along System.step
    (fun s => (∃ phase done, Working stdin s phase done) ∨ Finished stdin s)
    (fun _ _ _ inv calm stepped => inv.elim
      (fun ⟨_, _, working⟩ => working.step calm stepped)
      (fun finished => Or.inr (finished.step stepped)))
    (Or.inl ⟨.ready, [], start_lockstep nulFree parentFits childFits, rfl, rfl⟩)
    (along_of_forall System.step calm) reached

end Sums

/-- **Sums, end to end.**  For any pairs of `int`s on standard input, whatever the schedule
and whichever calls fail, the parent prints the sums modulo 2^32, in order, and has printed
some of the first of them.  As long as both processes run they can be brought to the end of
standard input with all of them printed; and if no call failed the parent does not exit
before. -/
theorem coprocess_sums {pairs : List (Int × Int)} {parentLine childLine : Bytes}
    {moves : List Move} {s : System}
    (ints : ∀ pair ∈ pairs, FitsInt pair.1 ∧ FitsInt pair.2)
    (parentFits : parentLine.length = maxLine) (childFits : childLine.length = maxLine)
    (reached : run System.step (start (sumLines pairs) parentLine childLine) moves = some s) :
    printedIn s.log <+: sums pairs ∧
      (s.parent.running = true → s.child.running = true → Leads System.step s fun t =>
        t.parent = .exited (.status 0) ∧ printedIn t.log = sums pairs) ∧
      ((∀ m ∈ moves, m.fails = false) → s.parent.running = false →
        s.parent = .exited (.status 0) ∧ printedIn s.log = sums pairs) := by
  have nulFree := nulFree_sumLines pairs
  obtain ⟨phase, done, here⟩ := run_lockstep nulFree parentFits childFits reached
  rw [← replies_eq_sums ints]
  refine ⟨?_, fun parentRuns childRuns => ?_, fun calm ended => ?_⟩
  · rw [here.printed, here.chunks, List.append_assoc, List.map_append]
    exact List.prefix_append _ _
  · have working : Working (sumLines pairs) s phase done :=
      ⟨here, here.parent parentRuns, here.child childRuns⟩
    exact working.finishes.trans fun t finished => leads_here ⟨finished.parent, finished.printed⟩
  · rcases run_working nulFree parentFits childFits calm reached with
      ⟨_, _, working⟩ | finished
    · rw [working.parent_running] at ended
      cases ended
    · exact ⟨finished.parent, finished.printed⟩

/-- The parent has sent `1 -5`, and the pair that follows does not fit. -/
theorem coprocess_sums_overflow : ∃ s,
    run System.step (start (sumLines [(1, -5), (2147483647, 1)]) (zeros maxLine) (zeros maxLine))
        [⟨.parent, false⟩, ⟨.parent, false⟩] = some s ∧
      Leads System.step s fun t => t.parent = .exited (.status 0) ∧
        printedIn t.log = [printInt (-4) ++ [newline], printInt (-2147483648) ++ [newline]] := by
  have observed : (run System.step
      (start (sumLines [(1, -5), (2147483647, 1)]) (zeros maxLine) (zeros maxLine))
        [⟨.parent, false⟩, ⟨.parent, false⟩]).map
          (fun s => (s.parent.running, s.child.running)) = some (true, true) := by
    decide +kernel
  obtain ⟨s, reached, running⟩ := Option.map_eq_some_iff.mp observed
  obtain ⟨parentRuns, childRuns⟩ := Prod.mk.inj running
  obtain ⟨-, finishes, -⟩ := coprocess_sums (by decide) (by decide +kernel) (by decide +kernel)
    reached
  exact ⟨s, reached, finishes parentRuns childRuns⟩

end UnixDemos.IPC.Coprocess
