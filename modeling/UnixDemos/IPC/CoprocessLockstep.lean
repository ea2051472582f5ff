/-
# IPC.CoprocessLockstep — one line at a time

Parent and coprocess never work at the same time: the line that is being handled
is in one place, and `Phase` says where.  From the phase follow the program
counters, the buffers and what is in the pipes, unless a process has exited;
`Lockstep` is that, together with the lines that are done.  An exit does not
change the phase.

The request carries no length and no terminator.  That a read gets exactly one
message is due to the phases alone: nothing else is ever in the pipe.
-/
import UnixDemos.IPC.Coprocess

namespace UnixDemos.IPC.Coprocess

open UnixDemos.Library
open UnixDemos.IPC.Add2 (maxLine reply answer)

set_option autoImplicit false

/-! ## Phases -/

/-- Where the current chunk of standard input, or the reply to it, is. -/
inductive Phase where
  | ready
  | asking (chunk : Bytes)
  | asked (chunk : Bytes)
  | taken (chunk : Bytes)
  | parsing (chunk : Bytes)
  | answering (chunk : Bytes)
  | answered (chunk : Bytes)
  | got (chunk : Bytes)
  | showing (chunk : Bytes)

namespace Phase

def current : Phase → List Bytes
  | ready => []
  | asking chunk | asked chunk | taken chunk | parsing chunk | answering chunk | answered chunk
  | got chunk | showing chunk => [chunk]

/-- The current chunk, once the parent has written it. -/
def written : Phase → List Bytes
  | ready | asking _ => []
  | asked chunk | taken chunk | parsing chunk | answering chunk | answered chunk | got chunk
  | showing chunk => [chunk]

/-- The current chunk, once `add2` has read it. -/
def received : Phase → List Bytes
  | ready | asking _ | asked _ => []
  | taken chunk | parsing chunk | answering chunk | answered chunk | got chunk
  | showing chunk => [chunk]

def parentPc : Phase → ParentPc
  | ready => .fgets
  | asking _ => .write
  | asked _ | taken _ | parsing _ | answering _ | answered _ => .read
  | got chunk => .terminate (reply chunk).length
  | showing _ => .fputs

def childPc : Phase → ChildPc
  | taken chunk => .terminate chunk.length
  | parsing _ => .answer
  | answering chunk => .write (reply chunk)
  | _ => .read

def requests : Phase → Pipe
  | asked chunk => [chunk]
  | _ => []

def replies : Phase → Pipe
  | answered chunk => [reply chunk]
  | _ => []

/-- What the parent's buffer holds. -/
def ParentHolds (line : Bytes) : Phase → Prop
  | asking chunk => cstr line = chunk
  | got chunk => ∃ old : Bytes, old.length = maxLine ∧ line = overwrite old (reply chunk)
  | showing chunk => cstr line = reply chunk
  | _ => True

/-- What the buffer of `add2` holds. -/
def ChildHolds (line : Bytes) : Phase → Prop
  | taken chunk => ∃ old : Bytes, old.length = maxLine ∧ line = overwrite old chunk
  | parsing chunk => cstr line = chunk
  | _ => True

end Phase

structure Lockstep (stdin : Bytes) (s : System) (phase : Phase) (done : List Bytes) : Prop where
  chunks : fgetsChunks maxLine stdin = done ++ phase.current ++ fgetsChunks maxLine s.stdin
  nulFree : NulFree s.stdin
  current : ∀ chunk ∈ phase.current, NulFree chunk ∧ chunk ≠ [] ∧ chunk.length < maxLine
  parent : s.parent.running = true → s.parent = phase.parentPc
  child : s.child.running = true → s.child = phase.childPc
  requests : s.requests = phase.requests
  replies : s.replies = phase.replies
  parentFits : s.parentLine.length = maxLine
  childFits : s.childLine.length = maxLine
  parentHolds : phase.ParentHolds s.parentLine
  childHolds : phase.ChildHolds s.childLine
  written : writtenIn s.log = done ++ phase.written
  received : receivedIn s.log = done ++ phase.received
  printed : printedIn s.log = done.map reply
  inside : s.outside = false

section Steps

variable {stdin chunk : Bytes} {s s' : System} {phase : Phase} {done : List Bytes}

/-- The parent stops, with a message or without. -/
theorem Lockstep.parentExit (here : Lockstep stdin s phase done) (code : Int) :
    Lockstep stdin (s.parentExit code) phase done :=
  { here with parent := fun running => by cases running }

theorem Lockstep.childExit (here : Lockstep stdin s phase done) (how : Exit) :
    Lockstep stdin (s.childExit how) phase done :=
  { here with child := fun running => by cases running }

/-- An entry of the log that is none of the three kinds. -/
theorem Lockstep.note (here : Lockstep stdin s phase done) {entry : Io} (message : entry.Quiet) :
    Lockstep stdin (s.note entry) phase done :=
  { here with
    written := by
      show writtenIn (s.log ++ [entry]) = _
      rw [← here.written]
      simp [message.1]
    received := by
      show receivedIn (s.log ++ [entry]) = _
      rw [← here.received]
      simp [message.2.1]
    printed := by
      show printedIn (s.log ++ [entry]) = _
      rw [← here.printed]
      simp [message.2.2] }

/-! ## The parent's steps -/

theorem Lockstep.fgets (here : Lockstep stdin s .ready done) {rest : Bytes}
    (stored : fgets maxLine s.stdin = some (chunk, rest)) :
    Lockstep stdin { s with
      stdin := rest
      parentLine := overwrite s.parentLine (chunk ++ [0])
      parent := .write } (.asking chunk) done := by
  obtain ⟨whole, nonempty, short⟩ := fgets_spec (show 2 ≤ maxLine by decide) stored
  have nulFree := here.nulFree
  rw [whole] at nulFree
  obtain ⟨chunkFree, restFree⟩ := nulFree_append.mp nulFree
  have fits : (chunk ++ [0]).length ≤ s.parentLine.length := by
    rw [here.parentFits, List.length_append, List.length_singleton]
    exact short
  refine { here with
    chunks := ?_
    nulFree := restFree
    current := ?_
    parent := fun _ => rfl
    parentFits := (length_overwrite fits).trans here.parentFits
    parentHolds := cstr_overwrite chunkFree s.parentLine }
  · have chunks := here.chunks
    rw [fgetsChunks_cons (by decide) stored] at chunks
    simpa [Phase.current] using chunks
  · intro c member
    rw [List.mem_singleton.mp member]
    exact ⟨chunkFree, nonempty, short⟩

theorem Lockstep.write (here : Lockstep stdin s (.asking chunk) done) :
    Lockstep stdin
      { s.note (.wrote (cstr s.parentLine)) with
        requests := s.requests.write (cstr s.parentLine)
        parent := .read } (.asked chunk) done := by
  have text : cstr s.parentLine = chunk := here.parentHolds
  have nonempty := (here.current chunk (List.mem_singleton.mpr rfl)).2.1
  have empty : s.requests = [] := here.requests
  rw [text]
  refine { here with
    parent := fun _ => rfl
    requests := ?_
    parentHolds := trivial
    written := ?_
    received := ?_
    printed := ?_ }
  · show s.requests.write chunk = [chunk]
    rw [empty]
    exact Pipe.write_empty nonempty
  · have before := here.written
    simpa [System.note, Io.written, Phase.written] using before
  · have before := here.received
    simpa [System.note, Io.received, Phase.received] using before
  · have before := here.printed
    simpa [System.note, Io.printed] using before

theorem Lockstep.read (here : Lockstep stdin s (.answered chunk) done) :
    Lockstep stdin { s with
      parentLine := overwrite s.parentLine (reply chunk)
      replies := []
      parent := .terminate (reply chunk).length } (.got chunk) done := by
  have short := Add2.length_reply_le chunk
  have fits : (reply chunk).length ≤ s.parentLine.length := by
    rw [here.parentFits]
    exact Nat.le_trans short (by decide)
  exact { here with
    parent := fun _ => rfl
    replies := rfl
    parentFits := (length_overwrite fits).trans here.parentFits
    parentHolds := ⟨s.parentLine, here.parentFits, rfl⟩ }

/-- The reply ends inside the buffer, so `line[n] = 0` is a store into it. -/
theorem Lockstep.terminate (here : Lockstep stdin s (.got chunk) done) :
    ∃ line, store s.parentLine (reply chunk).length 0 = some line ∧
      Lockstep stdin { s with parentLine := line, parent := .fputs } (.showing chunk) done := by
  obtain ⟨old, fits, same⟩ := here.parentHolds
  have short := Add2.length_reply_le chunk
  have inside : (reply chunk).length < old.length := by
    rw [fits]
    exact Nat.lt_of_le_of_lt short (by decide)
  refine ⟨overwrite old (reply chunk ++ [0]), same ▸ store_overwrite 0 inside, ?_⟩
  exact { here with
    parent := fun _ => rfl
    parentFits := (length_overwrite (by simpa using inside)).trans fits
    parentHolds := cstr_overwrite (Add2.nulFree_reply chunk) old }

theorem Lockstep.fputs (here : Lockstep stdin s (.showing chunk) done) :
    Lockstep stdin { s.note (.fputs (cstr s.parentLine)) with parent := .fgets } .ready
      (done ++ [chunk]) := by
  have text : cstr s.parentLine = reply chunk := here.parentHolds
  rw [text]
  refine { here with
    chunks := ?_
    current := fun c member => absurd member List.not_mem_nil
    parent := fun _ => rfl
    parentHolds := trivial
    childHolds := trivial
    written := ?_
    received := ?_
    printed := ?_ }
  · have before := here.chunks
    simpa [System.note, Phase.current] using before
  · have before := here.written
    simpa [System.note, Io.written, Phase.written] using before
  · have before := here.received
    simpa [System.note, Io.received, Phase.received] using before
  · have before := here.printed
    simpa [System.note, Io.printed] using before

/-! ## The child's steps -/

theorem Lockstep.childRead (here : Lockstep stdin s (.asked chunk) done) :
    Lockstep stdin
      { s.note (.add2Read chunk) with
        childLine := overwrite s.childLine chunk
        requests := []
        child := .terminate chunk.length } (.taken chunk) done := by
  have short := (here.current chunk (List.mem_singleton.mpr rfl)).2.2
  have fits : chunk.length ≤ s.childLine.length := by
    rw [here.childFits]
    exact Nat.le_of_lt short
  refine { here with
    child := fun _ => rfl
    requests := rfl
    childFits := (length_overwrite fits).trans here.childFits
    childHolds := ⟨s.childLine, here.childFits, rfl⟩
    written := ?_
    received := ?_
    printed := ?_ }
  · have before := here.written
    simpa [System.note, Io.written, Phase.written] using before
  · have before := here.received
    simpa [System.note, Io.received, Phase.received] using before
  · have before := here.printed
    simpa [System.note, Io.printed] using before

/-- The chunk ends inside the buffer of `add2` too. -/
theorem Lockstep.childTerminate (here : Lockstep stdin s (.taken chunk) done) :
    ∃ line, store s.childLine chunk.length 0 = some line ∧
      Lockstep stdin { s with childLine := line, child := .answer } (.parsing chunk) done := by
  obtain ⟨old, fits, same⟩ := here.childHolds
  obtain ⟨chunkFree, -, short⟩ := here.current chunk (List.mem_singleton.mpr rfl)
  have inside : chunk.length < old.length := fits.symm ▸ short
  refine ⟨overwrite old (chunk ++ [0]), same ▸ store_overwrite 0 inside, ?_⟩
  exact { here with
    child := fun _ => rfl
    childFits := (length_overwrite (by simpa using inside)).trans fits
    childHolds := cstr_overwrite chunkFree old }

theorem Lockstep.childAnswer (here : Lockstep stdin s (.parsing chunk) done) :
    Lockstep stdin { s with
      childLine := (answer s.childLine).1
      child := .write (answer s.childLine).2 } (.answering chunk) done := by
  obtain ⟨text, fits⟩ := Add2.answer_eq here.childHolds here.childFits
  rw [text]
  exact { here with
    child := fun _ => rfl
    childFits := fits
    childHolds := trivial }

theorem Lockstep.childWrite (here : Lockstep stdin s (.answering chunk) done) :
    Lockstep stdin { s with replies := s.replies.write (reply chunk), child := .read }
      (.answered chunk) done := by
  have empty : s.replies = [] := here.replies
  refine { here with
    child := fun _ => rfl
    replies := ?_ }
  show s.replies.write (reply chunk) = [reply chunk]
  rw [empty]
  exact Pipe.write_empty (Add2.reply_ne_nil chunk)

/-! ## Every step keeps in lockstep -/

theorem Lockstep.stepParent (here : Lockstep stdin s phase done) {fails : Bool}
    (step : stepParent s fails = some s') : ∃ phase done, Lockstep stdin s' phase done := by
  cases stepParent_effect step with
  | exits code => exact ⟨_, _, here.parentExit code⟩
  | fails quiet code => exact ⟨_, _, (here.note quiet).parentExit code⟩
  | fgets pc stored =>
      have place := here.parent (by rw [pc]; rfl)
      rw [pc] at place
      cases phase <;> cases place
      exact ⟨_, _, here.fgets stored⟩
  | writes pc =>
      have place := here.parent (by rw [pc]; rfl)
      rw [pc] at place
      cases phase <;> cases place
      exact ⟨_, _, here.write⟩
  | reads pc nonempty returned =>
      have replies := here.replies
      -- there is something to read in one phase only
      by_cases empty : phase.replies = []
      · rw [replies, empty] at returned
        exact absurd (Pipe.read_empty returned) nonempty
      · cases phase with
        | answered chunk =>
            have fits : (reply chunk).length ≤ maxLine :=
              Nat.le_trans (Add2.length_reply_le chunk) (by decide)
            have single := Pipe.read_single (Add2.reply_ne_nil chunk) fits s.child.running
            rw [replies, Phase.replies, single] at returned
            cases returned
            exact ⟨_, _, here.read⟩
        | _ => exact absurd rfl empty
  | overruns pc stored =>
      have place := here.parent (by rw [pc]; rfl)
      rw [pc] at place
      cases phase <;> cases place
      obtain ⟨line, inside, -⟩ := here.terminate
      rw [inside] at stored
      cases stored
  | terminates pc stored =>
      have place := here.parent (by rw [pc]; rfl)
      rw [pc] at place
      cases phase <;> cases place
      obtain ⟨line, inside, next⟩ := here.terminate
      rw [inside] at stored
      cases stored
      exact ⟨_, _, next⟩
  | fputs pc =>
      have place := here.parent (by rw [pc]; rfl)
      rw [pc] at place
      cases phase <;> cases place
      exact ⟨_, _, here.fputs⟩

theorem Lockstep.stepChild (here : Lockstep stdin s phase done) {fails : Bool}
    (step : stepChild s fails = some s') : ∃ phase done, Lockstep stdin s' phase done := by
  cases stepChild_effect step with
  | exits how => exact ⟨_, _, here.childExit how⟩
  | fails quiet how => exact ⟨_, _, (here.note quiet).childExit how⟩
  | reads pc nonempty returned =>
      have requests := here.requests
      by_cases empty : phase.requests = []
      · rw [requests, empty] at returned
        exact absurd (Pipe.read_empty returned) nonempty
      · cases phase with
        | asked chunk =>
            obtain ⟨-, some_byte, short⟩ := here.current chunk (List.mem_singleton.mpr rfl)
            have single := Pipe.read_single some_byte (Nat.le_of_lt short) s.parent.running
            rw [requests, Phase.requests, single] at returned
            cases returned
            exact ⟨_, _, here.childRead⟩
        | _ => exact absurd rfl empty
  | overruns pc stored =>
      have place := here.child (by rw [pc]; rfl)
      rw [pc] at place
      cases phase <;> cases place
      obtain ⟨line, inside, -⟩ := here.childTerminate
      rw [inside] at stored
      cases stored
  | terminates pc stored =>
      have place := here.child (by rw [pc]; rfl)
      rw [pc] at place
      cases phase <;> cases place
      obtain ⟨line, inside, next⟩ := here.childTerminate
      rw [inside] at stored
      cases stored
      exact ⟨_, _, next⟩
  | answers pc =>
      have place := here.child (by rw [pc]; rfl)
      rw [pc] at place
      cases phase <;> cases place
      exact ⟨_, _, here.childAnswer⟩
  | writes pc =>
      have place := here.child (by rw [pc]; rfl)
      rw [pc] at place
      cases phase <;> cases place
      exact ⟨_, _, here.childWrite⟩

theorem start_lockstep {parentLine childLine : Bytes} (nulFree : NulFree stdin)
    (parentFits : parentLine.length = maxLine) (childFits : childLine.length = maxLine) :
    Lockstep stdin (start stdin parentLine childLine) .ready [] where
  chunks := rfl
  nulFree := nulFree
  current := fun _ member => absurd member List.not_mem_nil
  parent := fun _ => rfl
  child := fun _ => rfl
  requests := rfl
  replies := rfl
  parentFits := parentFits
  childFits := childFits
  parentHolds := trivial
  childHolds := trivial
  written := rfl
  received := rfl
  printed := rfl
  inside := rfl

theorem run_lockstep {parentLine childLine : Bytes} {moves : List Move} (nulFree : NulFree stdin)
    (parentFits : parentLine.length = maxLine) (childFits : childLine.length = maxLine)
    (reached : run System.step (start stdin parentLine childLine) moves = some s) :
    ∃ phase done, Lockstep stdin s phase done := by
  refine run_invariant System.step (fun s => ∃ phase done, Lockstep stdin s phase done) ?_
    ⟨.ready, [], start_lockstep nulFree parentFits childFits⟩ reached
  rintro s ⟨who, fails⟩ s' ⟨phase, done, here⟩ step
  cases who with
  | parent => exact here.stepParent step
  | child => exact here.stepChild step

/-- A chunk is read only when it was written, and written only when it is the
current one. -/
theorem Phase.received_prefix (phase : Phase) :
    phase.received <+: phase.written ∧ phase.written <+: phase.current := by
  cases phase <;> simp [Phase.received, Phase.written, Phase.current]

theorem Phase.one_message (phase : Phase) : phase.requests.length + phase.replies.length ≤ 1 := by
  cases phase <;> simp [Phase.requests, Phase.replies]

end Steps

/-! ## Result -/

/-- **Parent and coprocess go in lockstep**, whatever the schedule and whichever
calls fail: the pipes hold one message at most, each read of `add2` is one whole
message of the parent and leaves room for the terminator, no store leaves its
buffer, and the `k`-th text printed is the reply to the `k`-th line. -/
theorem coprocess_lockstep {stdin parentLine childLine : Bytes} {moves : List Move} {s : System}
    (nulFree : NulFree stdin) (parentFits : parentLine.length = maxLine)
    (childFits : childLine.length = maxLine)
    (reached : run System.step (start stdin parentLine childLine) moves = some s) :
    s.requests.length + s.replies.length ≤ 1 ∧
      writtenIn s.log <+: fgetsChunks maxLine stdin ∧
      receivedIn s.log <+: writtenIn s.log ∧
      (∀ data ∈ receivedIn s.log, data.length ≤ maxLine - 1) ∧
      s.outside = false ∧
      ∀ (k : Nat) (text : Bytes), (printedIn s.log)[k]? = some text →
        ∃ chunk, (fgetsChunks maxLine stdin)[k]? = some chunk ∧ text = reply chunk := by
  obtain ⟨phase, done, here⟩ := run_lockstep nulFree parentFits childFits reached
  obtain ⟨received, written⟩ := phase.received_prefix
  have asked : writtenIn s.log <+: fgetsChunks maxLine stdin := by
    rw [here.written, here.chunks]
    exact ((List.prefix_append_right_inj _).mpr written).trans (List.prefix_append _ _)
  have taken : receivedIn s.log <+: writtenIn s.log := by
    rw [here.received, here.written]
    exact (List.prefix_append_right_inj _).mpr received
  refine ⟨?_, asked, taken, fun data member => ?_, here.inside, fun k text shown => ?_⟩
  · rw [here.requests, here.replies]
    exact phase.one_message
  · have chunk := (taken.trans asked).subset member
    have short := ((fgetsChunks_spec (by decide) stdin).2 data chunk).2
    omega
  · rw [here.printed, List.getElem?_map, Option.map_eq_some_iff] at shown
    obtain ⟨chunk, at_k, same⟩ := shown
    refine ⟨chunk, ?_, same.symm⟩
    have inside : k < done.length := (List.getElem?_eq_some_iff.mp at_k).1
    rw [here.chunks, List.append_assoc, List.getElem?_append_left inside]
    exact at_k

/-- A sum and a line that is none, with no call failing. -/
def twoLines : List Move :=
  let line : List Move :=
    [⟨.parent, false⟩, ⟨.parent, false⟩, ⟨.child, false⟩, ⟨.child, false⟩, ⟨.child, false⟩,
      ⟨.child, false⟩, ⟨.parent, false⟩, ⟨.parent, false⟩, ⟨.parent, false⟩]
  line ++ line

theorem coprocess_lockstep_two_lines :
    ∃ s, run System.step
        (start [49, 32, 45, 53, 10, 120, 10] (zeros maxLine) (zeros maxLine)) twoLines = some s ∧
      (printedIn s.log)[0]? = some [45, 52, 10] ∧
      (∃ chunk, (fgetsChunks maxLine [49, 32, 45, 53, 10, 120, 10])[0]? = some chunk ∧
        [45, 52, 10] = reply chunk) ∧ s.outside = false := by
  have observed : (run System.step
      (start [49, 32, 45, 53, 10, 120, 10] (zeros maxLine) (zeros maxLine)) twoLines).map
        (fun s => printedIn s.log) = some [[45, 52, 10], Add2.invalidArgs] := by
    decide +kernel
  obtain ⟨s, reached, shape⟩ := Option.map_eq_some_iff.mp observed
  have first : (printedIn s.log)[0]? = some [45, 52, 10] := by
    rw [shape]
    rfl
  obtain ⟨-, -, -, -, inside, texts⟩ := coprocess_lockstep (by decide) (by decide +kernel)
    (by decide +kernel) reached
  exact ⟨s, reached, first, texts 0 _ first, inside⟩

end UnixDemos.IPC.Coprocess
