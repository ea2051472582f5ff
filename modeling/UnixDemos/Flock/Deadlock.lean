/-
# Flock.Deadlock — the two processes of deadlock.c

Parent and child lock a byte each, tell each other through the pipes of tell_wait.c,
wait for each other, and then ask with `writew_lock` for the byte the other one has.  The
calls of both interleave in any order; a sleeper may wake up at any time and try again.

A `Phase` says how far a process has come, and everything in the state that belongs to a
process follows from its phase and, for its pipe, from the phase of the other (`Side`).
What pairs of phases occur together is `Phase.permits`.  Each transition is one lemma for
both processes.  The locks are known by who holds which byte (`Held`); since there are only
two processes, what is in the way of one belongs to the other, and the kernel finds the
cycle in one step.
-/
import UnixDemos.Flock.LockReg
import UnixDemos.Flock.TellWait
import UnixDemos.Library.Run

namespace UnixDemos.Flock.Deadlock

open UnixDemos.Library LockReg
open TellWait (Process Call inbox letter)

set_option autoImplicit false

/-! ## Programs and steps -/

inductive Action where
  | lockabyte (offset : Int)
  | call (call : Call)
  deriving DecidableEq, Repr

def program : Process → List Action
  | .parent => [.lockabyte 1, .call .tell, .call .wait, .lockabyte 0]
  | .child => [.lockabyte 0, .call .tell, .call .wait, .lockabyte 1]

/-- The name `main` passes to `lockabyte`. -/
def name : Process → String
  | .parent => "parent"
  | .child => "child"

inductive Io where
  | printf (who : Process) (format : String) (name : String) (offset : Int)
  | fprintf (who : Process) (format : String) (errno : Errno)
  deriving DecidableEq, Repr

def Io.who : Io → Process
  | .printf who .. | .fprintf who .. => who

structure System where
  hand : TellWait.System
  file : File Process
  todo : Process → List Action
  /-- What a process has passed to `exit`. -/
  status : Process → Option Int
  out : List Io

inductive Event where
  | moves (who : Process) (fails : Bool)
  | wakes (who : Process)
  deriving DecidableEq, Repr

/-- No call on a pipe fails. -/
def Event.Calm : Event → Prop
  | .moves _ fails => fails = false
  | .wakes _ => True

namespace System

variable (s : System) (who : Process)

/-- The process ends: its locks go, and its ends of the pipes. -/
def exits (code : Int) : System :=
  { s with
    hand := { s.hand with alive := Function.update s.hand.alive who false }
    file := s.file.closes who
    status := Function.update s.status who (some code) }

/-- What `fcntl` returned, if it did. -/
def returned (before after : File Process) : Option (Option Errno) :=
  (after.log.drop before.log.length).head?.map Prod.snd

/-- `lockabyte`, with the file after `writew_lock` has returned or gone to sleep. -/
def lockabyte (offset : Int) (rest : List Action) (file : File Process) :
    System :=
  match returned s.file file with
  | none => { s with file := file }
  | some none =>
      { s with
        file := file
        todo := Function.update s.todo who rest
        out := s.out ++ [.printf who "%s: got the lock, byte %lld\n" (name who) offset] }
  | some (some e) =>
      { s with
        file := file
        out := s.out ++ [Io.fprintf who "writew_lock error: %s\n" e] }.exits who (-1)

def step : Event → Option System
  | .moves who fails =>
      if s.status who = none ∧ s.file.waiting who = none then
        match s.todo who with
        | [] => some (s.exits who 0)
        | .lockabyte offset :: rest =>
            some (s.lockabyte who offset rest (writewLock s.file who offset .seekSet 1))
        | .call call :: rest =>
            match TellWait.perform s.hand who call fails with
            | none => none
            | some hand =>
                if hand.alive who then
                  some { s with hand := hand, todo := Function.update s.todo who rest }
                else some ({ s with hand := hand }.exits who (-1))
      else none
  | .wakes who =>
      match s.todo who, s.file.waiting who with
      | .lockabyte offset :: rest, some sleep =>
          some (s.lockabyte who offset rest (s.file.attempt who .setlkw sleep.type sleep.range))
      | _, _ => none

/-- Both processes have ended. -/
def Over : Prop := ∀ who, s.status who ≠ none

/-- What a process has printed. -/
def output : List Io := s.out.filter fun entry => entry.who = who

end System

/-- After `creat`, `write` of two bytes, `TELL_WAIT` and `fork`. -/
def start : System where
  hand := TellWait.start [] []
  file := File.unlocked 2 fun _ => some ⟨false, true, 2⟩
  todo := program
  status := fun _ => none
  out := []

/-! ## Phases -/

/-- The byte a process locks first; its second one is the first of the other. -/
def first : Process → Nat
  | .parent => 1
  | .child => 0

inductive Phase where
  | locking
  | telling
  | waiting
  | second
  | asleep
  | returning
  | deadlocked
  | returned
  deriving DecidableEq, Repr

namespace Phase

def todo (who : Process) : Phase → List Action
  | .locking => program who
  | .telling => [.call .tell, .call .wait, .lockabyte (first who.other)]
  | .waiting => [.call .wait, .lockabyte (first who.other)]
  | .second | .asleep | .deadlocked => [.lockabyte (first who.other)]
  | .returning | .returned => []

def status : Phase → Option Int
  | .deadlocked => some (-1)
  | .returned => some 0
  | _ => none

/-- The other process's message has been sent, and has not been read by this one. -/
def told : Phase → Bool
  | .locking | .telling => false
  | _ => true

def expects : Phase → Bool
  | .locking | .telling | .waiting => true
  | _ => false

def holds (who : Process) (byte : Nat) : Phase → Bool
  | .locking | .deadlocked | .returned => false
  | .returning => byte = first who ∨ byte = first who.other
  | _ => byte = first who

def held (who : Process) (byte : Nat) (a : Phase) : Option LockType :=
  if a.holds who byte then some .wrlck else none

def got (who : Process) (byte : Nat) : Io :=
  .printf who "%s: got the lock, byte %lld\n" (name who) byte

def output (who : Process) : Phase → List Io
  | .locking => []
  | .returning | .returned => [got who (first who), got who (first who.other)]
  | .deadlocked => [got who (first who), .fprintf who "writew_lock error: %s\n" .edeadlk]
  | _ => [got who (first who)]

/-- What is left to do, at least. -/
def left : Phase → Nat
  | .locking => 6
  | .telling => 5
  | .waiting => 4
  | .second => 3
  | .asleep => 2
  | .returning => 1
  | .deadlocked | .returned => 0

/-- Which phases occur together, seen from one process. -/
def permits : Phase → Phase → Bool
  | .second, b => b.told && b ≠ .deadlocked
  | .asleep, b => b.told && b ≠ .asleep
  | .returning, b | .returned, b => b = .deadlocked
  | .deadlocked, b => b = .asleep || b = .returning || b = .returned
  | _, _ => true

end Phase

structure Side (who : Process) (a b : Phase) (s : System) : Prop where
  todo : s.todo who = a.todo who
  status : s.status who = a.status
  alive : s.hand.alive who = a.status.isNone
  inbox : s.hand.pipes (inbox who) =
    if a.expects && b.told then [⟨letter who, who.other⟩] else []
  waiting : s.file.waiting who =
    if a = .asleep then some ⟨.wrlck, .single (first who.other), who.other⟩ else none
  fd : a.status = none → s.file.fd who = some ⟨false, true, 2⟩
  output : s.output who = a.output who

/-- The process holds the bytes of its phase, and no others. -/
def Held (who : Process) (a : Phase) (locks : RangeLocks Process) : Prop :=
  ∀ byte t, locks.Holds who byte t ↔ a.held who byte = some t

structure Shape (who : Process) (a b : Phase) (s : System) : Prop where
  mine : Side who a b s
  theirs : Side who.other b a s
  permits : a.permits b = true
  permitted : b.permits a = true
  held : Held who a s.file.locks
  heldByOther : Held who.other b s.file.locks

section Transitions

variable {who : Process} {a b : Phase} {s : System}

theorem Shape.swap (shape : Shape who a b s) : Shape who.other b a s := by
  obtain ⟨mine, theirs, permits, permitted, held, held'⟩ := shape
  refine ⟨theirs, ?_, permitted, permits, held', ?_⟩
  · rw [TellWait.other_other]
    exact mine
  · rw [TellWait.other_other]
    exact held

theorem start_shape (who : Process) : Shape who .locking .locking start where
  mine := ⟨rfl, rfl, rfl, rfl, rfl, fun _ => rfl, rfl⟩
  theirs := ⟨rfl, rfl, rfl, rfl, rfl, fun _ => rfl, rfl⟩
  permits := rfl
  permitted := rfl
  held := by simp [Held, RangeLocks.Holds, start, File.unlocked, Phase.held, Phase.holds]
  heldByOther := by simp [Held, RangeLocks.Holds, start, File.unlocked, Phase.held, Phase.holds]

/-! ### Locks -/

/-- Whatever is in the way of a process belongs to the other one, which holds the byte. -/
theorem Shape.in_the_way (shape : Shape who a b s) {n : Nat} {lock : Library.Held Process}
    (blocks : lock ∈ s.file.locks.blocking who .wrlck (.single n)) :
    lock.owner = who.other ∧ b.holds who.other n = true := by
  obtain ⟨differ, byte, t, inside, holds, -⟩ :=
    RangeLocks.exists_blocking_iff.mp ⟨lock, blocks, rfl⟩
  have other := TellWait.eq_other_of_ne differ
  obtain rfl := ByteRange.single_contains.mp inside
  rw [other, shape.heldByOther, Phase.held] at holds
  refine ⟨other, ?_⟩
  split at holds
  · assumption
  · cases holds

theorem Shape.free (shape : Shape who a b s) {n : Nat} (free : b.holds who.other n = false) :
    s.file.locks.blocking who .wrlck (.single n) = [] := by
  rw [List.eq_nil_iff_forall_not_mem]
  intro lock blocks
  have busy := (shape.in_the_way blocks).2
  rw [free] at busy
  cases busy

theorem Shape.busy (shape : Shape who a b s) {n : Nat} (busy : b.holds who.other n = true) :
    ∃ lock rest, s.file.locks.blocking who .wrlck (.single n) = lock :: rest ∧
      lock.owner = who.other := by
  have holds : s.file.locks.Holds who.other n .wrlck :=
    (shape.heldByOther n .wrlck).mpr (if_pos busy)
  obtain ⟨lock, blocks, -⟩ := RangeLocks.exists_blocking_iff.mpr
    ⟨TellWait.other_ne who, n, .wrlck, ByteRange.single_contains.mpr rfl, holds, rfl⟩
  cases found : s.file.locks.blocking who .wrlck (.single n) with
  | nil =>
      rw [found] at blocks
      cases blocks
  | cons first rest =>
      have member : first ∈ s.file.locks.blocking who .wrlck (.single n) := by
        rw [found]
        exact List.mem_cons_self
      exact ⟨first, rest, rfl, (shape.in_the_way member).1⟩

/-- The other process sleeps for this one, or is awake. -/
theorem Shape.leadsTo_eq (shape : Shape who a b s) :
    s.file.leadsTo who (maxDeadlkIterations + 1) who.other = decide (b = .asleep) := by
  have waiting := shape.theirs.waiting
  rw [TellWait.other_other] at waiting
  rw [File.leadsTo, waiting]
  by_cases asleep : b = .asleep <;> simp [asleep]

/-- The three outcomes of an attempt. -/
theorem Shape.attempt_free (shape : Shape who a b s) {n : Nat}
    (free : b.holds who.other n = false) :
    s.file.attempt who .setlkw .wrlck (.single n) =
      { s.file with locks := s.file.locks.set who .wrlck (.single n) }.returns who none := by
  rw [File.attempt, shape.free free]

theorem Shape.attempt_busy (shape : Shape who a b s) {n : Nat}
    (busy : b.holds who.other n = true) :
    s.file.attempt who .setlkw .wrlck (.single n) =
      if b = .asleep then s.file.returns who (some .edeadlk)
      else s.file.sleeps who ⟨.wrlck, .single n, who.other⟩ := by
  obtain ⟨lock, rest, found, other⟩ := shape.busy busy
  rw [File.attempt, found]
  dsimp only
  rw [other, shape.leadsTo_eq]
  by_cases asleep : b = .asleep <;> simp [asleep]

theorem Held.set (held : Held who a s.file.locks) {a' : Phase} {n : Nat}
    (grown : ∀ byte, a'.held who byte = if byte = n then some .wrlck else a.held who byte) :
    Held who a' (s.file.locks.set who .wrlck (.single n)) := by
  intro byte t
  rw [RangeLocks.holds_set, grown]
  by_cases here : byte = n
  · rw [if_pos ⟨rfl, ByteRange.single_contains.mpr here⟩, if_pos here, Option.some.injEq]
    exact eq_comm
  · rw [if_neg fun own => here (ByteRange.single_contains.mp own.2), if_neg here]
    exact held byte t

theorem Held.set_other (held : Held who.other b s.file.locks) (range : ByteRange) :
    Held who.other b (s.file.locks.set who .wrlck range) := by
  intro byte t
  rw [RangeLocks.holds_set, if_neg fun own => TellWait.other_ne who own.1]
  exact held byte t

theorem Held.release {a' : Phase} (none : ∀ byte, a'.held who byte = none)
    (locks : RangeLocks Process) : Held who a' (locks.release who) := by
  intro byte t
  rw [RangeLocks.holds_release, none byte]
  simp

theorem Held.release_other (held : Held who.other b s.file.locks) :
    Held who.other b (s.file.locks.release who) := by
  intro byte t
  rw [RangeLocks.holds_release, and_iff_left (TellWait.other_ne who)]
  exact held byte t

/-! ### `lockabyte` -/

theorem output_own {entry : Io} (own : entry.who = who) :
    { s with out := s.out ++ [entry] }.output who = s.output who ++ [entry] := by
  simp [System.output, List.filter_append, own]

theorem output_other {entry : Io} (own : entry.who = who) :
    { s with out := s.out ++ [entry] }.output who.other = s.output who.other := by
  simp [System.output, List.filter_append, own]

/-- Nothing of this process is changed, its pipe apart. -/
structure Untouched (who : Process) (s s' : System) : Prop where
  todo : s'.todo who = s.todo who
  status : s'.status who = s.status who
  alive : s'.hand.alive who = s.hand.alive who
  waiting : s'.file.waiting who = s.file.waiting who
  fd : s'.file.fd who = s.file.fd who
  output : s'.output who = s.output who

theorem Side.untouched (side : Side who a b s) {s' : System} {b' : Phase}
    (same : Untouched who s s')
    (mail : s'.hand.pipes (TellWait.inbox who) =
      if a.expects && b'.told then [⟨letter who, who.other⟩] else []) : Side who a b' s' where
  todo := same.todo.trans side.todo
  status := same.status.trans side.status
  alive := same.alive.trans side.alive
  inbox := mail
  waiting := same.waiting.trans side.waiting
  fd running := same.fd.trans (side.fd running)
  output := same.output.trans side.output

theorem writewLock_eq {f : File Process}
    (fd : f.fd who = some ⟨false, true, 2⟩) (p : Process) :
    writewLock f who (first p) .seekSet 1 =
      f.attempt who .setlkw .wrlck (.single (first p)) := by
  unfold writewLock lockReg File.fcntl
  rw [fd]
  cases p <;> rfl

/-- The lock is granted, in the first attempt or after a sleep. -/
theorem Shape.granted (shape : Shape who a b s) {a' : Phase} {p : Process}
    (running : a.status = none) (running' : a'.status = none) (awake : a' ≠ .asleep)
    (expects : a'.expects = a.expects) (told : a'.told = a.told)
    (held : ∀ byte, a'.held who byte = if byte = first p then some .wrlck else a.held who byte)
    (output : a'.output who = a.output who ++ [Phase.got who (first p)])
    (permits : a'.permits b = true) (permitted : b.permits a' = true)
    (free : b.holds who.other (first p) = false) :
    Shape who a' b (s.lockabyte who (first p) (a'.todo who)
      (s.file.attempt who .setlkw .wrlck (.single (first p)))) := by
  rw [shape.attempt_free free]
  have returned : System.returned s.file ({ s.file with
      locks := s.file.locks.set who .wrlck (.single (first p)) }.returns who none) =
      some none := by
    simp [System.returned, File.returns]
  obtain ⟨mine, theirs, -, -, mineHeld, theirsHeld⟩ := shape
  unfold System.lockabyte
  rw [returned]
  refine ⟨⟨?_, ?_, ?_, ?_, ?_, ?_, ?_⟩, theirs.untouched ⟨?_, rfl, rfl, ?_, rfl, ?_⟩ ?_,
    permits, permitted, mineHeld.set held, theirsHeld.set_other _⟩
  · exact Function.update_self ..
  · rw [running']
    exact mine.status.trans running
  · rw [running']
    exact mine.alive.trans (by rw [running])
  · rw [expects]
    exact mine.inbox
  · rw [if_neg awake]
    exact Function.update_self ..
  · exact fun _ => mine.fd running
  · rw [output, ← mine.output]
    exact output_own rfl
  · exact Function.update_of_ne (TellWait.other_ne who) ..
  · exact Function.update_of_ne (TellWait.other_ne who) ..
  · exact output_other rfl
  · rw [told]
    exact theirs.inbox

/-- `writew_lock` returns an error, which leaves the locks as they are. -/
structure Answered (who : Process) (f f' : File Process) : Prop where
  fd : f'.fd = f.fd
  waiting : f'.waiting who.other = f.waiting who.other
  locks : f'.locks = f.locks

/-- The process ends, possibly with an error of `writew_lock` and its message. -/
theorem Shape.exits (shape : Shape who a b s) {a' : Phase} {code : Int}
    {file : File Process} {out : List Io} (answered : Answered who s.file file)
    (todo : a'.todo who = a.todo who) (status : a'.status = some code)
    (expects : a'.expects = a.expects) (told : a'.told = a.told)
    (mineOut : { s with out := out }.output who = a'.output who)
    (theirsOut : { s with out := out }.output who.other = s.output who.other)
    (held : ∀ byte, a'.held who byte = none)
    (permits : a'.permits b = true) (permitted : b.permits a' = true) :
    Shape who a' b ({ s with file := file, out := out }.exits who code) := by
  obtain ⟨mine, theirs, -, -, mineHeld, theirsHeld⟩ := shape
  have awake : a' ≠ .asleep := by
    rintro rfl
    cases status
  refine ⟨⟨mine.todo.trans todo.symm, ?_, ?_, ?_, ?_, ?_, mineOut⟩,
    theirs.untouched ⟨rfl, ?_, ?_, ?_, ?_, theirsOut⟩ ?_, permits, permitted,
    Held.release held _, ?_⟩
  · rw [status]
    exact Function.update_self ..
  · rw [status]
    exact Function.update_self ..
  · rw [expects]
    exact mine.inbox
  · rw [if_neg awake]
    exact Function.update_self ..
  · intro running
    rw [status] at running
    cases running
  · exact Function.update_of_ne (TellWait.other_ne who) ..
  · exact Function.update_of_ne (TellWait.other_ne who) ..
  · exact (Function.update_of_ne (TellWait.other_ne who) ..).trans answered.waiting
  · exact (Function.update_of_ne (TellWait.other_ne who) ..).trans (congrFun answered.fd _)
  · rw [told]
    exact theirs.inbox
  · change Held who.other b (file.locks.release who)
    rw [answered.locks]
    exact theirsHeld.release_other

/-- The process goes to sleep, or back to sleep. -/
theorem Shape.sleeps (shape : Shape who a b s) (before : a = .second ∨ a = .asleep)
    {offset : Int} {rest : List Action} (busy : b.holds who.other (first who.other) = true)
    (safe : b ≠ .asleep) (permits : Phase.asleep.permits b = true)
    (permitted : b.permits .asleep = true) :
    Shape who .asleep b (s.lockabyte who offset rest
      (s.file.attempt who .setlkw .wrlck (.single (first who.other)))) := by
  rw [shape.attempt_busy busy, if_neg safe]
  have returned : System.returned s.file
      (s.file.sleeps who ⟨.wrlck, .single (first who.other), who.other⟩) = none := by
    simp [System.returned, File.sleeps]
  obtain ⟨mine, theirs, -, -, mineHeld, theirsHeld⟩ := shape
  -- a process that sleeps differs from one that is about to only in what it waits for
  obtain ⟨todo, status, alive, mail, fd, output, told, held⟩ :
      s.todo who = Phase.asleep.todo who ∧ s.status who = none ∧ s.hand.alive who = true ∧
      s.hand.pipes (inbox who) = [] ∧ s.file.fd who = some ⟨false, true, 2⟩ ∧
      s.output who = Phase.asleep.output who ∧ a.told = Phase.asleep.told ∧
      ∀ byte, a.held who byte = Phase.asleep.held who byte := by
    rcases before with rfl | rfl <;>
      exact ⟨mine.todo, mine.status, mine.alive, mine.inbox, mine.fd rfl, mine.output, rfl,
        fun _ => rfl⟩
  unfold System.lockabyte
  rw [returned]
  refine ⟨⟨todo, status, alive, mail, ?_, fun _ => fd, output⟩,
    theirs.untouched ⟨rfl, rfl, rfl, ?_, rfl, rfl⟩ ?_, permits, permitted, ?_, theirsHeld⟩
  · exact Function.update_self ..
  · exact Function.update_of_ne (TellWait.other_ne who) ..
  · rw [← told]
    exact theirs.inbox
  · intro byte t
    rw [← held byte]
    exact mineHeld byte t

/-! ### One move -/

theorem program_eq (who : Process) : program who =
    [.lockabyte (first who), .call .tell, .call .wait, .lockabyte (first who.other)] := by
  cases who <;> rfl

theorem Side.ready (side : Side who a b s) (running : a.status = none) (awake : a ≠ .asleep) :
    s.status who = none ∧ s.file.waiting who = none :=
  ⟨side.status.trans running, side.waiting.trans (if_neg awake)⟩

/-- The second byte is always held by the other process: the first attempt fails. -/
theorem Shape.second (shape : Shape who .second b s) :
    ∃ s', s.step (.moves who false) = some s' ∧
      Shape who (if b = .asleep then .deadlocked else .asleep) b s' := by
  have busy : b.holds who.other (first who.other) = true := by
    have permits := shape.permits
    have permitted := shape.permitted
    cases b <;> simp_all [Phase.permits, Phase.holds, Phase.told]
  refine ⟨_, by rw [System.step, if_pos (shape.mine.ready rfl nofun), shape.mine.todo,
    Phase.todo], ?_⟩
  rw [writewLock_eq (shape.mine.fd rfl)]
  by_cases asleep : b = .asleep
  · subst asleep
    rw [if_pos rfl, shape.attempt_busy busy, if_pos rfl]
    have returned : System.returned s.file (s.file.returns who (some .edeadlk)) =
        some (some .edeadlk) := by
      simp [System.returned, File.returns]
    rw [System.lockabyte, returned]
    refine shape.exits ⟨rfl, ?_, rfl⟩ rfl rfl rfl rfl ?_ (output_other rfl) (fun _ => rfl) rfl rfl
    · exact Function.update_of_ne (TellWait.other_ne who) ..
    · exact (output_own rfl).trans (congrArg (· ++ _) shape.mine.output)
  · rw [if_neg asleep]
    refine shape.sleeps (Or.inl rfl) busy asleep ?_ ?_
    · have permits := shape.permits
      cases b <;> simp_all [Phase.permits, Phase.told]
    · have permitted := shape.permitted
      cases b <;> simp_all [Phase.permits, Phase.told]

/-- The first byte is never held by the other process at that time. -/
theorem Shape.locking (shape : Shape who .locking b s) :
    ∃ s', s.step (.moves who false) = some s' ∧ Shape who .telling b s' := by
  have permitted := shape.permitted
  have free : b.holds who.other (first who) = false := by
    cases b <;> cases who <;>
      simp_all [Phase.permits, Phase.holds, Phase.told, first, Process.other]
  refine ⟨_, by rw [System.step, if_pos (shape.mine.ready rfl (by simp)), shape.mine.todo,
    Phase.todo, program_eq], ?_⟩
  rw [writewLock_eq (shape.mine.fd rfl)]
  refine shape.granted rfl rfl (by simp) rfl rfl (fun byte => ?_) rfl rfl ?_ free
  · simp [Phase.held, Phase.holds]
  · cases b <;> simp_all [Phase.permits, Phase.told]

theorem step_call {call : Call} {rest : List Action} {hand : TellWait.System}
    (ready : s.status who = none ∧ s.file.waiting who = none)
    (todo : s.todo who = .call call :: rest)
    (performed : TellWait.perform s.hand who call false = some hand)
    (alive : hand.alive who = true) :
    s.step (.moves who false) =
      some { s with hand := hand, todo := Function.update s.todo who rest } := by
  simp only [System.step, if_pos ready, todo, performed, alive, if_true]

/-- The other process finds the message in its pipe. -/
theorem Shape.telling (shape : Shape who .telling b s) :
    ∃ s', s.step (.moves who false) = some s' ∧ Shape who .waiting b s' := by
  have alive : s.hand.alive who = true := shape.mine.alive
  obtain ⟨mine, theirs, -, permitted, held, heldByOther⟩ := shape
  have early : b.expects = true := by
    cases b <;> simp_all [Phase.permits, Phase.told, Phase.expects]
  refine ⟨_, step_call (mine.ready rfl nofun) mine.todo (TellWait.perform_tell ..) alive, ?_⟩
  refine ⟨⟨?_, mine.status, mine.alive, ?_, mine.waiting, mine.fd, mine.output⟩,
    theirs.untouched ⟨?_, rfl, rfl, rfl, rfl, rfl⟩ ?_, rfl, ?_, held, heldByOther⟩
  · exact Function.update_self ..
  · exact (Function.update_of_ne (by simp) ..).trans mine.inbox
  · exact Function.update_of_ne (TellWait.other_ne who) ..
  · have empty : s.hand.pipes (inbox who.other) = [] := theirs.inbox.trans (by simp [Phase.told])
    refine (Function.update_self ..).trans ?_
    simp [empty, early, Phase.told]
  · cases b <;> simp_all [Phase.permits, Phase.told, Phase.expects]

/-- The message of the other process is there, and is taken. -/
theorem Shape.waiting (shape : Shape who .waiting b s) (told : b.told = true) :
    ∃ s', s.step (.moves who false) = some s' ∧ Shape who .second b s' := by
  have alive : s.hand.alive who = true := shape.mine.alive
  obtain ⟨mine, theirs, -, permitted, held, heldByOther⟩ := shape
  have mail : s.hand.pipes (inbox who) = [⟨letter who, who.other⟩] :=
    mine.inbox.trans (by simp [told, Phase.expects])
  have performed : TellWait.perform s.hand who .wait false = some { s.hand with
      pipes := Function.update s.hand.pipes (inbox who) []
      log := s.hand.log ++ [.waited who who.other] } := by
    rw [TellWait.perform_wait, TellWait.wait, mail]
    simp
  refine ⟨_, step_call (mine.ready rfl (by simp)) mine.todo performed alive, ?_⟩
  refine ⟨⟨?_, mine.status, mine.alive, ?_, mine.waiting, mine.fd, mine.output⟩,
    theirs.untouched ⟨?_, rfl, rfl, rfl, rfl, rfl⟩ ?_, ?_, ?_, held, heldByOther⟩
  · exact Function.update_self ..
  · exact Function.update_self ..
  · exact Function.update_of_ne (TellWait.other_ne who) ..
  · exact (Function.update_of_ne (by simp) ..).trans theirs.inbox
  · cases b <;> simp_all [Phase.permits, Phase.told]
  · cases b <;> simp_all [Phase.permits, Phase.told]

theorem Shape.blocked (shape : Shape who .waiting b s) (told : b.told = false) :
    s.step (.moves who false) = none := by
  have alive : s.hand.alive who = true := shape.mine.alive
  have mail : s.hand.pipes (inbox who) = [] :=
    shape.mine.inbox.trans (by simp [told])
  rw [System.step, if_pos (shape.mine.ready rfl nofun), shape.mine.todo, Phase.todo]
  dsimp only
  rw [TellWait.perform_wait, TellWait.wait, if_neg Bool.false_ne_true, mail]
  dsimp only
  rw [if_pos (by cases who <;> simp [alive])]

theorem Shape.returning (shape : Shape who .returning b s) :
    ∃ s', s.step (.moves who false) = some s' ∧ Shape who .returned b s' := by
  refine ⟨_, by rw [System.step, if_pos (shape.mine.ready rfl nofun), shape.mine.todo, Phase.todo],
    ?_⟩
  refine shape.exits ⟨rfl, rfl, rfl⟩ rfl rfl rfl rfl shape.mine.output rfl (fun _ => rfl)
    shape.permits ?_
  have permits := shape.permits
  cases b <;> simp_all [Phase.permits]

/-- The byte is free as soon as the other process has been told of the deadlock. -/
theorem Shape.asleep (shape : Shape who .asleep b s) :
    ∃ s', s.step (.wakes who) = some s' ∧
      Shape who (if b = .deadlocked then .returning else .asleep) b s' := by
  have permits := shape.permits
  have permitted := shape.permitted
  refine ⟨_, by rw [System.step, shape.mine.todo, Phase.todo, shape.mine.waiting, if_pos rfl], ?_⟩
  by_cases dead : b = .deadlocked
  · subst dead
    rw [if_pos rfl]
    refine shape.granted rfl rfl nofun rfl rfl (fun byte => ?_) rfl rfl rfl ?_
    · simp only [Phase.held, Phase.holds]
      by_cases one : byte = first who.other <;> simp [one]
    · rfl
  · have busy : b.holds who.other (first who.other) = true := by
      cases b <;> simp_all [Phase.permits, Phase.holds, Phase.told]
    rw [if_neg dead]
    refine shape.sleeps (Or.inr rfl) busy ?_ permits permitted
    rintro rfl
    cases permits

/-! ### Whole runs -/

/-- A process that has ended, or sleeps, does not move. -/
theorem Shape.still (shape : Shape who a b s)
    (still : a = .asleep ∨ a = .deadlocked ∨ a = .returned) (fails : Bool) :
    s.step (.moves who fails) = none := by
  have status := shape.mine.status
  have waiting := shape.mine.waiting
  refine if_neg fun ready => ?_
  rcases still with rfl | rfl | rfl
  · rw [if_pos rfl, ready.2] at waiting
    cases waiting
  · rw [ready.1] at status
    cases status
  · rw [ready.1] at status
    cases status

/-- One event of a process is a transition of its phase. -/
theorem Shape.step (shape : Shape who a b s) {s' : System} :
    (s.step (.moves who false) = some s' → ∃ a', Shape who a' b s') ∧
      (s.step (.wakes who) = some s' → ∃ a', Shape who a' b s') := by
  -- every transition lemma gives the one successor there is
  have only {e : Event} {a' : Phase} (stepped : s.step e = some s')
      (next : ∃ t, s.step e = some t ∧ Shape who a' b t) : Shape who a' b s' := by
    obtain ⟨t, stepped', shape'⟩ := next
    rw [stepped] at stepped'
    exact Option.some.inj stepped' ▸ shape'
  constructor
  · intro stepped
    cases a with
    | locking => exact ⟨_, only stepped shape.locking⟩
    | telling => exact ⟨_, only stepped shape.telling⟩
    | waiting =>
        cases told : b.told with
        | false =>
            rw [shape.blocked told] at stepped
            cases stepped
        | true => exact ⟨_, only stepped (shape.waiting told)⟩
    | second => exact ⟨_, only stepped shape.second⟩
    | returning => exact ⟨_, only stepped shape.returning⟩
    | asleep | deadlocked | returned =>
        rw [shape.still (by simp)] at stepped
        cases stepped
  · intro stepped
    by_cases asleep : a = .asleep
    · subst asleep
      exact ⟨_, only stepped shape.asleep⟩
    · have waiting := shape.mine.waiting
      rw [if_neg asleep] at waiting
      simp [System.step, waiting] at stepped

theorem Shape.unswap (shape : Shape who.other b a s) : Shape who a b s := by
  have swapped := shape.swap
  rwa [TellWait.other_other] at swapped

theorem Shape.kept (shape : Shape who a b s) {e : Event} {s' : System} (calm : e.Calm)
    (stepped : s.step e = some s') : ∃ a' b', Shape who a' b' s' := by
  cases e with
  | moves p fails =>
      obtain rfl : fails = false := calm
      by_cases own : p = who
      · subst own
        obtain ⟨a', shape'⟩ := shape.step.1 stepped
        exact ⟨a', b, shape'⟩
      · obtain rfl := TellWait.eq_other_of_ne own
        obtain ⟨b', shape'⟩ := shape.swap.step.1 stepped
        exact ⟨a, b', shape'.unswap⟩
  | wakes p =>
      by_cases own : p = who
      · subst own
        obtain ⟨a', shape'⟩ := shape.step.2 stepped
        exact ⟨a', b, shape'⟩
      · obtain rfl := TellWait.eq_other_of_ne own
        obtain ⟨b', shape'⟩ := shape.swap.step.2 stepped
        exact ⟨a, b', shape'.unswap⟩

theorem Shape.both_ended (shape : Shape who a b s) (mine : a.status ≠ none)
    (theirs : b.status ≠ none) : s.Over := by
  intro p
  by_cases own : p = who
  · subst own
    rwa [shape.mine.status]
  · obtain rfl := TellWait.eq_other_of_ne own
    rwa [shape.theirs.status]

/-- Some process gets on, unless both have ended. -/
theorem Shape.progress (shape : Shape who a b s) : s.Over ∨
    ∃ e s' a' b', s.step e = some s' ∧ Shape who a' b' s' ∧
      a'.left + b'.left < a.left + b.left := by
  -- this process, or the other one, has a transition with less left to do
  have here {e : Event} {a' : Phase} (next : ∃ t, s.step e = some t ∧ Shape who a' b t)
      (less : a'.left < a.left) :
      ∃ e s' a' b', s.step e = some s' ∧ Shape who a' b' s' ∧
        a'.left + b'.left < a.left + b.left := by
    obtain ⟨t, stepped, shape'⟩ := next
    exact ⟨e, t, a', b, stepped, shape', by omega⟩
  have there {e : Event} {b' : Phase} (next : ∃ t, s.step e = some t ∧ Shape who.other b' a t)
      (less : b'.left < b.left) :
      ∃ e s' a' b', s.step e = some s' ∧ Shape who a' b' s' ∧
        a'.left + b'.left < a.left + b.left := by
    obtain ⟨t, stepped, shape'⟩ := next
    exact ⟨e, t, a, b', stepped, shape'.unswap, by omega⟩
  have permits := shape.permits
  have permitted := shape.permitted
  cases a with
  | locking => exact Or.inr (here shape.locking (by decide))
  | telling => exact Or.inr (here shape.telling (by decide))
  | second =>
      refine Or.inr (here shape.second ?_)
      split <;> decide
  | returning => exact Or.inr (here shape.returning (by decide))
  | waiting =>
      cases told : b.told with
      | true => exact Or.inr (here (shape.waiting told) (by decide))
      | false =>
          cases b with
          | locking => exact Or.inr (there shape.swap.locking (by decide))
          | telling => exact Or.inr (there shape.swap.telling (by decide))
          | _ => cases told
  | asleep =>
      cases b with
      | deadlocked => exact Or.inr (here shape.asleep (by decide))
      | waiting => exact Or.inr (there (shape.swap.waiting rfl) (by decide))
      | second => exact Or.inr (there shape.swap.second (by decide))
      | _ => simp [Phase.permits, Phase.told] at permits permitted
  | deadlocked =>
      cases b with
      | asleep => exact Or.inr (there shape.swap.asleep (by decide))
      | returning => exact Or.inr (there shape.swap.returning (by decide))
      | returned => exact Or.inl (shape.both_ended nofun nofun)
      | _ => simp [Phase.permits] at permits
  | returned =>
      obtain rfl : b = .deadlocked := of_decide_eq_true permits
      exact Or.inl (shape.both_ended nofun nofun)

theorem Shape.finishes (shape : Shape who a b s) : Leads System.step s System.Over := by
  induction n : a.left + b.left using Nat.strong_induction_on generalizing a b s with
  | _ n ih =>
      rcases shape.progress with ended | ⟨e, s', a', b', stepped, shape', less⟩
      · exact leads_here ended
      · exact leads_step e stepped (ih _ (n ▸ less) shape' rfl)

theorem Shape.awake (shape : Shape who a b s) : ∃ p, s.file.waiting p = none := by
  by_cases asleep : a = .asleep
  · subst asleep
    refine ⟨who.other, shape.theirs.waiting.trans (if_neg ?_)⟩
    rintro rfl
    cases shape.permits
  · exact ⟨who, shape.mine.waiting.trans (if_neg asleep)⟩

theorem Shape.victim (shape : Shape who .deadlocked .returned s) :
    s.status who = some (-1) ∧ s.status who.other = some 0 ∧
      s.output who =
        [Phase.got who (first who), .fprintf who "writew_lock error: %s\n" .edeadlk] ∧
      s.output who.other =
        [Phase.got who.other (first who.other), Phase.got who.other (first who)] := by
  have output := shape.theirs.output
  rw [Phase.output, TellWait.other_other] at output
  exact ⟨shape.mine.status, shape.theirs.status, shape.mine.output, output⟩

end Transitions

/-- **deadlock.c.**  In every interleaving in which no call on a pipe fails, the processes
never both sleep, and both can be brought to their end; there, one of them was told of the
deadlock by its second `writew_lock` and exited with -1, and the other one got both bytes
and returned 0. -/
theorem deadlock_resolved {es : List Event} {s : System}
    (reached : run System.step start es = some s) (calm : ∀ e ∈ es, e.Calm) :
    (∃ who, s.file.waiting who = none) ∧ Leads System.step s System.Over ∧
      (s.Over → ∃ victim, s.status victim = some (-1) ∧ s.status victim.other = some 0 ∧
        s.output victim =
          [Phase.got victim (first victim), .fprintf victim "writew_lock error: %s\n" .edeadlk] ∧
        s.output victim.other = [Phase.got victim.other (first victim.other),
          Phase.got victim.other (first victim)]) := by
  obtain ⟨a, b, shape⟩ : ∃ a b, Shape .parent a b s :=
    run_along System.step (fun s => ∃ a b, Shape .parent a b s)
      (fun s e t shape calm stepped => by
        obtain ⟨a, b, shape⟩ := shape
        exact shape.kept calm stepped)
      ⟨_, _, start_shape .parent⟩ (along_of_forall System.step calm) reached
  refine ⟨shape.awake, shape.finishes, fun ended => ?_⟩
  have mine : a.status ≠ none := shape.mine.status ▸ ended _
  have theirs : b.status ≠ none := shape.theirs.status ▸ ended _
  have permits := shape.permits
  cases a with
  | deadlocked =>
      cases b with
      | returned => exact ⟨_, shape.victim⟩
      | _ => simp [Phase.permits, Phase.status] at permits theirs
  | returned =>
      obtain rfl : b = .deadlocked := of_decide_eq_true permits
      exact ⟨_, shape.swap.victim⟩
  | _ => exact absurd rfl mine

/-- The child sleeps first, so that the parent is told of the deadlock. -/
def parentLoses : List Event :=
  [.moves .parent false, .moves .child false, .moves .parent false, .moves .child false,
    .moves .child false, .moves .parent false, .moves .child false, .moves .parent false,
    .wakes .child, .moves .child false]

theorem deadlock_resolved_parentLoses : ∃ s, run System.step start parentLoses = some s ∧
    ∃ victim, s.status victim = some (-1) ∧ s.status victim.other = some 0 := by
  have resolved := deadlock_resolved (rfl : run System.step start parentLoses = some _)
    (by simp [parentLoses, Event.Calm])
  obtain ⟨victim, lost, won, -⟩ := resolved.2.2 fun who => by
    cases who <;> exact Option.some_ne_none _
  exact ⟨_, rfl, victim, lost, won⟩

end UnixDemos.Flock.Deadlock
