/-
# Daemon.Daemonize — daemonize of daemonize.c and the descriptors it leaves

`daemonize` forks twice, goes to the root directory, closes every descriptor below the
hard limit and opens `/dev/null` as 0, 1 and 2.  The loop counts with an `int` and
compares it with an unsigned 64-bit limit, and takes 1024 for a limit that is infinite.

`open` and `dup` give the lowest free number, if that is below the soft limit, and `dup`
fails on a descriptor that is not open.  `Answers` has what the other calls answer, and
which side of each `fork` this is.

* an `int` that is counted up at `INT_MAX` is an overflow, and what happens then is not
  defined (`overflow`); it is met if the limit is above `INT_MAX`;
* a descriptor at the limit or above it stays open (`ClosedBelow`), and then either it is
  still there at the end or it takes a number that 0, 1 or 2 should have got;
* with a soft limit below 3 there is no number 2.
-/
import UnixDemos.Library.CInt
import UnixDemos.Library.Descriptor

namespace UnixDemos.Daemon.Daemonize

open UnixDemos.Library

set_option autoImplicit false

/-! ## The program -/

/-- What a descriptor refers to. -/
inductive File where
  | devNull
  | inherited (n : Nat)
  deriving DecidableEq, Repr

inductive Io where
  | umask (mask : Nat)
  | setsid
  | ignoreSighup
  | chdir (path : String)
  | openlog (ident : String)
  | perror (text : String)
  | fprintf (format arg : String)
  | syslog (format : String) (args : List Int)
  deriving DecidableEq, Repr

inductive Fork where
  | failed
  | parent
  | child
  deriving DecidableEq, Repr

/-- `getrlimit` has `rlim_max`; `false` is a call that fails.  The soft limit `rlimCur` is
what `open` and `dup` keep to. -/
structure Answers where
  getrlimit : Option UInt64
  rlimCur : UInt64
  fork : Fork
  sigaction : Bool
  forkAgain : Fork
  chdir : Bool
  devNull : Bool

structure Process where
  fds : FdTable File
  log : List Io

def Process.note (p : Process) (io : Io) : Process := { p with log := p.log ++ [io] }

inductive Outcome where
  | returned
  | exit (status : Int)
  | overflow
  deriving DecidableEq, Repr

/-- `RLIM_INFINITY`. -/
def rlimInfinity : UInt64 := 0xffffffffffffffff

/-- `rl.rlim_max` as the loop finds it. -/
def closeLimit (rlimMax : UInt64) : UInt64 := if rlimMax = rlimInfinity then 1024 else rlimMax

/-- The loop `for (int i=0; i<rl.rlim_max; i++) close(i)`.  The outer `none` is a loop
that is not done after `fuel` rounds, the inner one an overflow of `i`. -/
def closeLoop (limit : UInt64) : Nat → Int → FdTable File → Option (Option (FdTable File))
  | 0, _, _ => none
  | fuel + 1, i, fds =>
      if toSize i < limit.toNat then
        if i = intMax then some none
        else closeLoop limit fuel (i + 1) (fds.close i.toNat)
      else some (some fds)

/-- There is a number for one more descriptor; otherwise the call fails with `EMFILE`. -/
def hasNumber (answers : Answers) (fds : FdTable File) : Bool :=
  decide (fds.lowestFree < answers.rlimCur.toNat)

/-- `open("/dev/null", O_RDWR)`. -/
def openDevNull (answers : Answers) (fds : FdTable File) : FdTable File × Int :=
  if answers.devNull && hasNumber answers fds then (fds.install .devNull, fds.lowestFree)
  else (fds, -1)

/-- `dup(0)`. -/
def dupZero (answers : Answers) (fds : FdTable File) : FdTable File × Int :=
  if hasNumber answers fds then
    match fds.dup 0 with
    | none => (fds, -1)
    | some (fds, fd) => (fds, fd)
  else (fds, -1)

/-- From the `open` to the end. -/
def attach (answers : Answers) (cmd : String) (p : Process) : Process × Outcome :=
  let (fds, fd0) := openDevNull answers p.fds
  let (fds, fd1) := dupZero answers fds
  let (fds, fd2) := dupZero answers fds
  let p := Process.note { p with fds } (.openlog cmd)
  if fd0 ≠ 0 ∨ fd1 ≠ 1 ∨ fd2 ≠ 2 then
    (p.note (.syslog "unexpected file descriptors %d %d %d" [fd0, fd1, fd2]), .exit 1)
  else (p, .returned)

/-- Behind the loop. -/
def afterLoop (answers : Answers) (cmd : String) (p : Process) :
    Option (FdTable File) → Process × Outcome
  | none => (p, .overflow)
  | some fds => attach answers cmd { p with fds }

/-- Behind the second `fork`. -/
def leave (answers : Answers) (cmd : String) (fuel : Nat) (rlimMax : UInt64) (p : Process) :
    Option (Process × Outcome) :=
  if answers.chdir = false then some (p.note (.perror "chdir error"), .exit (-1))
  else
    let p := p.note (.chdir "/")
    (closeLoop (closeLimit rlimMax) fuel 0 p.fds).map (afterLoop answers cmd p)

def daemonize (answers : Answers) (cmd : String) (fuel : Nat) (p : Process) :
    Option (Process × Outcome) :=
  let p := p.note (.umask 0)
  match answers.getrlimit with
  | none => some (p.note (.perror " getrlimit error"), .exit (-1))
  | some rlimMax =>
      match answers.fork with
      | .failed => some (p.note (.perror "fork error"), .exit (-1))
      | .parent => some (p, .exit 0)
      | .child =>
          let p := p.note .setsid
          if answers.sigaction = false then
            let p := p.note (.fprintf "%s: can't ignore SIGHUP" cmd)
            some (p.note (.perror ""), .exit (-1))
          else
            let p := p.note .ignoreSighup
            match answers.forkAgain with
            | .failed => some (p.note (.perror "fork error"), .exit (-1))
            | .parent => some (p, .exit 0)
            | .child => leave answers cmd fuel rlimMax p

/-! ## The loop -/

/-- The table after the descriptors below `n` were closed. -/
def ClosedBelow (n : Nat) (before after : FdTable File) : Prop :=
  ∀ fd, after.file fd = if fd < n then none else before.file fd

theorem closedBelow_zero (fds : FdTable File) : ClosedBelow 0 fds fds := fun _ => rfl

theorem ClosedBelow.close {n : Nat} {before after : FdTable File}
    (closed : ClosedBelow n before after) : ClosedBelow (n + 1) before (after.close n) := by
  intro fd
  rcases Nat.lt_trichotomy fd n with below | rfl | above
  · rw [FdTable.file_close_of_ne (Nat.ne_of_lt below), closed fd, if_pos below, if_pos (by omega)]
  · rw [FdTable.file_close_self, if_pos (Nat.lt_succ_self fd)]
  · rw [FdTable.file_close_of_ne (Nat.ne_of_gt above), closed fd, if_neg (by omega),
      if_neg (by omega)]

section Loop

variable {limit : UInt64} {before fds : FdTable File}

theorem toSize_index {n : Nat} (isInt : (n : Int) ≤ intMax) : toSize n = n := by
  have bound : intMax = 2 ^ 31 - 1 := rfl
  exact toSize_of_mem (by omega) (by omega)

/-- A loop that ends well has a limit that an `int` can reach, and has closed what is
below it. -/
theorem closeLoop_some {n fuel : Nat} (closed : ClosedBelow n before fds)
    (atMost : n ≤ limit.toNat) (isInt : (n : Int) ≤ intMax) {fds' : FdTable File}
    (done : closeLoop limit fuel n fds = some (some fds')) :
    (limit.toNat : Int) ≤ intMax ∧ ClosedBelow limit.toNat before fds' := by
  induction fuel generalizing n fds with
  | zero => cases done
  | succ fuel ih =>
      unfold closeLoop at done
      rw [toSize_index isInt] at done
      split at done
      · split at done
        · cases done
        · exact ih closed.close (by omega) (by omega) done
      · cases done
        obtain rfl : n = limit.toNat := by omega
        exact ⟨isInt, closed⟩

/-- With such a limit, a round for each descriptor and one more are enough. -/
theorem closeLoop_done (reachable : (limit.toNat : Int) ≤ intMax) {n fuel : Nat}
    (atMost : n ≤ limit.toNat) (enough : limit.toNat < n + fuel) :
    ∃ fds', closeLoop limit fuel n fds = some (some fds') := by
  induction fuel generalizing n fds with
  | zero => omega
  | succ fuel ih =>
      unfold closeLoop
      rw [toSize_index (by omega)]
      by_cases more : n < limit.toNat
      · have next := @ih (fds.close n) (n + 1) more (by omega)
        rw [if_pos (by omega), if_neg (by omega), Int.toNat_natCast]
        exact next
      · exact ⟨fds, if_neg (by omega)⟩

end Loop

/-! ## 0, 1 and 2 -/

/-- Only the descriptors below `n` are open, and they are `/dev/null`. -/
def OnlyDevNull (n : Nat) (fds : FdTable File) : Prop :=
  ∀ fd, fds.file fd = if fd < n then some .devNull else none

section Attach

variable {answers : Answers} {cmd : String} {p : Process} {fds : FdTable File}

theorem OnlyDevNull.install {n : Nat} (only : OnlyDevNull n fds) :
    fds.lowestFree = n ∧ OnlyDevNull (n + 1) (fds.install .devNull) := by
  have next : fds.lowestFree = n := by
    apply FdTable.lowestFree_eq
    · rw [only n, if_neg (Nat.lt_irrefl n)]
    · intro i below
      rw [only i, if_pos below]
      exact Option.some_ne_none _
  refine ⟨next, fun fd => ?_⟩
  by_cases new : fd = n
  · rw [new, if_pos (Nat.lt_succ_self n), ← next, FdTable.file_install_self]
  · rw [FdTable.file_install_of_ne _ (next ▸ new), only fd]
    by_cases below : fd < n
    · rw [if_pos below, if_pos (by omega)]
    · rw [if_neg below, if_neg (by omega)]

theorem OnlyDevNull.openDevNull {n : Nat} (only : OnlyDevNull n fds)
    (openable : answers.devNull = true) (room : n < answers.rlimCur.toNat) :
    (openDevNull answers fds).2 = n ∧
      OnlyDevNull (n + 1) (Daemonize.openDevNull answers fds).1 := by
  obtain ⟨next, filled⟩ := only.install
  simp only [Daemonize.openDevNull, hasNumber, openable, next, room, decide_true, Bool.and_self,
    if_true]
  exact ⟨trivial, filled⟩

theorem OnlyDevNull.dupZero {n : Nat} (only : OnlyDevNull (n + 1) fds)
    (room : n + 1 < answers.rlimCur.toNat) :
    (dupZero answers fds).2 = (n + 1 : Nat) ∧
      OnlyDevNull (n + 2) (Daemonize.dupZero answers fds).1 := by
  obtain ⟨next, filled⟩ := only.install
  have zero : fds.file 0 = some .devNull := (only 0).trans (if_pos (Nat.succ_pos n))
  simp only [Daemonize.dupZero, hasNumber, FdTable.dup, zero, Option.map_some, next, room,
    decide_true, if_true]
  exact ⟨trivial, filled⟩

/-- Nothing is open, so the three numbers come in turn. -/
theorem attach_returned (openable : answers.devNull = true) (room : 3 ≤ answers.rlimCur.toNat)
    (cmd : String) (closed : ∀ fd, p.fds.file fd = none) :
    (attach answers cmd p).2 = .returned ∧ OnlyDevNull 3 (attach answers cmd p).1.fds := by
  have none_open : OnlyDevNull 0 p.fds := closed
  obtain ⟨number0, one⟩ := none_open.openDevNull openable (by omega)
  obtain ⟨number1, two⟩ := one.dupZero (show 0 + 1 < answers.rlimCur.toNat by omega)
  obtain ⟨number2, three⟩ := two.dupZero (show 1 + 1 < answers.rlimCur.toNat by omega)
  simp only [attach, number0, number1, number2]
  exact ⟨rfl, three⟩

/-- An open descriptor is not given away. -/
theorem file_install {fd : Nat} {file : File} (here : fds.file fd = some file) (new : File) :
    fds.lowestFree ≠ fd ∧ (fds.install new).file fd = some file := by
  have other : fd ≠ fds.lowestFree := by
    rintro rfl
    rw [FdTable.file_lowestFree] at here
    cases here
  exact ⟨other.symm, (FdTable.file_install_of_ne new other).trans here⟩

theorem file_openDevNull {fd : Nat} {file : File} (here : fds.file fd = some file) :
    (openDevNull answers fds).2 ≠ fd ∧ (openDevNull answers fds).1.file fd = some file := by
  obtain ⟨other, kept⟩ := file_install here .devNull
  unfold openDevNull
  split
  · exact ⟨by omega, kept⟩
  · exact ⟨by omega, here⟩

theorem file_dupZero {fd : Nat} {file : File} (here : fds.file fd = some file) :
    (dupZero answers fds).2 ≠ fd ∧ (dupZero answers fds).1.file fd = some file := by
  unfold dupZero FdTable.dup
  split
  · cases fds.file 0 with
    | none => exact ⟨by simp only [Option.map_none]; omega, here⟩
    | some zero =>
        obtain ⟨other, kept⟩ := file_install here zero
        exact ⟨by simp only [Option.map_some]; omega, kept⟩
  · exact ⟨by omega, here⟩

/-- A number that `dup` gives is below the soft limit. -/
theorem dupZero_lt {n : Nat} (number : (dupZero answers fds).2 = n) :
    n < answers.rlimCur.toNat := by
  unfold dupZero FdTable.dup hasNumber at number
  split at number
  · rename_i room
    have below := of_decide_eq_true room
    cases zero : fds.file 0 with
    | none =>
        rw [zero] at number
        simp only [Option.map_none] at number
        omega
    | some file =>
        rw [zero] at number
        simp only [Option.map_some] at number
        omega
  · omega

/-- If 0, 1 and 2 are as expected, whatever was open before was none of them and is open
still. -/
theorem file_of_attach_returned (returned : (attach answers cmd p).2 = .returned) {fd : Nat}
    {file : File} (here : p.fds.file fd = some file) :
    3 ≤ fd ∧ (attach answers cmd p).1.fds.file fd = some file := by
  obtain ⟨not0, here0⟩ := @file_openDevNull answers _ _ _ here
  obtain ⟨not1, here1⟩ := @file_dupZero answers _ _ _ here0
  obtain ⟨not2, here2⟩ := @file_dupZero answers _ _ _ here1
  simp only [attach] at returned ⊢
  split at returned
  · cases returned
  · rename_i expected
    rw [if_neg expected]
    refine ⟨by omega, here2⟩

theorem room_of_attach_returned (returned : (attach answers cmd p).2 = .returned) :
    3 ≤ answers.rlimCur.toNat := by
  simp only [attach] at returned
  split at returned
  · cases returned
  · rename_i expected
    rw [not_or, not_or, not_not, not_not, not_not] at expected
    exact dupZero_lt (n := 2) expected.2.2

end Attach

/-! ## A clean table -/

/-- The process that both forks leave as the child, with no call failing. -/
def daemon (rlimMax rlimCur : UInt64) (devNull : Bool) : Answers where
  getrlimit := some rlimMax
  rlimCur := rlimCur
  fork := .child
  sigaction := true
  forkAgain := .child
  chdir := true
  devNull := devNull

/-- The loop ends without an overflow, `/dev/null` gets the numbers it should if it can be
opened, and a call that returns leaves 0, 1 and 2 on `/dev/null` and nothing else open. -/
def Clean (answers : Answers) (cmd : String) (p : Process) : Prop :=
  ∃ fuel p' outcome, daemonize answers cmd fuel p = some (p', outcome) ∧ outcome ≠ .overflow ∧
    (answers.devNull = true → outcome ≠ .exit 1) ∧ (outcome = .returned → OnlyDevNull 3 p'.fds)

section Clean

variable {rlimMax rlimCur : UInt64} {devNull : Bool} {cmd : String} {p : Process}

/-- What the daemon does before the loop has nothing to do with descriptors. -/
theorem daemonize_daemon (rlimMax rlimCur : UInt64) (devNull : Bool) (cmd : String) (p : Process) :
    ∃ q, ∀ fuel, daemonize (daemon rlimMax rlimCur devNull) cmd fuel p =
      (closeLoop (closeLimit rlimMax) fuel 0 p.fds).map
        (afterLoop (daemon rlimMax rlimCur devNull) cmd q) :=
  ⟨(((p.note (.umask 0)).note .setsid).note .ignoreSighup).note (.chdir "/"), fun _ => rfl⟩

/-- Without `/dev/null` the numbers are not as expected. -/
theorem attach_exit {answers : Answers} (notOpenable : answers.devNull = false) (cmd : String)
    (p : Process) : (attach answers cmd p).2 = .exit 1 := by
  simp [attach, openDevNull, notOpenable]

theorem attach_outcome (answers : Answers) (cmd : String) (p : Process) :
    (attach answers cmd p).2 = .returned ∨ (attach answers cmd p).2 = .exit 1 := by
  simp only [attach]
  split
  · exact Or.inr rfl
  · exact Or.inl rfl

theorem below_of_clean (clean : Clean (daemon rlimMax rlimCur devNull) cmd p) :
    ((closeLimit rlimMax).toNat : Int) ≤ intMax ∧ (devNull = true → 3 ≤ rlimCur.toNat ∧
      ∀ fd, p.fds.file fd ≠ none → fd < (closeLimit rlimMax).toNat) := by
  obtain ⟨fuel, p', outcome, ran, noOverflow, expected, only⟩ := clean
  obtain ⟨q, stages⟩ := daemonize_daemon rlimMax rlimCur devNull cmd p
  rw [stages, Option.map_eq_some_iff] at ran
  obtain ⟨closed, looped, after⟩ := ran
  cases closed with
  | none =>
      cases after
      exact absurd rfl noOverflow
  | some fds =>
      obtain ⟨reachable, below⟩ :=
        closeLoop_some (closedBelow_zero p.fds) (Nat.zero_le _) (by decide) looped
      have attached : attach (daemon rlimMax rlimCur devNull) cmd { q with fds } =
        (p', outcome) := after
      have ends := attach_outcome (daemon rlimMax rlimCur devNull) cmd { q with fds }
      rw [attached] at ends
      refine ⟨reachable, fun openable => ?_⟩
      have returned := ends.resolve_right (expected openable)
      refine ⟨room_of_attach_returned (attached ▸ returned), fun fd isOpen => ?_⟩
      -- a descriptor that the loop left open is there at the end
      by_contra above
      obtain ⟨file, here⟩ := Option.ne_none_iff_exists'.mp isOpen
      rw [← (below fd).trans (if_neg above)] at here
      obtain ⟨three, kept⟩ := file_of_attach_returned (attached ▸ returned) here
      rw [attached, only returned fd, if_neg (by omega)] at kept
      cases kept

theorem clean_of_below (reachable : ((closeLimit rlimMax).toNat : Int) ≤ intMax)
    (below : devNull = true → 3 ≤ rlimCur.toNat ∧
      ∀ fd, p.fds.file fd ≠ none → fd < (closeLimit rlimMax).toNat) :
    Clean (daemon rlimMax rlimCur devNull) cmd p := by
  have enough : (closeLimit rlimMax).toNat < 0 + ((closeLimit rlimMax).toNat + 1) := by omega
  obtain ⟨fds, done⟩ := @closeLoop_done _ p.fds reachable _ _ (Nat.zero_le _) enough
  obtain ⟨-, closed⟩ := closeLoop_some (closedBelow_zero p.fds) (Nat.zero_le _) (by decide) done
  obtain ⟨q, stages⟩ := daemonize_daemon rlimMax rlimCur devNull cmd p
  have ran := stages ((closeLimit rlimMax).toNat + 1)
  rw [show closeLoop (closeLimit rlimMax) _ 0 p.fds = some (some fds) from done,
    Option.map_some, afterLoop] at ran
  rcases attached : attach (daemon rlimMax rlimCur devNull) cmd { q with fds } with ⟨p', outcome⟩
  rw [attached] at ran
  refine ⟨_, p', outcome, ran, ?_⟩
  cases devNull with
  | false =>
      obtain rfl : outcome = .exit 1 := by
        have exited := @attach_exit (daemon rlimMax rlimCur false) rfl cmd { q with fds }
        rwa [attached] at exited
      simp [daemon]
  | true =>
      have allClosed : ∀ fd, fds.file fd = none := by
        intro fd
        by_contra isOpen
        rw [closed fd] at isOpen
        split at isOpen
        · exact isOpen rfl
        · exact absurd ((below rfl).2 fd isOpen) ‹_›
      have clean := @attach_returned (daemon rlimMax rlimCur true) { q with fds } rfl
        (below rfl).1 cmd allClosed
      rw [attached] at clean
      obtain ⟨rfl, only⟩ := clean
      exact ⟨by simp, by simp, fun _ => only⟩

/-- **A clean table.**  Whatever is open when `daemonize` is called and whatever the limits
are, the table is left clean exactly if the loop's limit, 1024 for an infinite one, is at
most `INT_MAX` and, where `/dev/null` can be opened, the soft limit allows three descriptors
and every open one is below the loop's limit. -/
theorem daemonize_clean_iff (rlimMax rlimCur : UInt64) (devNull : Bool) (cmd : String)
    (p : Process) :
    Clean (daemon rlimMax rlimCur devNull) cmd p ↔
      ((closeLimit rlimMax).toNat : Int) ≤ intMax ∧ (devNull = true → 3 ≤ rlimCur.toNat ∧
        ∀ fd, p.fds.file fd ≠ none → fd < (closeLimit rlimMax).toNat) :=
  ⟨below_of_clean, fun bounds => clean_of_below bounds.1 bounds.2⟩

/-- With a hard limit of 3, descriptor 5 stays open beside 0, 1 and 2; with an infinite one
so does 1024; a limit above `INT_MAX` is never reached; and with a soft limit of 2 the
numbers are not as expected. -/
theorem descriptors_left_open :
    (daemonize (daemon 3 3 true) "daemonize" 4
        ⟨[some (.inherited 0), none, none, none, none, some (.inherited 5)], []⟩).map
          (fun r => (r.1.fds, r.2)) =
      some ([some .devNull, some .devNull, some .devNull, none, none, some (.inherited 5)],
        .returned) ∧
    ¬ Clean (daemon rlimInfinity rlimInfinity true) "daemonize"
      ⟨List.replicate 1024 none ++ [some (.inherited 1024)], []⟩ ∧
    ¬ Clean (daemon 0x80000000 1024 true) "daemonize" ⟨[], []⟩ ∧
    (daemonize (daemon 2 2 true) "daemonize" 3 ⟨[], []⟩).map (fun r => r.2) = some (.exit 1) := by
  refine ⟨by decide, fun clean => ?_, fun clean => ?_, by decide⟩
  · have isOpen (n : Nat) :
        FdTable.file (List.replicate n none ++ [some (File.inherited n)]) n ≠ none := by
      simp [FdTable.file]
    exact absurd (((below_of_clean clean).2 rfl).2 1024 (isOpen 1024)) (by decide)
  · exact absurd (below_of_clean clean).1 (by decide)

end Clean

end UnixDemos.Daemon.Daemonize
