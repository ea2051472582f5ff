/-
# FileIo.FutimensDemo — futimens_demo.c: files emptied with their times kept

For each argument `main` takes the times of the file, opens it with `O_TRUNC`, which
empties it and changes its modification time, and sets the times back with `futimes`.  A
`timeval` has microseconds, so the nanoseconds below are lost.

The names can lead to one file in many ways, and a file that comes again has the times the
first turn left.  `Restored opened s s'` says what a stretch of the loop does with the
files `opened` in it and with the others; stretches compose (`Restored.trans`) because
cutting to microseconds twice is cutting once.
-/
import UnixDemos.Library.FileSystem

namespace UnixDemos.FileIo.FutimensDemo

open UnixDemos.Library

set_option autoImplicit false

/-! ## Times -/

structure Timespec where
  sec : Int
  nsec : Nat
  bound : nsec < 1000000000
  deriving DecidableEq

structure Timeval where
  sec : Int
  usec : Nat
  bound : usec < 1000000

/-- `tv_usec = tv_nsec / 1000`. -/
def Timespec.toTimeval (t : Timespec) : Timeval where
  sec := t.sec
  usec := t.nsec / 1000
  bound := by
    have := t.bound
    omega

def Timeval.toTimespec (tv : Timeval) : Timespec where
  sec := tv.sec
  nsec := tv.usec * 1000
  bound := by
    have := tv.bound
    omega

/-- Rounded down to whole microseconds. -/
def Timespec.floor (t : Timespec) : Timespec where
  sec := t.sec
  nsec := t.nsec - t.nsec % 1000
  bound := by
    have := t.bound
    omega

theorem toTimespec_toTimeval (t : Timespec) : t.toTimeval.toTimespec = t.floor := by
  have exact_part : t.nsec / 1000 * 1000 = t.nsec - t.nsec % 1000 := by omega
  simp only [Timespec.toTimeval, Timeval.toTimespec, Timespec.floor, exact_part]

theorem Timespec.floor_floor (t : Timespec) : t.floor.floor = t.floor := by
  have whole : t.nsec - t.nsec % 1000 - (t.nsec - t.nsec % 1000) % 1000 =
      t.nsec - t.nsec % 1000 := by omega
  simp only [Timespec.floor, whole]

/-- `st_atimespec`, `st_mtimespec` and `st_ctimespec`. -/
structure Times where
  atime : Timespec
  mtime : Timespec
  ctime : Timespec
  deriving DecidableEq

/-! ## The program -/

/-- Messages on the standard error stream, with their arguments. -/
inductive Io where
  | usage (format name : String)
  | fprintf (format path : String) (errno : Int)
  deriving DecidableEq, Repr

/-- What the calls for one argument answer: `false` is a call that fails though the path
leads to a file, `opened` and `set` are the times at which `open` and `futimes` are done. -/
structure Answers where
  stat : Bool
  opens : Bool
  futimes : Bool
  errno : Int
  opened : Timespec
  set : Timespec

structure State (ι : Type) where
  fs : FileSystem String ι
  times : ι → Times
  log : List Io

variable {ι : Type}

def State.note (s : State ι) (io : Io) : State ι := { s with log := s.log ++ [io] }

variable [DecidableEq ι]

/-- `open` with `O_RDWR | O_TRUNC`, on a file that is there. -/
def State.truncate (s : State ι) (ino : ι) (now : Timespec) : State ι :=
  { s with
    fs := s.fs.write ino .empty
    times := Function.update s.times ino { s.times ino with mtime := now, ctime := now } }

def State.futimes (s : State ι) (ino : ι) (tv0 tv1 : Timeval) (now : Timespec) : State ι :=
  { s with
    times := Function.update s.times ino
      { atime := tv0.toTimespec, mtime := tv1.toTimespec, ctime := now } }

/-- The body of the loop. -/
def turn (answers : Answers) (path : String) (s : State ι) : State ι :=
  match answers.stat, s.fs.lookup path with
  | true, some ino =>
      let sbuf := s.times ino
      match answers.opens, s.fs.lookup path with
      | true, some fd =>
          let s := s.truncate fd answers.opened
          if answers.futimes then
            s.futimes fd sbuf.atime.toTimeval sbuf.mtime.toTimeval answers.set
          else s.note (.fprintf "futimens error on %s: %s\n" path answers.errno)
      | _, _ => s.note (.fprintf "open error on %s: %s\n" path answers.errno)
  | _, _ => s.note (.fprintf "stat error on %s: %s\n" path answers.errno)

/-- The loop, from the `i`-th argument on. -/
def loop (answers : Nat → Answers) : Nat → List String → State ι → State ι
  | _, [], s => s
  | i, path :: paths, s => loop answers (i + 1) paths (turn (answers i) path s)

def main (answers : Nat → Answers) (argv : List String) (s : State ι) : State ι × Int :=
  match argv with
  | _ :: path :: paths => (loop answers 1 (path :: paths) s, 0)
  | argv => (s.note (.usage "Usage: %s <pathname> [pathname ...]\n" (argv.headD "(null)")), 1)

/-! ## Stretches of the loop -/

section Loop

variable {s s' s'' : State ι}

/-- What a stretch of the loop does, with `opened` the files opened in it. -/
structure Restored (opened : ι → Prop) (s s' : State ι) : Prop where
  names : s'.fs.names = s.fs.names
  emptied : ∀ ino, opened ino → s'.fs.files ino = some .empty
  times : ∀ ino, opened ino → (s'.times ino).atime = (s.times ino).atime.floor ∧
    (s'.times ino).mtime = (s.times ino).mtime.floor
  unchanged : ∀ ino, ¬ opened ino → s'.fs.files ino = s.fs.files ino ∧ s'.times ino = s.times ino

omit [DecidableEq ι] in
/-- A file of the second stretch may be one of the first. -/
theorem Restored.trans {opened opened' : ι → Prop} (first : Restored opened s s')
    (second : Restored opened' s' s'') :
    Restored (fun ino => opened ino ∨ opened' ino) s s'' where
  names := second.names.trans first.names
  emptied ino either := by
    by_cases again : opened' ino
    · exact second.emptied ino again
    · rw [(second.unchanged ino again).1]
      exact first.emptied ino (either.resolve_right again)
  times ino either := by
    by_cases again : opened' ino
    · obtain ⟨atime, mtime⟩ := second.times ino again
      by_cases before : opened ino
      · obtain ⟨atime', mtime'⟩ := first.times ino before
        rw [atime, mtime, atime', mtime', Timespec.floor_floor, Timespec.floor_floor]
        exact ⟨rfl, rfl⟩
      · rw [← (first.unchanged ino before).2]
        exact ⟨atime, mtime⟩
    · rw [(second.unchanged ino again).2]
      exact first.times ino (either.resolve_right again)
  unchanged ino neither := by
    obtain ⟨before, again⟩ := not_or.mp neither
    obtain ⟨files, times⟩ := first.unchanged ino before
    obtain ⟨files', times'⟩ := second.unchanged ino again
    exact ⟨files'.trans files, times'.trans times⟩

omit [DecidableEq ι] in
theorem Restored.congr {opened opened' : ι → Prop} (restored : Restored opened s s')
    (same : ∀ ino, opened' ino ↔ opened ino) : Restored opened' s s' := by
  have eq : opened' = opened := funext fun ino => propext (same ino)
  rwa [eq]

omit [DecidableEq ι] in
theorem restored_note (s : State ι) (io : Io) : Restored (fun _ => False) s (s.note io) :=
  ⟨rfl, nofun, nofun, fun _ _ => ⟨rfl, rfl⟩⟩

/-- A file is emptied and its times are set back. -/
theorem restored_file (s : State ι) (ino : ι) (opened set : Timespec) :
    Restored (fun i => i = ino) s ((s.truncate ino opened).futimes ino
      (s.times ino).atime.toTimeval (s.times ino).mtime.toTimeval set) where
  names := rfl
  emptied i same := by
    subst same
    exact FileSystem.files_write_self ..
  times i same := by
    subst same
    simp only [State.futimes, Function.update_self, toTimespec_toTimeval, and_self]
  unchanged i other :=
    ⟨FileSystem.files_write_of_ne _ _ other,
      (Function.update_of_ne other ..).trans (Function.update_of_ne other ..)⟩

/-- The file is opened through this argument. -/
def Opens (answers : Answers) (fs : FileSystem String ι) (path : String) (ino : ι) : Prop :=
  answers.stat = true ∧ answers.opens = true ∧ fs.lookup path = some ino

/-- An argument through which no file is opened only makes a message. -/
theorem turn_skips {answers : Answers} {path : String} {s : State ι}
    (none : ∀ ino, ¬ Opens answers s.fs path ino) : ∃ io, turn answers path s = s.note io := by
  unfold turn
  cases found : s.fs.lookup path with
  | none => exact ⟨_, by cases answers.stat <;> rfl⟩
  | some ino =>
      cases stat : answers.stat with
      | false => exact ⟨_, rfl⟩
      | true =>
          cases opens : answers.opens with
          | false => exact ⟨_, rfl⟩
          | true => exact absurd ⟨stat, opens, found⟩ (none ino)

theorem turn_opens {answers : Answers} {path : String} {s : State ι} {ino : ι}
    (opens : Opens answers s.fs path ino) (succeeds : answers.futimes = true) :
    turn answers path s = (s.truncate ino answers.opened).futimes ino
      (s.times ino).atime.toTimeval (s.times ino).mtime.toTimeval answers.set := by
  obtain ⟨stat, opened, found⟩ := opens
  simp only [turn, stat, opened, found, succeeds, if_true]

theorem restored_turn {answers : Answers} (succeeds : answers.futimes = true) (path : String)
    (s : State ι) : Restored (Opens answers s.fs path) s (turn answers path s) := by
  by_cases some_file : ∃ ino, Opens answers s.fs path ino
  · obtain ⟨ino, opens⟩ := some_file
    rw [turn_opens opens succeeds]
    refine (restored_file s ino answers.opened answers.set).congr fun i => ?_
    constructor
    · exact fun opens' => Option.some.inj (opens'.2.2.symm.trans opens.2.2)
    · rintro rfl
      exact opens
  · rw [not_exists] at some_file
    obtain ⟨io, skipped⟩ := turn_skips some_file
    rw [skipped]
    exact (restored_note s io).congr fun i => iff_of_false (some_file i) id

omit [DecidableEq ι] in
/-- The names stay, so what an argument opens does not depend on the turns before it. -/
theorem Restored.opens_iff {opened : ι → Prop} (restored : Restored opened s s')
    (answers : Answers) (path : String) (ino : ι) :
    Opens answers s'.fs path ino ↔ Opens answers s.fs path ino := by
  unfold Opens
  rw [FileSystem.lookup_congr restored.names]

/-- A file is opened in the loop if it is through one of the arguments. -/
theorem restored_loop {answers : Nat → Answers} (succeeds : ∀ i, (answers i).futimes = true)
    (i : Nat) (paths : List String) (s : State ι) :
    Restored (fun ino => ∃ k path, paths[k]? = some path ∧ Opens (answers (i + k)) s.fs path ino) s
      (loop answers i paths s) := by
  induction paths generalizing i s with
  | nil => exact ⟨rfl, by simp, by simp, fun _ _ => ⟨rfl, rfl⟩⟩
  | cons path paths ih =>
      have first := restored_turn (succeeds i) path s
      have rest := ih (i + 1) (turn (answers i) path s)
      refine (first.trans rest).congr fun ino => ?_
      constructor
      · rintro ⟨k, path', here, opens⟩
        cases k with
        | zero =>
            cases here
            exact Or.inl opens
        | succ k =>
            rw [← Nat.succ_add_eq_add_succ] at opens
            exact Or.inr ⟨k, path', here, (first.opens_iff ..).mpr opens⟩
      · rintro (opens | ⟨k, path', here, opens⟩)
        · exact ⟨0, path, rfl, opens⟩
        · refine ⟨k + 1, path', here, ?_⟩
          rw [← Nat.succ_add_eq_add_succ]
          exact (first.opens_iff ..).mp opens

/-- **Emptied, with the times kept.**  For any arguments, whatever names of one file are
among them and whichever calls to `stat` and `open` fail, every file that is opened through
an argument ends up empty, with its access and modification times from before the run
rounded down to microseconds, and every other file is as it was. -/
theorem times_restored {answers : Nat → Answers} (succeeds : ∀ i, (answers i).futimes = true)
    {argv : List String} (args : 2 ≤ argv.length) (s : State ι) :
    (main answers argv s).2 = 0 ∧
      Restored (fun ino => ∃ i path, 1 ≤ i ∧ argv[i]? = some path ∧ Opens (answers i) s.fs path ino)
        s (main answers argv s).1 := by
  obtain ⟨name, path, paths, rfl⟩ : ∃ name path paths, argv = name :: path :: paths := by
    cases argv with
    | nil => simp at args
    | cons name argv =>
        cases argv with
        | nil => simp at args
        | cons path paths => exact ⟨name, path, paths, rfl⟩
  refine ⟨rfl, (restored_loop succeeds 1 (path :: paths) s).congr fun ino => ?_⟩
  constructor
  · rintro ⟨i, path', positive, here, opens⟩
    obtain ⟨k, rfl⟩ : ∃ k, i = 1 + k := ⟨i - 1, by omega⟩
    rw [Nat.add_comm 1 k, List.getElem?_cons_succ] at here
    exact ⟨k, path', here, opens⟩
  · rintro ⟨k, path', here, opens⟩
    refine ⟨1 + k, path', by omega, ?_, opens⟩
    rw [Nat.add_comm 1 k, List.getElem?_cons_succ]
    exact here

end Loop

/-! ## One file under two names -/

/-- `a` and `b` are links to one file. -/
def hardLinks : FileSystem String Nat where
  names path := if path = "a" ∨ path = "b" then some (.file 0) else none
  files ino := if ino = 0 then some ⟨[104, 105], by decide⟩ else none
  live path ino named := by
    split at named
    · cases named
      rfl
    · cases named

/-- Access at 5 s and 1234 ns, modification a nanosecond before the epoch. -/
def oldTimes : Times := ⟨⟨5, 1234, by decide⟩, ⟨-1, 999999999, by decide⟩, ⟨7, 0, by decide⟩⟩

def granting : Answers := ⟨true, true, true, 0, ⟨100, 0, by decide⟩, ⟨101, 0, by decide⟩⟩

def untouched : State Nat := ⟨hardLinks, fun _ => oldTimes, []⟩

/-- The second name finds the times the first has left. -/
theorem times_restored_hard_links :
    (main (fun _ => granting) ["futimens_demo", "a", "b"] untouched).1.fs.files 0 = some .empty ∧
      ((main (fun _ => granting) ["futimens_demo", "a", "b"] untouched).1.times 0).mtime =
        ⟨-1, 999999000, by decide⟩ := by
  obtain ⟨-, restored⟩ := @times_restored Nat _ (fun _ => granting) (fun _ => rfl)
    ["futimens_demo", "a", "b"] (by decide) untouched
  have opened : ∃ i path, 1 ≤ i ∧ ["futimens_demo", "a", "b"][i]? = some path ∧
      Opens granting hardLinks path 0 :=
    ⟨1, "a", by decide, rfl, rfl, rfl, by decide⟩
  exact ⟨restored.emptied 0 opened, (restored.times 0 opened).2⟩

end UnixDemos.FileIo.FutimensDemo
