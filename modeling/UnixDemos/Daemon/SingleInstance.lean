/-
# Daemon.SingleInstance — one daemon, and its pid in the file

Whoever has got the lock is a `winner` from then to its exit, and holds the lock
all that time; two whole-file write locks conflict, so there is one winner at
most.  Everything that changes the contents is done by a winner, so between its
`ftruncate` and its `write` the file stays empty, and after the `write` it stays
as it is until the next lock is granted, also when the winner is gone by then.
-/
import UnixDemos.Daemon.AlreadyRunning

namespace UnixDemos.Daemon

open UnixDemos.Library

set_option autoImplicit false

/-- Past a granted lock, and not back with 1. -/
def Pc.winner : Pc → Bool
  | .truncating | .printing | .writing => true
  | .returned code => code = 0
  | _ => false

/-- Between the granted lock and the end of the `write`. -/
def Pc.rewriting : Pc → Bool
  | .truncating | .printing | .writing => true
  | _ => false

/-- Past `open`, and so with a file that exists. -/
def Pc.opened : Pc → Bool
  | .absent | .opening => false
  | _ => true

theorem Pc.opened_of_winner {pc : Pc} (winner : pc.winner = true) : pc.opened = true := by
  cases pc <;> first | rfl | cases winner

/-- What the file holds while the pid of `p` is in it. -/
def pidText (p : Pid) : Bytes := printInt p.val ++ [0]

theorem length_pidText_le (p : Pid) : (pidText p).length ≤ bufSize := by
  have inRange : wrap32 p.val = p.val := wrap32_of_mem p.range.1 (Int.lt_of_le_sub_one p.range.2)
  have short := length_printInt_wrap32 p.val
  rw [inRange] at short
  rw [pidText, List.length_append, List.length_singleton, bufSize]
  omega

/-- What is written of a buffer that holds a NUL-terminated text. -/
theorem take_cstr_overwrite {text : Bytes} (nulFree : NulFree text) (buf : Bytes) :
    (overwrite buf (text ++ [0])).take ((cstr (overwrite buf (text ++ [0]))).length + 1) =
      text ++ [0] := by
  rw [cstr_overwrite nulFree, overwrite, List.take_append_of_le_length (by simp)]
  exact List.take_of_length_le (by simp)

/-! ## The invariant -/

/-- What holds of one process: past `open` the file exists, a winner has the lock,
from its `ftruncate` to its `write` the file is empty, and before the `write` the
pid is in its buffer. -/
structure Sound (locks : RangeLocks Pid) (file : Option Bytes) (buf : Bytes) (p : Pid) (pc : Pc) :
    Prop where
  holds : pc.winner = true → locks.Holds p 0 .wrlck
  found : pc.opened = true → file ≠ none
  emptied : pc = .printing ∨ pc = .writing → file = some []
  size : pc ≠ .absent → buf.length = bufSize
  printed : pc = .writing → ∃ old, buf = overwrite old (pidText p)

structure Guarded (s : System) : Prop where
  exclusive : s.locks.Exclusive
  each : ∀ p, Sound s.locks s.file (s.buf p) p (s.pc p)
  inside : s.outside = false

section Steps

variable {s t : System} {e : Event} {p q : Pid}

/-- Two winners are one. -/
theorem Guarded.winner_eq (guarded : Guarded s) (first : (s.pc p).winner = true)
    (second : (s.pc q).winner = true) : p = q :=
  guarded.exclusive.owner_eq (show LockType.wrlck.conflicts .wrlck = true by decide)
    ((guarded.each p).holds first) ((guarded.each q).holds second)

/-- A process keeps what holds of it while the others leave its lock alone, do not
remove the file and, if it is a winner, do not change it. -/
theorem Sound.frame {locks locks' : RangeLocks Pid} {file file' : Option Bytes} {buf : Bytes}
    {pc : Pc} (sound : Sound locks file buf p pc)
    (kept : locks.Holds p 0 .wrlck → locks'.Holds p 0 .wrlck)
    (stays : file ≠ none → file' ≠ none) (same : pc.winner = true → file' = file) :
    Sound locks' file' buf p pc where
  holds winner := kept (sound.holds winner)
  found opened := stays (sound.found opened)
  emptied place := by
    rw [same (by rcases place with rfl | rfl <;> rfl)]
    exact sound.emptied place
  size := sound.size
  printed := sound.printed

section Update

variable {locks : RangeLocks Pid} {file : Option Bytes} {pc : Pid → Pc} {buf : Pid → Bytes}

/-- A step of `p`: its own case, and every other process as before. -/
theorem sound_update {b : Bytes} {x : Pc} (own : Sound locks file b p x)
    (others : ∀ q, q ≠ p → Sound locks file (buf q) q (pc q)) :
    ∀ q, Sound locks file (Function.update buf p b q) q (Function.update pc p x q) := by
  intro q
  by_cases same : q = p
  · subst same
    rw [Function.update_self, Function.update_self]
    exact own
  · rw [Function.update_of_ne same, Function.update_of_ne same]
    exact others q same

/-- The same where the buffers stay as they are. -/
theorem sound_goto {x : Pc} (own : Sound locks file (buf p) p x)
    (others : ∀ q, q ≠ p → Sound locks file (buf q) q (pc q)) :
    ∀ q, Sound locks file (buf q) q (Function.update pc p x q) := by
  have all := sound_update own others
  rwa [Function.update_eq_self] at all

end Update

/-- Not yet a winner, or no longer one. -/
theorem sound_of_not_winner {locks : RangeLocks Pid} {file : Option Bytes} {buf : Bytes} {x : Pc}
    (loser : x.winner = false) (found : x.opened = true → file ≠ none)
    (size : x ≠ .absent → buf.length = bufSize) : Sound locks file buf p x where
  holds winner := by rw [loser] at winner; cases winner
  found := found
  emptied place := by rcases place with rfl | rfl <;> cases loser
  size := size
  printed place := by subst place; cases loser

/-- Only a winner changes the contents, so to every other process they stay. -/
theorem Guarded.others_keep (guarded : Guarded s) (winner : (s.pc p).winner = true)
    {f : Bytes → Bytes} (q : Pid) (other : q ≠ p) :
    Sound s.locks (s.file.map f) (s.buf q) q (s.pc q) := by
  refine (guarded.each q).frame id (fun there => ?_) fun second => ?_
  · simpa using there
  · exact absurd (guarded.winner_eq second winner) other

theorem Guarded.step (guarded : Guarded s) (effect : Effect s e t) : Guarded t := by
  have each := guarded.each
  cases effect with
  | starts absent size =>
      refine { guarded with each := sound_update ?_ fun q _ => each q }
      exact sound_of_not_winner rfl (by simp [Pc.opened]) fun _ => size
  | exits running log =>
      refine { guarded with
        exclusive := guarded.exclusive.release _
        each := sound_goto ?_ ?_ }
      · exact sound_of_not_winner rfl (by simp [Pc.opened]) fun gone => absurd rfl gone
      · intro q other
        exact (each q).frame (fun holds => RangeLocks.holds_release.mpr ⟨holds, other⟩) id
          fun _ => rfl
  | @opens p pc =>
      have size := (each p).size (by simp [pc])
      refine { guarded with each := sound_goto ?_ fun q _ => ?_ }
      · exact sound_of_not_winner rfl (fun _ => Option.some_ne_none _) fun _ => size
      · refine (each q).frame id (fun _ => Option.some_ne_none _) fun winner => ?_
        obtain ⟨text, there⟩ := Option.ne_none_iff_exists'.mp
          ((each q).found (Pc.opened_of_winner winner))
        show some (s.file.getD []) = s.file
        rw [there]
        rfl
  | @refused p pc e =>
      have size := (each p).size (by simp [pc])
      have found := (each p).found (by rw [pc]; rfl)
      exact { guarded with
        each := sound_goto (sound_of_not_winner rfl (fun _ => found) fun _ => size)
          fun q _ => each q }
  | @acquires p locks pc granted =>
      have size := (each p).size (by simp [pc])
      have found := (each p).found (by rw [pc]; rfl)
      obtain ⟨-, rfl⟩ := RangeLocks.setlk_eq_some granted
      refine { guarded with
        exclusive := guarded.exclusive.setlk granted
        each := sound_goto ⟨fun _ => ?_, fun _ => found, by simp, fun _ => size, by simp⟩ ?_ }
      · rw [RangeLocks.holds_set, if_pos ⟨rfl, rfl⟩]
      · intro q other
        refine (each q).frame (fun holds => ?_) id fun _ => rfl
        rwa [RangeLocks.holds_set, if_neg fun own => other own.1]
  | @closes p pc error =>
      have size := (each p).size (by simp [pc])
      have found := (each p).found (by rw [pc]; rfl)
      refine { guarded with
        exclusive := guarded.exclusive.release _
        each := sound_goto (sound_of_not_winner rfl (fun _ => found) fun _ => size) ?_ }
      intro q other
      exact (each q).frame (fun holds => RangeLocks.holds_release.mpr ⟨holds, other⟩) id
        fun _ => rfl
  | @truncates p pc error =>
      have winner : (s.pc p).winner = true := by rw [pc]; rfl
      have size := (each p).size (by simp [pc])
      obtain ⟨text, there⟩ := Option.ne_none_iff_exists'.mp ((each p).found (by rw [pc]; rfl))
      have emptied : s.file.map (fun _ => []) = (some [] : Option Bytes) := by rw [there]; rfl
      refine { guarded with
        each := sound_goto ?_ fun q other => guarded.others_keep winner q other }
      exact ⟨fun _ => (each p).holds winner, fun _ => by simp [emptied], fun _ => emptied,
        fun _ => size, by simp⟩
  | @prints p pc error =>
      have winner : (s.pc p).winner = true := by rw [pc]; rfl
      have size := (each p).size (by simp [pc])
      have fits : (printInt p.val ++ [0]).length ≤ (s.buf p).length := by
        rw [size]
        exact length_pidText_le p
      rw [System.sprintf, if_pos fits]
      refine { guarded with each := sound_update ?_ fun q _ => each q }
      exact ⟨fun _ => (each p).holds winner, fun _ => (each p).found (by rw [pc]; rfl),
        fun _ => (each p).emptied (Or.inl pc), fun _ => (length_overwrite fits).trans size,
        fun _ => ⟨s.buf p, rfl⟩⟩
  | @writes p pc error =>
      have winner : (s.pc p).winner = true := by rw [pc]; rfl
      have size := (each p).size (by simp [pc])
      have emptied := (each p).emptied (Or.inr pc)
      refine { guarded with
        each := sound_goto ?_ fun q other => guarded.others_keep winner q other }
      refine ⟨fun _ => (each p).holds winner, fun _ => ?_, by simp, fun _ => size, by simp⟩
      show s.file.map _ ≠ none
      rw [emptied]
      exact Option.some_ne_none _

theorem start_guarded (file : Option Bytes) : Guarded (start file) where
  exclusive := by
    rintro _ _ _ _ _ ⟨lock, member, -⟩
    cases member
  each _ := sound_of_not_winner rfl nofun fun gone => absurd rfl gone
  inside := rfl

theorem run_guarded {file : Option Bytes} {events : List Event}
    (reached : run System.step (start file) events = some s) : Guarded s :=
  run_invariant System.step Guarded (fun _ _ _ guarded step => guarded.step (step_effect step))
    (start_guarded file) reached

/-! ## A process that returns 1 -/

/-- `p` returns 1 in the life it is in: it has in `s`, or has in `t` and did not
start anew on the way. -/
def ReturnsOne (s : System) (after : List Event) (t : System) (p : Pid) : Prop :=
  s.pc p = .returned 1 ∨ (t.pc p = .returned 1 ∧ ∀ buf, Event.start p buf ∉ after)

/-- The contents change only at the hands of a winner. -/
theorem Effect.file_eq (effect : Effect s e t) (loser : (s.pc e.actor).winner = false) :
    t.file = s.file ∨ (s.file = none ∧ t.file = some []) := by
  cases effect with
  | starts | exits | refused | acquires | closes => exact Or.inl rfl
  | prints pc => rw [Event.actor, pc] at loser; cases loser
  | truncates pc => rw [Event.actor, pc] at loser; cases loser
  | writes pc => rw [Event.actor, pc] at loser; cases loser
  | opens pc =>
      cases file : s.file with
      | none => exact Or.inr ⟨rfl, rfl⟩
      | some text => exact Or.inl rfl

theorem Effect.pc_other (effect : Effect s e t) (other : p ≠ e.actor) : t.pc p = s.pc p := by
  have same : ∀ x, Function.update s.pc e.actor x p = s.pc p := fun x =>
    Function.update_of_ne other x s.pc
  cases effect with
  | prints pc error =>
      rw [System.goto, System.pc_sprintf]
      exact same _
  | _ => exact same _

/-- A winner stays one until it ends. -/
def WonOrGone (p : Pid) (s : System) : Prop := (s.pc p).winner = true ∨ s.pc p = .absent

theorem WonOrGone.step (here : WonOrGone p s) (effect : Effect s e t)
    (notStarted : ∀ buf, e ≠ .start p buf) : WonOrGone p t := by
  by_cases other : p ≠ e.actor
  · unfold WonOrGone
    rw [effect.pc_other other]
    exact here
  · have own : p = e.actor := not_not.mp other
    subst own
    have after : ∀ x : Pc, x.winner = true ∨ x = .absent →
        (Function.update s.pc e.actor x e.actor).winner = true ∨
          Function.update s.pc e.actor x e.actor = .absent := by
      intro x
      rw [Function.update_self]
      exact id
    cases effect with
    | @starts p buf absent size => exact absurd rfl (notStarted buf)
    | exits running log => exact after _ (Or.inr rfl)
    | opens pc => simp [WonOrGone, Event.actor, pc, Pc.winner] at here
    | refused pc e => simp [WonOrGone, Event.actor, pc, Pc.winner] at here
    | acquires pc granted => exact after _ (Or.inl rfl)
    | closes pc error => simp [WonOrGone, Event.actor, pc, Pc.winner] at here
    | truncates pc error => exact after _ (Or.inl rfl)
    | prints pc error =>
        rw [WonOrGone, System.goto, System.pc_sprintf]
        exact after _ (Or.inl rfl)
    | writes pc error => exact after _ (Or.inl rfl)

theorem run_wonOrGone {events : List Event} (here : WonOrGone p s)
    (notStarted : ∀ buf, Event.start p buf ∉ events) (reached : run System.step s events = some t) :
    WonOrGone p t := by
  induction events generalizing s with
  | nil =>
      cases reached
      exact here
  | cons e events ih =>
      obtain ⟨m, first, rest⟩ := (run_cons_some System.step).mp reached
      refine ih (here.step (step_effect first) fun buf same => ?_) (fun buf member => ?_) rest
      · exact notStarted buf (same ▸ List.mem_cons_self)
      · exact notStarted buf (List.mem_cons_of_mem e member)

/-- A process that returns 1 changes nothing in the file; its `open` creates the
file if there is none. -/
theorem loser_keeps_file {after : List Event} {m : System} (step : s.step e = some m)
    (later : run System.step m after = some t) (one : ReturnsOne s after t e.actor) :
    m.file = s.file ∨ (s.file = none ∧ m.file = some []) := by
  have effect := step_effect step
  apply effect.file_eq
  rcases one with already | ⟨ends, sameLife⟩
  · rw [already]
    rfl
  · by_contra winner
    have won : (s.pc e.actor).winner = true := by simpa using winner
    have notStarted : ∀ buf, e ≠ .start e.actor buf := by
      intro buf same
      rw [same] at effect won
      cases effect with
      | starts absent size => rw [Event.actor, absent] at won; cases won
      | exits running log => exact running _ _ rfl
    have here := run_wonOrGone (WonOrGone.step (Or.inl won) effect notStarted) sameLife later
    rw [WonOrGone, ends] at here
    rcases here with winner | absent
    · cases winner
    · cases absent

/-! ## The pid in the file -/

/-- The step in which a process gets the lock. -/
def Acquires (s : System) (e : Event) : Prop :=
  e = .move e.actor none ∧ s.pc e.actor = .locking

instance (s : System) (e : Event) : Decidable (Acquires s e) := inferInstanceAs (Decidable (_ ∧ _))

/-- The file holds the text and nobody is about to change it. -/
structure Settled (text : Bytes) (s : System) : Prop where
  file : s.file = some text
  quiet : ∀ p, (s.pc p).rewriting = false

theorem quiet_goto {pc : Pid → Pc} {x : Pc} (quiet : ∀ p, (pc p).rewriting = false)
    (own : x.rewriting = false) (p : Pid) : ∀ q, (Function.update pc p x q).rewriting = false := by
  intro q
  by_cases same : q = p
  · subst same
    rw [Function.update_self]
    exact own
  · rw [Function.update_of_ne same]
    exact quiet q

theorem Settled.step {text : Bytes} (settled : Settled text s) (effect : Effect s e t)
    (notAcquired : ¬ Acquires s e) : Settled text t := by
  have quiet := settled.quiet
  cases effect with
  | starts => exact ⟨settled.file, quiet_goto quiet rfl _⟩
  | exits => exact ⟨settled.file, quiet_goto quiet rfl _⟩
  | opens =>
      refine ⟨?_, quiet_goto quiet rfl _⟩
      show some (s.file.getD []) = some text
      rw [settled.file]
      rfl
  | refused => exact ⟨settled.file, quiet_goto quiet rfl _⟩
  | acquires pc => exact absurd ⟨rfl, pc⟩ notAcquired
  | closes => exact ⟨settled.file, quiet_goto quiet rfl _⟩
  | @truncates p pc => have := quiet p; rw [pc] at this; cases this
  | @prints p pc => have := quiet p; rw [pc] at this; cases this
  | @writes p pc => have := quiet p; rw [pc] at this; cases this

/-- Once the winner has written, its pid is in the file and nobody is left who
would change it. -/
theorem Guarded.settled (guarded : Guarded s) (writing : s.pc p = .writing) :
    Settled (pidText p) ((s.write p).goto p (.returned 0)) := by
  obtain ⟨old, holds⟩ := (guarded.each p).printed writing
  have emptied := (guarded.each p).emptied (Or.inr writing)
  constructor
  · show s.file.map _ = some (pidText p)
    rw [emptied, holds, pidText, take_cstr_overwrite (nulFree_printInt p.val)]
    simp [overwrite]
  · intro q
    by_cases same : q = p
    · subst same
      show (Function.update s.pc q (.returned 0) q).rewriting = false
      rw [Function.update_self]
      rfl
    · show (Function.update s.pc p (.returned 0) q).rewriting = false
      rw [Function.update_of_ne same]
      by_contra busy
      have winner : (s.pc q).winner = true := by
        revert busy
        cases s.pc q <;> simp [Pc.rewriting, Pc.winner]
      exact same (guarded.winner_eq winner (by rw [writing]; rfl))

theorem pid_stays {m : System} {error : Option Errno} {after : List Event} (guarded : Guarded s)
    (writing : s.pc p = .writing) (step : s.step (.move p error) = some m)
    (free : Along System.step (fun s e => ¬ Acquires s e) m after)
    (later : run System.step m after = some t) : t.file = some (pidText p) := by
  have wrote : m = (s.write p).goto p (.returned 0) := by
    simpa [System.step, System.move, writing] using step.symm
  subst wrote
  exact (run_along System.step (Settled (pidText p))
    (fun _ _ _ settled notAcquired step => settled.step (step_effect step) notAcquired)
    (guarded.settled writing) free later).file

end Steps

/-! ## Result -/

/-- **A single instance.**  Whatever the processes do and whatever was in the file:
at most one live process has returned 0 and no store left a buffer; and for every
step from there, with anything that follows it, a process that returns 1 leaves the
file as it was (its `open` may create it), and the pid of a winner that has finished
its write stays in the file until a lock is granted again. -/
theorem single_instance {file : Option Bytes} {events : List Event} {s : System}
    (reached : run System.step (start file) events = some s) :
    (∀ p q, s.pc p = .returned 0 → s.pc q = .returned 0 → p = q) ∧ s.outside = false ∧
      ∀ (e : Event) (m : System) (after : List Event) (t : System),
        s.step e = some m → run System.step m after = some t →
        (ReturnsOne s after t e.actor → m.file = s.file ∨ (s.file = none ∧ m.file = some [])) ∧
        (∀ p error, e = .move p error → s.pc p = .writing →
          Along System.step (fun s e => ¬ Acquires s e) m after →
          t.file = some (printInt p.val ++ [0])) := by
  have guarded := run_guarded reached
  refine ⟨fun p q first second => ?_, guarded.inside, fun e m after t step later => ⟨?_, ?_⟩⟩
  · exact guarded.winner_eq (by rw [first]; rfl) (by rw [second]; rfl)
  · exact loser_keeps_file step later
  · rintro p error rfl writing free
    exact pid_stays guarded writing step free later

def firstDaemon : Pid := ⟨1234, by decide⟩

def secondDaemon : Pid := ⟨7, by decide⟩

/-- The first daemon up to its `write`. -/
def firstStarts : List Event :=
  [.start firstDaemon (zeros bufSize), .move firstDaemon none, .move firstDaemon none,
    .move firstDaemon none, .move firstDaemon none]

/-- The second daemon is refused the lock. -/
def secondStarts : List Event :=
  [.start secondDaemon (zeros bufSize), .move secondDaemon none, .move secondDaemon (some .eagain),
    .move secondDaemon none]

/-- A daemon writes its pid over a longer one, and a second daemon is turned away. -/
theorem single_instance_two_daemons :
    ∃ s m t, run System.step (start (some [57, 57, 57, 57, 57, 0])) firstStarts = some s ∧
      s.step (.move firstDaemon none) = some m ∧ run System.step m secondStarts = some t ∧
      t.pc secondDaemon = .returned 1 ∧ t.file = some [49, 50, 51, 52, 0] := by
  have before : (run System.step (start (some [57, 57, 57, 57, 57, 0])) firstStarts).map
      (fun s => s.pc firstDaemon) = some .writing := by decide +kernel
  have between : ((run System.step (start (some [57, 57, 57, 57, 57, 0])) firstStarts).bind
      (fun s => s.step (.move firstDaemon none))).map (fun m =>
        (decide (Along System.step (fun s e => ¬ Acquires s e) m secondStarts),
          (run System.step m secondStarts).map fun t => t.pc secondDaemon)) =
      some (true, some (.returned 1)) := by
    decide +kernel
  obtain ⟨s, reached, writing⟩ := Option.map_eq_some_iff.mp before
  rw [reached, Option.bind_some] at between
  obtain ⟨m, step, observed⟩ := Option.map_eq_some_iff.mp between
  obtain ⟨free, ends⟩ := Prod.mk.inj observed
  obtain ⟨t, later, one⟩ := Option.map_eq_some_iff.mp ends
  have result := (single_instance reached).2.2 _ m secondStarts t step later
  exact ⟨s, m, t, reached, step, later, one,
    result.2 firstDaemon none rfl writing (of_decide_eq_true free)⟩

end UnixDemos.Daemon
