/-
# Pthread.PthreadSignal — a thread for signals, pthread_signal.c

`main` blocks all signals and creates `thr_fn`, which inherits the mask and takes the
signals of the process one by one with `sigwait`, in the kernel's order.  SIGINT is reported,
SIGQUIT sets `quitflag` for `main`, which waits for it on a condition variable, and any other
signal ends the process: the set is full, where a comment would have had SIGINT and SIGQUIT.
`main` then restores the mask it was started with and returns.

Signals are sent to the process at any time; those of one number merge while they are
pending, unless they queue and there is `room`: the limit on queued signals is not reached,
and was not when the last one of the number came that is pending.  `Config` is what the
process is started with: its mask, and which signals end it by their disposition.  Before
`sigprocmask` returns, the kernel delivers what has become deliverable.
-/
import UnixDemos.Library.Monitor
import UnixDemos.Library.Run
import UnixDemos.Signal.Pending

namespace UnixDemos.Pthread.PthreadSignal

open UnixDemos.Library Monitor
open Signal.RtSigRecv (Signo sigint sigquit sigterm queues blockable)
open Signal.Pending (next rank discards)

set_option autoImplicit false

/-! ## State and steps -/

structure Config where
  oldmask : Signo → Bool
  terminates : Signo → Bool

inductive Thread where
  | main
  | thrFn
  deriving DecidableEq, Repr

/-- Where `main` is; `awaiting .entered` is behind its loop, `restored` still in the call
of `sigprocmask`. -/
inductive MainPc where
  | blocking
  | creating
  | awaiting (a : Await)
  | restoring
  | restored
  | returning
  deriving DecidableEq, Repr

inductive ThrPc where
  | absent
  | sigwait
  | handling (signo : Signo)
  | locking
  | setting
  | unlocking
  | signalling
  | returned
  deriving DecidableEq, Repr

inductive Io where
  | interrupt
  | unexpected (signo : Signo)
  | received
  | fprintf (message : String)
  deriving DecidableEq, Repr

inductive End where
  | exited (status : Int)
  | killed (signo : Signo)
  deriving DecidableEq, Repr

structure System where
  main : MainPc
  thr : ThrPc
  lock : Monitor Thread
  quitflag : Bool
  pending : List Signo
  out : List Io
  ended : Option End
  /-- What was sent to the process, what `sigwait` returned, what `main` got delivered. -/
  sent : List Signo
  taken : List Signo
  delivered : List Signo

/-- A call of `main` fails, or `sigwait` returns an error. -/
inductive Event where
  | send (signo : Signo) (room : Bool)
  | main (error : Bool)
  | thrFn (error : Bool)
  | deliver (signo : Signo)
  | spurious
  deriving DecidableEq

section Steps

variable (cfg : Config) (s : System)

/-- The signals `main` has blocked; `thr_fn` has all of them blocked at all times. -/
def MainPc.mask : MainPc → Signo → Bool
  | .creating | .awaiting _ | .restoring => blockable
  | _ => fun signo => cfg.oldmask signo && blockable signo

def System.exit (entry : Io) : System :=
  { s with out := s.out ++ [entry], ended := some (.exited (-1)) }

def System.send (signo : Signo) (room : Bool) : System :=
  let pending := s.pending.filter fun other => !discards signo other
  { s with
    sent := s.sent ++ [signo]
    pending :=
      if queues signo = true ∧ room = true ∨ signo ∉ pending then pending ++ [signo]
      else pending }

def System.runMain (error : Bool) : Option System :=
  match s.main with
  | .blocking =>
      if error then some (s.exit (.fprintf "SIG_BLOCK error: %s\n"))
      else some { s with main := .creating }
  | .creating =>
      if error then some (s.exit (.fprintf "pthread_create error: %s\n"))
      else some { s with main := .awaiting .locking, thr := .sigwait }
  | .awaiting .entered => some { s with main := .restoring, out := s.out ++ [.received] }
  | .awaiting a =>
      match a.step s.lock .main s.quitflag with
      | none => none
      | some (lock, a) => some { s with lock := lock, main := .awaiting a }
  | .restoring =>
      if error then some (s.exit (.fprintf "SIG_SETMASK error\n"))
      else some { s with main := .restored }
  | .restored =>
      if ∀ signo ∈ s.pending, MainPc.restored.mask cfg signo = true then
        some { s with main := .returning }
      else none
  | .returning => some { s with ended := some (.exited 0) }

/-- The signals `sigwait` can return: the set has all that can be blocked. -/
def System.waiting (signo : Signo) : Bool := blockable signo && decide (signo ∈ s.pending)

def System.thrFn (error : Bool) : Option System :=
  match s.thr with
  | .absent | .returned => none
  | .sigwait =>
      if error then some (s.exit (.fprintf "sigwait failed: %s\n"))
      else
        match next s.waiting with
        | none => none
        | some signo =>
            some { s with
              pending := s.pending.erase signo
              taken := s.taken ++ [signo]
              thr := .handling signo }
  | .handling signo =>
      if signo = sigint then some { s with out := s.out ++ [.interrupt], thr := .sigwait }
      else if signo = sigquit then some { s with thr := .locking }
      else some (s.exit (.unexpected signo))
  | .locking =>
      match s.lock.lock .thrFn with
      | none => none
      | some lock => some { s with lock := lock, thr := .setting }
  | .setting => some { s with quitflag := true, thr := .unlocking }
  | .unlocking => some { s with lock := s.lock.unlock, thr := .signalling }
  | .signalling =>
      -- only `main` ever sleeps on `waitloc`
      some { s with lock := s.lock.wake .main, thr := .returned }

def System.deliver (signo : Signo) : Option System :=
  if signo ∈ s.pending ∧ s.main.mask cfg signo = false then
    some { s with
      pending := s.pending.erase signo
      delivered := s.delivered ++ [signo]
      ended := if cfg.terminates signo then some (.killed signo) else none }
  else none

def System.step : Event → Option System
  | .send signo room =>
      if s.ended = none ∧ signo.val ≠ 0 then some (s.send signo room) else none
  | .main error => if s.ended = none then s.runMain cfg error else none
  | .thrFn error => if s.ended = none then s.thrFn error else none
  | .deliver signo => if s.ended = none then s.deliver cfg signo else none
  | .spurious =>
      if s.ended = none ∧ s.lock.asleep .main = true then
        some { s with lock := s.lock.wake .main }
      else none

end Steps

def start : System where
  main := .blocking
  thr := .absent
  lock := .idle
  quitflag := false
  pending := []
  out := []
  ended := none
  sent := []
  taken := []
  delivered := []

/-! ## What a step can do -/

inductive Effect (cfg : Config) (s : System) : System → Prop where
  | sent (signo : Signo) (room : Bool) : Effect cfg s (s.send signo room)
  | failed (message : String) : Effect cfg s (s.exit (.fprintf message))
  | blocked (here : s.main = .blocking) : Effect cfg s { s with main := .creating }
  | created (here : s.main = .creating) :
      Effect cfg s { s with main := .awaiting .locking, thr := .sigwait }
  | awaited {a b : Await} {lock : Monitor Thread} (here : s.main = .awaiting a)
      (effect : Await.Effect s.lock .main s.quitflag a lock b) :
      Effect cfg s { s with lock := lock, main := .awaiting b }
  | reported (here : s.main = .awaiting .entered) :
      Effect cfg s { s with main := .restoring, out := s.out ++ [.received] }
  | restored (here : s.main = .restoring) : Effect cfg s { s with main := .restored }
  | settled (here : s.main = .restored) : Effect cfg s { s with main := .returning }
  | returned (here : s.main = .returning) : Effect cfg s { s with ended := some (.exited 0) }
  | took {signo : Signo} (here : s.thr = .sigwait) (first : next s.waiting = some signo) :
      Effect cfg s { s with
        pending := s.pending.erase signo
        taken := s.taken ++ [signo]
        thr := .handling signo }
  | interrupted (here : s.thr = .handling sigint) :
      Effect cfg s { s with out := s.out ++ [.interrupt], thr := .sigwait }
  | quit (here : s.thr = .handling sigquit) : Effect cfg s { s with thr := .locking }
  | unexpected {signo : Signo} (here : s.thr = .handling signo)
      (other : signo ≠ sigint ∧ signo ≠ sigquit) : Effect cfg s (s.exit (.unexpected signo))
  | locked (here : s.thr = .locking) (free : s.lock.owner = none) :
      Effect cfg s { s with lock := { s.lock with owner := some .thrFn }, thr := .setting }
  | set (here : s.thr = .setting) : Effect cfg s { s with quitflag := true, thr := .unlocking }
  | unlocked (here : s.thr = .unlocking) :
      Effect cfg s { s with lock := s.lock.unlock, thr := .signalling }
  | signalled (here : s.thr = .signalling) :
      Effect cfg s { s with lock := s.lock.wake .main, thr := .returned }
  | delivered {signo : Signo} (pending : signo ∈ s.pending)
      (unblocked : s.main.mask cfg signo = false) :
      Effect cfg s { s with
        pending := s.pending.erase signo
        delivered := s.delivered ++ [signo]
        ended := if cfg.terminates signo then some (.killed signo) else none }
  | woken : Effect cfg s { s with lock := s.lock.wake .main }

section Inversion

variable {cfg : Config} {s s' : System}

theorem runMain_effect {error : Bool} (moved : s.runMain cfg error = some s') :
    Effect cfg s s' := by
  unfold System.runMain at moved
  split at moved
  · rename_i here
    split at moved <;> cases moved
    · exact .failed _
    · exact .blocked here
  · rename_i here
    split at moved <;> cases moved
    · exact .failed _
    · exact .created here
  · rename_i here
    cases moved
    exact .reported here
  · rename_i here
    split at moved <;> cases moved
    rename_i went
    exact .awaited here (Await.step_effect went)
  · rename_i here
    split at moved <;> cases moved
    · exact .failed _
    · exact .restored here
  · rename_i here
    split at moved <;> cases moved
    exact .settled here
  · rename_i here
    cases moved
    exact .returned here

theorem thrFn_effect {error : Bool} (moved : s.thrFn error = some s') : Effect cfg s s' := by
  unfold System.thrFn at moved
  split at moved
  · cases moved
  · cases moved
  · rename_i here
    split at moved
    · cases moved
      exact .failed _
    · split at moved <;> cases moved
      rename_i first
      exact .took here first
  · rename_i here
    split at moved
    · rename_i same
      cases moved
      exact .interrupted (same ▸ here)
    · rename_i interrupt
      split at moved <;> cases moved
      · rename_i same
        exact .quit (same ▸ here)
      · rename_i quit
        exact .unexpected here ⟨interrupt, quit⟩
  · rename_i here
    split at moved <;> cases moved
    rename_i locked
    obtain ⟨free, rfl⟩ := lock_eq_some.mp locked
    exact .locked here free
  · rename_i here
    cases moved
    exact .set here
  · rename_i here
    cases moved
    exact .unlocked here
  · rename_i here
    cases moved
    exact .signalled here

theorem step_effect {e : Event} (stepped : s.step cfg e = some s') :
    s.ended = none ∧ Effect cfg s s' := by
  cases e <;> simp only [System.step] at stepped <;> split at stepped <;>
    first | cases stepped; done | skip
  · rename_i able
    cases stepped
    exact ⟨able.1, .sent ..⟩
  · rename_i alive
    exact ⟨alive, runMain_effect stepped⟩
  · rename_i alive
    exact ⟨alive, thrFn_effect stepped⟩
  · rename_i alive
    unfold System.deliver at stepped
    split at stepped <;> cases stepped
    rename_i able
    exact ⟨alive, .delivered able.1 able.2⟩
  · rename_i alive
    cases stepped
    exact ⟨alive.1, .woken⟩

end Inversion

/-! ## What every step keeps -/

def MainPc.owns : MainPc → Bool
  | .blocking | .creating => false
  | .awaiting a => a.holds
  | _ => true

/-- `main` has left its loop, and has reported that. -/
def MainPc.passed : MainPc → Bool
  | .blocking | .creating => false
  | .awaiting a => a = .entered
  | _ => true

def MainPc.reported : MainPc → Bool
  | .restoring | .restored | .returning => true
  | _ => false

def ThrPc.owns : ThrPc → Bool
  | .setting | .unlocking => true
  | _ => false

def ThrPc.due : ThrPc → Bool
  | .unlocking | .signalling => true
  | _ => false

/-- SIGQUIT was taken. -/
def ThrPc.quits : ThrPc → Bool
  | .handling signo => signo = sigquit
  | .locking | .setting | .unlocking | .signalling | .returned => true
  | _ => false

/-- `quitflag` was set. -/
def ThrPc.hasSet : ThrPc → Bool
  | .unlocking | .signalling | .returned => true
  | _ => false

theorem MainPc.passed_of_reported (pc : MainPc) (done : pc.reported = true) :
    pc.passed = true := by
  cases pc <;> simp_all [MainPc.reported, passed]

theorem ThrPc.quits_of_hasSet (pc : ThrPc) (set : pc.hasSet = true) : pc.quits = true := by
  cases pc <;> simp_all [hasSet, quits]

structure Shape (s : System) : Prop where
  created : s.thr = .absent ↔ s.main = .blocking ∨ s.main = .creating
  mainOwns : s.lock.owner = some .main ↔ s.main.owns = true
  thrOwns : s.lock.owner = some .thrFn ↔ s.thr.owns = true
  asleep : s.lock.asleep .main = true → s.main = .awaiting .sleeping
  quitflag : s.quitflag = s.thr.hasSet
  passed : s.main.passed = true → s.quitflag = true
  covered : Await.Covered s.lock .main s.quitflag s.thr.due
  quits : s.thr.quits = true → sigquit ∈ s.taken
  quitting : sigquit ∈ s.taken → s.thr.quits = true
  received : .received ∈ s.out ↔ s.main.reported = true
  interrupts : s.out.count .interrupt + (if s.thr = .handling sigint then 1 else 0) =
    s.taken.count sigint

/-- After any other signal than SIGINT and SIGQUIT `thr_fn` does not go on. -/
structure Handled (s : System) : Prop where
  known : ∀ signo ∈ s.taken, signo = sigint ∨ signo = sigquit ∨ s.thr = .handling signo
  taken : ∀ signo, s.thr = .handling signo → signo ∈ s.taken

/-- Where the signals are that were sent. -/
structure Accounted (s : System) : Prop where
  count : ∀ signo, s.taken.count signo + s.delivered.count signo + s.pending.count signo ≤
    s.sent.count signo
  kept : sigquit ∈ s.sent → sigquit ∈ s.pending ∨ sigquit ∈ s.taken ∨ sigquit ∈ s.delivered

/-- How the process may have ended. -/
structure Ended (cfg : Config) (s : System) : Prop where
  killed : ∀ signo, s.ended = some (.killed signo) → s.main.mask cfg signo = false
  returned : s.ended = some (.exited 0) → s.main = .returning
  unexpected : ∀ signo, .unexpected signo ∈ s.out → s.ended = some (.exited (-1)) ∧
    s.thr = .handling signo ∧ signo ≠ sigint ∧ signo ≠ sigquit

section Kept

variable {cfg : Config} {s s' : System}

theorem start_shape : Shape start where
  created := by decide
  mainOwns := by decide
  thrOwns := by decide
  asleep := nofun
  quitflag := rfl
  passed := nofun
  covered := nofun
  quits := nofun
  quitting := nofun
  received := by decide
  interrupts := rfl

/-- One step of the loop of `main`. -/
theorem Shape.awaits (shape : Shape s) {a b : Await} {lock : Monitor Thread}
    (here : s.main = .awaiting a)
    (effect : Await.Effect s.lock .main s.quitflag a lock b) :
    Shape { s with lock := lock, main := .awaiting b } := by
  have place : Await.At s.lock .main a := by
    refine ⟨shape.mainOwns.trans (by rw [here]; rfl), fun asleep => ?_⟩
    have sleeping := shape.asleep asleep
    rw [here] at sleeping
    exact MainPc.awaiting.inj sleeping
  have place' := effect.at place
  refine { shape with
    created := by simpa [here] using shape.created
    mainOwns := place'.owner
    thrOwns := ?_
    asleep := fun asleep => by rw [place'.asleep asleep]
    passed := ?_
    covered := effect.covered shape.covered
    received := by simpa [here, MainPc.reported] using shape.received }
  · rw [← shape.thrOwns]
    cases effect with
    | locked a before free => simp [free]
    | entered holds => exact Iff.rfl
    | slept fails => simp [Monitor.sleep, place.owner.mpr rfl]
  · cases effect with
    | locked a before free =>
        intro passed
        cases passed
    | entered holds => exact fun _ => holds
    | slept fails =>
        intro passed
        cases passed

/-- `exit` prints neither of the two reports. -/
theorem Shape.exits (shape : Shape s) {entry : Io} (silent : entry ≠ .received)
    (silent' : entry ≠ .interrupt) : Shape (s.exit entry) := by
  have same : (s.exit entry).out.count .interrupt = s.out.count .interrupt := by
    simp [System.exit, silent']
  exact { shape with
    received := by simpa [System.exit, Ne.symm silent] using shape.received
    interrupts := by
      rw [same]
      exact shape.interrupts }

/-- `main` goes on outside of its loop. -/
theorem Shape.goes (shape : Shape s) {main : MainPc}
    (created : main = .blocking ∨ main = .creating ↔ s.main = .blocking ∨ s.main = .creating)
    (owns : main.owns = s.main.owns) (awake : s.main ≠ .awaiting .sleeping)
    (passed : main.passed = s.main.passed) (reported : main.reported = s.main.reported) :
    Shape { s with main := main } :=
  { shape with
    created := shape.created.trans created.symm
    mainOwns := by
      rw [owns]
      exact shape.mainOwns
    asleep := fun asleep => absurd (shape.asleep asleep) awake
    passed := fun still => shape.passed (passed ▸ still)
    received := by
      rw [reported]
      exact shape.received }

/-- `thr_fn` goes on with its SIGQUIT; what else changes is the lock and `quitflag`. -/
theorem Shape.quits_goes (shape : Shape s) {thr : ThrPc} {lock : Monitor Thread}
    {quitflag : Bool} (before : s.thr.quits = true) (after : thr.quits = true)
    (mainOwns : lock.owner = some .main ↔ s.lock.owner = some .main)
    (thrOwns : lock.owner = some .thrFn ↔ thr.owns = true)
    (asleep : lock.asleep .main = true → s.lock.asleep .main = true)
    (hasSet : quitflag = thr.hasSet) (kept : s.quitflag = true → quitflag = true)
    (covered : Await.Covered lock .main quitflag thr.due) :
    Shape { s with thr := thr, lock := lock, quitflag := quitflag } := by
  have present {pc : ThrPc} (quits : pc.quits = true) : pc ≠ .absent := by
    rintro rfl
    cases quits
  have other {pc : ThrPc} (quits : pc.quits = true) : pc ≠ .handling sigint := by
    rintro rfl
    simp [ThrPc.quits, sigint, sigquit] at quits
  exact { shape with
    created := by
      have running := shape.created.not.mp (present before)
      exact iff_of_false (present after) running
    mainOwns := mainOwns.trans shape.mainOwns
    thrOwns := thrOwns
    asleep := fun sleeping => shape.asleep (asleep sleeping)
    quitflag := hasSet
    passed := fun passed => kept (shape.passed passed)
    covered := covered
    quits := fun _ => shape.quits before
    quitting := fun _ => after
    interrupts := by simpa [other before, other after] using shape.interrupts }

theorem Effect.shape (effect : Effect cfg s s') (shape : Shape s) : Shape s' := by
  cases effect with
  | sent signo room => exact { shape with }
  | failed message => exact shape.exits nofun nofun
  | unexpected here other => exact shape.exits nofun nofun
  | blocked here =>
      exact shape.goes (by simp [here]) (by rw [here]; rfl) (by simp [here]) (by rw [here]; rfl)
        (by rw [here]; rfl)
  | created here =>
      have absent := shape.created.mpr (Or.inr here)
      exact { shape with
        created := by simp
        mainOwns := by simpa [here, MainPc.owns, Await.holds] using shape.mainOwns
        thrOwns := by simpa [absent, ThrPc.owns] using shape.thrOwns
        asleep := fun asleep => by simpa [here] using shape.asleep asleep
        quitflag := by simpa [absent, ThrPc.hasSet] using shape.quitflag
        passed := fun passed => by cases passed
        covered := by simpa [absent, ThrPc.due] using shape.covered
        quits := fun quits => by cases quits
        quitting := by simpa [absent, ThrPc.quits] using shape.quitting
        received := by simpa [here, MainPc.reported] using shape.received
        interrupts := by simpa [absent] using shape.interrupts }
  | awaited here effect => exact shape.awaits here effect
  | reported here =>
      exact { shape with
        created := by simpa [here] using shape.created
        mainOwns := by simpa [here, MainPc.owns, Await.holds] using shape.mainOwns
        asleep := fun asleep => by simpa [here] using shape.asleep asleep
        passed := fun _ => shape.passed (by rw [here]; rfl)
        received := by simp [MainPc.reported]
        interrupts := by
          rw [List.count_append]
          exact shape.interrupts }
  | restored here | settled here =>
      exact shape.goes (by simp [here]) (by rw [here]; rfl) (by simp [here]) (by rw [here]; rfl)
        (by rw [here]; rfl)
  | returned here => exact { shape with }
  | @took signo here first =>
      have fresh : sigquit ∉ s.taken := fun taken => by
        simpa [here, ThrPc.quits] using shape.quitting taken
      exact { shape with
        created := by simpa [here] using shape.created
        thrOwns := by simpa [here, ThrPc.owns] using shape.thrOwns
        quitflag := by simpa [here, ThrPc.hasSet] using shape.quitflag
        covered := by simpa [here, ThrPc.due] using shape.covered
        quits := fun same => by simp [ThrPc.quits] at same; simp [same]
        quitting := fun taken => by
          simpa [fresh, ThrPc.quits, eq_comm] using taken
        interrupts := by
          have before := shape.interrupts
          simp only [here, reduceCtorEq, if_false, Nat.add_zero] at before
          rw [List.count_append, before]
          by_cases same : signo = sigint <;> simp [same] }
  | interrupted here =>
      exact { shape with
        created := by simpa [here] using shape.created
        thrOwns := by simpa [here, ThrPc.owns] using shape.thrOwns
        quitflag := by simpa [here, ThrPc.hasSet] using shape.quitflag
        covered := by simpa [here, ThrPc.due] using shape.covered
        quits := fun quits => by cases quits
        quitting := fun taken => by
          have quits := shape.quitting taken
          simp [here, ThrPc.quits, sigint, sigquit] at quits
        received := by simpa using shape.received
        interrupts := by simpa [here] using shape.interrupts }
  | quit here =>
      have quits : s.thr.quits = true := by simp [here, ThrPc.quits]
      exact shape.quits_goes quits rfl Iff.rfl
        (by simpa [here, ThrPc.owns] using shape.thrOwns) id
        (by simpa [here, ThrPc.hasSet] using shape.quitflag) id
        (by simpa [here, ThrPc.due] using shape.covered)
  | locked here free =>
      exact shape.quits_goes (by rw [here]; rfl) rfl (by simp [free]) (by simp [ThrPc.owns]) id
        (by simpa [here, ThrPc.hasSet] using shape.quitflag) id
        fun asleep set => by simpa [here, ThrPc.due] using shape.covered asleep set
  | set here =>
      exact shape.quits_goes (by rw [here]; rfl) rfl Iff.rfl
        (by simpa [here, ThrPc.owns] using shape.thrOwns) id rfl (fun _ => rfl) fun _ _ => rfl
  | unlocked here =>
      have mine := shape.thrOwns.mpr (by rw [here]; rfl)
      exact shape.quits_goes (by rw [here]; rfl) rfl (by simp [Monitor.unlock, mine])
        (by simp [Monitor.unlock, ThrPc.owns]) id
        (by simpa [here, ThrPc.hasSet] using shape.quitflag) id fun _ _ => rfl
  | signalled here =>
      have awake : (s.lock.wake .main).asleep .main ≠ true := by simp [Monitor.wake]
      exact shape.quits_goes (by rw [here]; rfl) rfl Iff.rfl
        (by simpa [here, ThrPc.owns, Monitor.wake] using shape.thrOwns)
        (fun asleep => absurd asleep awake)
        (by simpa [here, ThrPc.hasSet] using shape.quitflag) id
        fun asleep => absurd asleep awake
  | delivered pending unblocked => exact { shape with }
  | woken =>
      have awake : (s.lock.wake .main).asleep .main ≠ true := by simp [Monitor.wake]
      exact { shape with
        asleep := fun asleep => absurd asleep awake
        covered := fun asleep => absurd asleep awake }

/-- `thr_fn` is done with the signal it took, if it took one. -/
theorem Handled.leaves (handled : Handled s) (taken : s'.taken = s.taken)
    (expected : ∀ signo, s.thr = .handling signo → signo = sigint ∨ signo = sigquit)
    (outside : ∀ signo, s'.thr ≠ .handling signo) : Handled s' where
  known signo took := by
    rw [taken] at took
    rcases handled.known signo took with interrupt | quit | here
    · exact Or.inl interrupt
    · exact Or.inr (Or.inl quit)
    · exact (expected signo here).imp_right Or.inl
  taken signo here := absurd here (outside signo)

theorem Effect.handled (effect : Effect cfg s s') (shape : Shape s) (handled : Handled s) :
    Handled s' := by
  cases effect with
  | created here =>
      have absent := shape.created.mpr (Or.inr here)
      exact handled.leaves rfl (by simp [absent]) nofun
  | @took signo here first =>
      constructor
      · intro other taken
        rcases List.mem_append.mp taken with old | now
        · rcases handled.known other old with interrupt | quit | there
          · exact Or.inl interrupt
          · exact Or.inr (Or.inl quit)
          · rw [here] at there
            cases there
        · rw [List.mem_singleton.mp now]
          exact Or.inr (Or.inr rfl)
      · intro other same
        cases same
        exact List.mem_append_right _ List.mem_cons_self
  | interrupted here =>
      refine handled.leaves rfl (fun signo there => Or.inl ?_) nofun
      rw [here] at there
      exact (ThrPc.handling.inj there).symm
  | quit here =>
      refine handled.leaves rfl (fun signo there => Or.inr ?_) nofun
      rw [here] at there
      exact (ThrPc.handling.inj there).symm
  | locked here | set here | unlocked here | signalled here =>
      exact handled.leaves rfl (by simp [here]) nofun
  | _ => exact ⟨handled.known, handled.taken⟩

/-- A signal that was pending is taken out. -/
theorem count_erase {pending : List Signo} {signo : Signo} (member : signo ∈ pending)
    (other : Signo) :
    [signo].count other + (pending.erase signo).count other = pending.count other := by
  rw [← List.count_append]
  exact (List.perm_cons_erase member).symm.count_eq other

theorem mem_pending_of_next {signo : Signo} (first : next s.waiting = some signo) :
    blockable signo = true ∧ signo ∈ s.pending := by
  have ready := Signal.Pending.ready_of_next first
  rw [System.waiting, Bool.and_eq_true, decide_eq_true_eq] at ready
  exact ready

theorem Accounted.send (accounted : Accounted s) (signo : Signo) (room : Bool) :
    Accounted (s.send signo room) := by
  obtain ⟨count, kept⟩ := accounted
  have fewer (other : Signo) :
      (s.pending.filter fun other => !discards signo other).count other ≤ s.pending.count other :=
    List.filter_sublist.count_le other
  have undiscarded {other : Signo} (same : other = sigquit) (pending : other ∈ s.pending) :
      other ∈ s.pending.filter fun other => !discards signo other := by
    subst same
    have never : discards signo sigquit = false := by
      simp [discards, Signal.Pending.stops, Signal.Pending.isCont, sigquit]
    exact List.mem_filter.mpr ⟨pending, by rw [never]; rfl⟩
  constructor
  · intro other
    have before := count other
    have less := fewer other
    simp only [System.send]
    split <;> simp only [List.count_append] <;> omega
  · intro sent
    simp only [System.send, List.mem_append, List.mem_singleton] at sent ⊢
    rcases sent with old | rfl
    · rcases kept old with pending | rest
      · left
        split
        · exact List.mem_append_left _ (undiscarded rfl pending)
        · exact undiscarded rfl pending
      · exact Or.inr rest
    · left
      split
      · exact List.mem_append_right _ List.mem_cons_self
      · rename_i merged
        simp only [not_or, not_not] at merged
        exact merged.2

/-- A signal goes from the queue to those taken or those delivered. -/
theorem Accounted.erase (accounted : Accounted s) {signo : Signo} (pending : signo ∈ s.pending)
    (rest : s'.pending = s.pending.erase signo) (sent : s'.sent = s.sent)
    (moved : s'.taken = s.taken ++ [signo] ∧ s'.delivered = s.delivered ∨
      s'.taken = s.taken ∧ s'.delivered = s.delivered ++ [signo]) : Accounted s' := by
  obtain ⟨count, kept⟩ := accounted
  constructor
  · intro other
    have before := count other
    have same := count_erase pending other
    rcases moved with ⟨taken, delivered⟩ | ⟨taken, delivered⟩ <;>
      simp only [rest, sent, taken, delivered, List.count_append] <;> omega
  · intro quit
    rw [sent] at quit
    have mine : sigquit ∈ s.pending → sigquit ∈ s'.pending ∨ sigquit = signo := by
      intro was
      by_cases same : sigquit = signo
      · exact Or.inr same
      · exact Or.inl (rest ▸ (List.mem_erase_of_ne same).mpr was)
    rcases moved with ⟨taken, delivered⟩ | ⟨taken, delivered⟩ <;>
      simp only [taken, delivered, List.mem_append, List.mem_singleton]
    · rcases kept quit with was | before | before
      · exact (mine was).imp_right fun same => Or.inl (Or.inr same)
      · exact Or.inr (Or.inl (Or.inl before))
      · exact Or.inr (Or.inr before)
    · rcases kept quit with was | before | before
      · exact (mine was).imp_right fun same => Or.inr (Or.inr same)
      · exact Or.inr (Or.inl before)
      · exact Or.inr (Or.inr (Or.inl before))

theorem Effect.accounted (effect : Effect cfg s s') (accounted : Accounted s) : Accounted s' := by
  cases effect with
  | sent signo room => exact accounted.send signo room
  | took here first =>
      exact accounted.erase (mem_pending_of_next first).2 rfl rfl (Or.inl ⟨rfl, rfl⟩)
  | delivered pending unblocked => exact accounted.erase pending rfl rfl (Or.inr ⟨rfl, rfl⟩)
  | _ => exact ⟨accounted.count, accounted.kept⟩

theorem Effect.ended (effect : Effect cfg s s') (alive : s.ended = none) (ended : Ended cfg s) :
    Ended cfg s' := by
  -- a process that goes on has reported nothing unexpected
  have silent (signo : Signo) : .unexpected signo ∉ s.out := fun shown => by
    have exited := (ended.unexpected signo shown).1
    rw [alive] at exited
    cases exited
  cases effect with
  | failed message =>
      refine ⟨nofun, nofun, fun signo shown => absurd ?_ (silent signo)⟩
      simpa [System.exit] using shown
  | @unexpected signo here other =>
      refine ⟨nofun, nofun, fun signo' shown => ?_⟩
      rcases List.mem_append.mp shown with old | now
      · exact absurd old (silent signo')
      · cases List.mem_singleton.mp now
        exact ⟨rfl, here, other⟩
  | returned here =>
      exact ⟨nofun, fun _ => here, fun signo shown => absurd shown (silent signo)⟩
  | delivered pending unblocked =>
      refine ⟨fun signo killed => ?_, fun exited => ?_,
        fun signo shown => absurd shown (silent signo)⟩
      · dsimp only at killed
        split at killed <;> cases killed
        exact unblocked
      · dsimp only at exited
        split at exited <;> cases exited
  | reported here | interrupted here =>
      refine ⟨fun signo killed => ?_, fun exited => ?_, fun signo shown => absurd ?_ (silent signo)⟩
      · simp [alive] at killed
      · simp [alive] at exited
      · simpa using shown
  | _ => exact ⟨fun signo killed => by simp [System.send, alive] at killed,
      fun exited => by simp [System.send, alive] at exited,
      fun signo shown => absurd shown (silent signo)⟩

structure Good (cfg : Config) (s : System) : Prop where
  shape : Shape s
  handled : Handled s
  accounted : Accounted s
  ended : Ended cfg s

theorem Good.step (good : Good cfg s) {e : Event} (stepped : s.step cfg e = some s') :
    Good cfg s' := by
  obtain ⟨alive, effect⟩ := step_effect stepped
  exact ⟨effect.shape good.shape, effect.handled good.shape good.handled,
    effect.accounted good.accounted, effect.ended alive good.ended⟩

theorem run_good {es : List Event} (reached : run (System.step cfg) start es = some s) :
    Good cfg s := by
  refine run_invariant (System.step cfg) (Good cfg) (fun _ _ _ good stepped => good.step stepped)
    ?_ reached
  exact ⟨start_shape, ⟨nofun, nofun⟩, ⟨fun _ => Nat.le_refl 0, nofun⟩, ⟨nofun, nofun, nofun⟩⟩

end Kept

/-! ## SIGQUIT reaches `main` -/

section Quit

variable {cfg : Config} {s s' : System}

/-- The process is left alone: no more signals are sent, no call fails, and nothing can be
delivered. -/
def Alone (cfg : Config) (s : System) : Event → Prop
  | .main error | .thrFn error =>
      error = false ∧ ∀ signo ∈ s.pending, s.main.mask cfg signo = true
  | _ => False

instance decidableAlone (cfg : Config) (s : System) : ∀ e, Decidable (Alone cfg s e)
  | .main _ | .thrFn _ => inferInstanceAs (Decidable (_ ∧ _))
  | .send .. | .deliver _ | .spurious => isFalse id

/-- SIGQUIT was taken, or `sigwait` will return nothing but SIGINT before it. -/
def System.QuitFirst (s : System) : Prop :=
  sigquit ∈ s.taken ∨ sigquit ∈ s.pending ∧
    ∀ signo ∈ s.pending, rank signo < rank sigquit → signo = sigint

/-- SIGQUIT is on its way, and `thr_fn` is not about to exit. -/
structure Quitting (s : System) : Prop where
  alive : s.ended = none
  blocked : s.main ≠ .blocking
  able : ∀ signo ∈ s.pending, blockable signo = true
  first : s.QuitFirst
  expected : ∀ signo, s.thr = .handling signo → signo = sigint ∨ signo = sigquit

def ThrPc.left : ThrPc → Nat
  | .absent => 8
  | .handling signo => if signo = sigint then 7 else 5
  | .sigwait => 6
  | .locking => 4
  | .setting => 3
  | .unlocking => 2
  | .signalling => 1
  | .returned => 0

def MainPc.left (quit : Bool) : MainPc → Nat
  | .awaiting a => a.left quit + 1
  | .blocking | .creating => Await.locking.left quit + 1
  | _ => 0

/-- A step of `thr_fn` outweighs all that `main` can do; a SIGINT takes it round its loop. -/
def System.left (s : System) : Nat :=
  4 * (s.thr.left + 2 * s.pending.count sigint) + s.main.left s.quitflag

theorem MainPc.left_le (quit : Bool) (pc : MainPc) : pc.left quit ≤ 3 := by
  cases pc with
  | awaiting a => exact Nat.add_le_add_right (Await.left_le ..) 1
  | blocking | creating => exact Nat.add_le_add_right (Await.left_le ..) 1
  | restoring | restored | returning => exact Nat.zero_le _

theorem MainPc.blockable_of_mask (pc : MainPc) {signo : Signo} (masked : pc.mask cfg signo = true) :
    blockable signo = true := by
  cases pc with
  | creating | awaiting _ | restoring => exact masked
  | blocking | restored | returning => exact (Bool.and_eq_true_iff.mp masked).2

/-- `main` has all signals blocked until it has reported SIGQUIT. -/
theorem Quitting.quiet (quitting : Quitting s) (unreported : s.main.reported = false) :
    ∀ signo ∈ s.pending, s.main.mask cfg signo = true := by
  intro signo pending
  have able := quitting.able signo pending
  cases main : s.main with
  | blocking => exact absurd main quitting.blocked
  | creating | awaiting _ => exact able
  | restoring | restored | returning =>
      rw [main] at unreported
      cases unreported

def Advances (cfg : Config) (s : System) : Prop :=
  ∃ e s', restrict (System.step cfg) (Alone cfg) s e = some s' ∧ Quitting s' ∧ s'.left < s.left

theorem advances_main (quitting : Quitting s) (unreported : s.main.reported = false)
    (moved : s.runMain cfg false = some s') (still : Quitting s') (less : s'.left < s.left) :
    Advances cfg s := by
  refine ⟨.main false, s', restrict_eq_some.mpr ⟨⟨rfl, quitting.quiet unreported⟩, ?_⟩, still, less⟩
  simp only [System.step, quitting.alive, if_true, moved]

theorem advances_thr (quitting : Quitting s) (unreported : s.main.reported = false)
    (moved : s.thrFn false = some s') (still : Quitting s') (less : s'.left < s.left) :
    Advances cfg s := by
  refine ⟨.thrFn false, s', restrict_eq_some.mpr ⟨⟨rfl, quitting.quiet unreported⟩, ?_⟩, still,
    less⟩
  simp only [System.step, quitting.alive, if_true, moved]

/-- `main` steps in its loop, to a place nearer to its end or to sleep. -/
theorem advances_await (quitting : Quitting s) {a : Await} (here : s.main = .awaiting a)
    (inside : a ≠ .entered) (able : (a.step s.lock .main s.quitflag).isSome = true)
    (nearer : s.quitflag = true ∨ a = .testing) : Advances cfg s := by
  obtain ⟨⟨lock, b⟩, went⟩ := Option.isSome_iff_exists.mp able
  have moved : s.runMain cfg false = some { s with lock := lock, main := .awaiting b } := by
    unfold System.runMain
    cases a <;> first | exact absurd rfl inside | simp only [here, went]
  refine advances_main quitting (by rw [here]; rfl) moved { quitting with blocked := nofun } ?_
  have less := (Await.step_effect went).left_lt nearer
  simp only [System.left, here, MainPc.left]
  omega

/-- `thr_fn` gets the lock, if not at once then after `main` has gone to sleep. -/
theorem Quitting.locking (quitting : Quitting s) (shape : Shape s)
    (unreported : s.main.reported = false) (here : s.thr = .locking) : Advances cfg s := by
  have unset : s.quitflag = false := by rw [shape.quitflag, here]; rfl
  rcases owner : s.lock.owner with _ | thread
  · refine advances_thr quitting unreported (by rw [System.thrFn, here, lock_isSome owner]) ?_ ?_
    · exact { quitting with expected := nofun }
    · simp only [System.left, here, ThrPc.left]
      omega
  · cases thread with
    | thrFn =>
        have owns := shape.thrOwns.mp owner
        rw [here] at owns
        cases owns
    | main =>
        have owns := shape.mainOwns.mp owner
        have testing : s.main = .awaiting .testing := by
          have passed := shape.passed
          rcases main : s.main with _ | _ | (_ | _ | _ | _) | _ | _ | _ <;>
            simp_all [MainPc.owns, Await.holds, MainPc.passed, MainPc.reported]
        exact advances_await quitting testing (by simp) (by simp [Await.step, unset]) (Or.inr rfl)

/-- Once `thr_fn` has returned, nothing keeps `main` from the end of its loop. -/
theorem Quitting.returned (quitting : Quitting s) (shape : Shape s)
    (unreported : s.main.reported = false) (here : s.thr = .returned) : Advances cfg s := by
  have set : s.quitflag = true := by rw [shape.quitflag, here]; rfl
  have covered := shape.covered
  rw [here] at covered
  cases main : s.main with
  | blocking => exact absurd main quitting.blocked
  | creating =>
      have absent := shape.created.mpr (Or.inr main)
      rw [here] at absent
      cases absent
  | awaiting a =>
      by_cases entered : a = .entered
      · subst entered
        refine advances_main quitting unreported (by rw [System.runMain, main]) ?_ ?_
        · exact { quitting with blocked := nofun }
        · simp [System.left, main, MainPc.left]
      · have free : a.holds = false → s.lock.owner = none := by
          intro waits
          rcases owner : s.lock.owner with _ | thread
          · rfl
          · cases thread with
            | main =>
                have owns := shape.mainOwns.mp owner
                rw [main, MainPc.owns, waits] at owns
                cases owns
            | thrFn =>
                have owns := shape.thrOwns.mp owner
                rw [here] at owns
                cases owns
        exact advances_await quitting main entered
          (Await.step_isSome covered set free entered) (Or.inl set)
  | restoring | restored | returning =>
      rw [main] at unreported
      cases unreported

/-- `sigwait` returns SIGINT or SIGQUIT. -/
theorem Quitting.sigwait (quitting : Quitting s) (shape : Shape s)
    (unreported : s.main.reported = false) (here : s.thr = .sigwait) : Advances cfg s := by
  have untaken : sigquit ∉ s.taken := fun taken => by
    simpa [here, ThrPc.quits] using shape.quitting taken
  obtain ⟨quit, before⟩ := quitting.first.resolve_left untaken
  have waits : s.waiting sigquit = true := by
    simp [System.waiting, quit, quitting.able sigquit quit]
  cases first : next s.waiting with
  | none =>
      have absent := Signal.Pending.next_eq_none.mp first sigquit
      rw [waits] at absent
      cases absent
  | some signo =>
      have pending := (mem_pending_of_next first).2
      have moved : s.thrFn false = some { s with
          pending := s.pending.erase signo
          taken := s.taken ++ [signo]
          thr := .handling signo } := by
        rw [System.thrFn, here]
        simp only [Bool.false_eq_true, if_false, first]
      have counts := count_erase pending sigint
      have able : ∀ other ∈ s.pending.erase signo, blockable other = true := fun other member =>
        quitting.able other (List.mem_of_mem_erase member)
      -- what goes before SIGQUIT is SIGINT
      have which : signo = sigquit ∨ signo = sigint := by
        rcases Signal.Pending.next_first first waits with same | earlier
        · exact Or.inl same.symm
        · exact Or.inr (before signo pending earlier)
      rcases which with rfl | rfl
      · refine advances_thr quitting unreported moved ⟨quitting.alive, quitting.blocked, able,
          Or.inl (by simp), fun signo same => ?_⟩ ?_
        · cases same
          exact Or.inr rfl
        · have apart : [sigquit].count sigint = 0 := rfl
          have left : ThrPc.sigwait.left = 6 ∧ (ThrPc.handling sigquit).left = 5 := ⟨rfl, rfl⟩
          simp only [System.left, here]
          omega
      · refine advances_thr quitting unreported moved ⟨quitting.alive, quitting.blocked, able,
          Or.inr ⟨?_, fun other member => ?_⟩, fun signo same => ?_⟩ ?_
        · exact (List.mem_erase_of_ne (by decide)).mpr quit
        · exact before other (List.mem_of_mem_erase member)
        · cases same
          exact Or.inl rfl
        · have one : [sigint].count sigint = 1 := rfl
          have left : ThrPc.sigwait.left = 6 ∧ (ThrPc.handling sigint).left = 7 := ⟨rfl, rfl⟩
          simp only [System.left, here]
          omega

theorem Quitting.advances (quitting : Quitting s) (shape : Shape s)
    (unreported : s.main.reported = false) : Advances cfg s := by
  have thr (thr : ThrPc) {out : List Io} {quitflag : Bool} {lock : Monitor Thread}
      (moved : s.thrFn false = some { s with
        thr := thr, out := out, quitflag := quitflag, lock := lock })
      (outside : ∀ signo, thr ≠ .handling signo) (less : thr.left < s.thr.left) :
      Advances cfg s := by
    refine advances_thr quitting unreported moved
      { quitting with expected := fun signo same => absurd same (outside signo) } ?_
    have main := s.main.left_le quitflag
    simp only [System.left]
    omega
  cases here : s.thr with
  | absent =>
      have creating := (shape.created.mp here).resolve_left quitting.blocked
      refine advances_main quitting unreported
        (by rw [System.runMain, creating]; exact if_neg nofun) ?_ ?_
      · exact { quitting with blocked := nofun, expected := nofun }
      · simp only [System.left, here, creating, ThrPc.left, MainPc.left]
        omega
  | sigwait => exact quitting.sigwait shape unreported here
  | handling signo =>
      rcases quitting.expected signo here with rfl | rfl
      · exact thr .sigwait (by rw [System.thrFn, here]; exact if_pos rfl) nofun
          (by rw [here]; decide)
      · have moved : s.thrFn false = some { s with thr := .locking } := by
          rw [System.thrFn, here]
          exact (if_neg (by decide)).trans (if_pos rfl)
        exact thr .locking moved nofun (by rw [here]; decide)
  | locking => exact quitting.locking shape unreported here
  | setting => exact thr .unlocking (by rw [System.thrFn, here]) nofun (by rw [here]; decide)
  | unlocking => exact thr .signalling (by rw [System.thrFn, here]) nofun (by rw [here]; decide)
  | signalling => exact thr .returned (by rw [System.thrFn, here]) nofun (by rw [here]; decide)
  | returned => exact quitting.returned shape unreported here

theorem Quitting.reports (quitting : Quitting s) (shape : Shape s) :
    Leads (restrict (System.step cfg) (Alone cfg)) s fun t => .received ∈ t.out := by
  have leads := @leads_of_descent _ _ (restrict (System.step cfg) (Alone cfg))
    (fun t => Quitting t ∧ Shape t) (fun t => t.main.reported = true) System.left
    (fun t ⟨quitting, shape⟩ unreported => by
      obtain ⟨e, u, stepped, still, less⟩ :=
        quitting.advances shape (Bool.eq_false_iff.mpr unreported)
      have effect := (step_effect (restrict_eq_some.mp stepped).2).2
      exact ⟨e, u, stepped, ⟨still, effect.shape shape⟩, less⟩) s ⟨quitting, shape⟩
  exact leads.trans fun t ⟨⟨_, shape⟩, reported⟩ => leads_here (shape.received.mpr reported)

end Quit

/-- **pthread_signal.c.**  Whatever signals are sent and however the threads interleave:
`thr_fn` takes no signal more often than it was sent, and reports an interrupt for each
SIGINT it took and no other.  It takes one signal at most that is neither SIGINT nor SIGQUIT:
it reports that one as unexpected and the process exits with -1.  `main` reports SIGQUIT only
if `thr_fn` took one, and the process exits with 0 only after that.  A signal that can be
blocked ends the process only before `main` has blocked it or after `main` has reported
SIGQUIT.  No SIGQUIT is lost once it was sent.  And a process with signals blocked that is
left alone can come to report SIGQUIT, if `thr_fn` has taken it or it is pending with nothing
but SIGINT that `sigwait` returns before it, if nothing can be delivered, and if `thr_fn` has
not just taken an unexpected signal. -/
theorem sigquit_reported {cfg : Config} {es : List Event} {s : System}
    (reached : run (System.step cfg) start es = some s) :
    (∀ signo, s.taken.count signo ≤ s.sent.count signo) ∧
      s.out.count .interrupt ≤ s.taken.count sigint ∧
      s.taken.count sigint ≤ s.out.count .interrupt + 1 ∧
      (∀ signo ∈ s.taken, signo = sigint ∨ signo = sigquit ∨ s.thr = .handling signo) ∧
      (∀ signo, .unexpected signo ∈ s.out → s.ended = some (.exited (-1)) ∧ signo ∈ s.taken ∧
        signo ≠ sigint ∧ signo ≠ sigquit) ∧
      (.received ∈ s.out → sigquit ∈ s.taken) ∧
      (s.ended = some (.exited 0) → .received ∈ s.out) ∧
      (∀ signo, s.ended = some (.killed signo) → blockable signo = true →
        s.main = .blocking ∨ .received ∈ s.out) ∧
      (sigquit ∈ s.sent → sigquit ∈ s.pending ∨ sigquit ∈ s.taken ∨ sigquit ∈ s.delivered) ∧
      (s.ended = none → s.main ≠ .blocking → s.QuitFirst →
        (∀ signo ∈ s.pending, s.main.mask cfg signo = true) →
        (∀ signo, s.thr = .handling signo → signo = sigint ∨ signo = sigquit) →
        Leads (restrict (System.step cfg) (Alone cfg)) s fun t => .received ∈ t.out) := by
  obtain ⟨shape, handled, accounted, ended⟩ := run_good reached
  have interrupts := shape.interrupts
  refine ⟨fun signo => ?_, ?_, ?_, handled.known, fun signo shown => ?_, fun received => ?_,
    fun exited => ?_, fun signo killed blocked => ?_, accounted.kept,
    fun alive later first quiet expected => ?_⟩
  · have := accounted.count signo
    omega
  · omega
  · split at interrupts <;> omega
  · obtain ⟨exited, here, other⟩ := ended.unexpected signo shown
    exact ⟨exited, handled.taken signo here, other⟩
  · have set := shape.passed (s.main.passed_of_reported (shape.received.mp received))
    rw [shape.quitflag] at set
    exact shape.quits (s.thr.quits_of_hasSet set)
  · rw [shape.received, ended.returned exited]
    rfl
  · have unblocked := ended.killed signo killed
    rw [shape.received]
    cases main : s.main with
    | blocking => exact Or.inl rfl
    | restoring | restored | returning => exact Or.inr rfl
    | creating | awaiting =>
        rw [main, MainPc.mask, blocked] at unblocked
        cases unblocked
  · refine Quitting.reports ⟨alive, later, fun signo pending => ?_, first, expected⟩ shape
    exact s.main.blockable_of_mask (quiet signo pending)

/-- Started with nothing blocked, and with every signal ending the process. -/
def plain : Config := ⟨fun _ => false, fun _ => true⟩

/-- SIGQUIT comes before `thr_fn` has handled SIGINT, with another SIGINT and SIGTERM, and
`main` sleeps. -/
def interruptFirst : List Event :=
  [.main false, .main false, .main false, .main false, .send sigint true, .thrFn false,
    .send sigterm true, .send sigquit true, .send sigint true]

theorem sigquit_reported_interruptFirst : ∃ s,
    run (System.step plain) start interruptFirst = some s ∧ s.lock.asleep .main = true ∧
      s.taken.count sigint ≤ s.out.count .interrupt + 1 ∧
      Leads (restrict (System.step plain) (Alone plain)) s fun t => .received ∈ t.out := by
  obtain ⟨-, -, behind, -, -, -, -, -, -, reports⟩ :=
    sigquit_reported (rfl : run (System.step plain) start interruptFirst = some _)
  refine ⟨_, rfl, rfl, behind, reports rfl nofun (Or.inr ⟨by decide, by decide⟩) (by decide) ?_⟩
  rintro signo ⟨⟩
  exact Or.inl rfl

end UnixDemos.Pthread.PthreadSignal
