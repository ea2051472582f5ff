/-
# Signal.RtSigRecv — the receiver of rt_sig_recv.c

The process installs `siginfoHandler` for every signal it can but SIGTSTP and SIGQUIT,
keeps all signals but SIGINT and SIGTERM blocked for a while if it was given
arguments, and then calls `pause` until the handler of one of those two has set
`allDone`.  The model starts after the loop that installs the handlers, with any
inherited mask.

The handler runs with all signals blocked.  But nothing is blocked between the test of
`allDone` and the call of `pause`: a handler that runs there sets `allDone` too late to
be seen, and `pause` waits for one more signal.
-/
import UnixDemos.Library.CInt
import UnixDemos.Library.Run
import UnixDemos.Library.Signal

namespace UnixDemos.Signal.RtSigRecv

open UnixDemos.Library

set_option autoImplicit false

/-- `NSIG`; 0 is no signal. -/
abbrev Signo := Fin 65

def sigint : Signo := 2

def sigquit : Signo := 3

def sigkill : Signo := 9

def sigterm : Signo := 15

def sigstop : Signo := 19

def sigtstp : Signo := 20

/-- Real-time signals are queued. -/
def queues (sig : Signo) : Bool := 32 ≤ sig.val

/-- SIGKILL and SIGSTOP can be neither blocked nor caught, nor the two signals the C
library keeps for itself. -/
def blockable (sig : Signo) : Bool := sig ≠ sigkill && sig ≠ sigstop && sig ≠ 32 && sig ≠ 33

def defaultAction (sig : Signo) : Action Signo :=
  if sig = sigstop ∨ sig = sigtstp then .stop else .terminate

structure Siginfo where
  siCode : Int
  siValue : Int
  siPid : Int
  siUid : Int
  deriving DecidableEq, Repr

/-! ## State -/

inductive HandlerPc where
  | entry
  | printf
  | sleep
  | ret
  deriving DecidableEq, Repr

/-- What `main` does next; `pausing` is inside `pause`. -/
inductive Pc where
  | block
  | printBlocked
  | sleep
  | printComplete
  | unblock
  | test
  | pause
  | pausing
  | exited (status : Int)
  deriving DecidableEq, Repr

inductive Io where
  | caught (sig : Signo) (si : Siginfo) (code : String)
  | printf (format : String) (args : List String)
  | perror (message : String)
  deriving DecidableEq, Repr

abbrev Process := Kernel Signo Siginfo HandlerPc

structure System where
  argv : List String
  pc : Pc
  prevMask : Signo → Bool
  sigCnt : Int
  allDone : Bool
  kernel : Process
  log : List Io

/-- `fail` is a step of the process whose system call fails. -/
inductive Event where
  | arrive (sig : Signo) (si : Siginfo)
  | deliver (sig : Signo)
  | proceed
  | fail
  deriving DecidableEq, Repr

/-! ## The handlers -/

/-- `sa`: `siginfoHandler`, with all signals in `sa_mask`. -/
def sa : Action Signo := .handler fun _ => true

/-- `sigaction(sig, &sa, NULL)`; `main` does not look at whether it fails. -/
def sigaction (kernel : Process) (sig : Signo) : Process :=
  if blockable sig then kernel.sigaction sig sa else kernel

/-- The loop over the signals from 1 to `NSIG - 1`. -/
def installHandlers (kernel : Process) : Process :=
  ((List.finRange 65).drop 1).foldl
    (fun kernel sig => if sig ≠ sigtstp ∧ sig ≠ sigquit then sigaction kernel sig else kernel)
    kernel

variable (s : System)

def System.note (entry : Io) : System := { s with log := s.log ++ [entry] }

/-- `SI_USER` is 0 and `SI_QUEUE` is -1. -/
def codeName (siCode : Int) : String :=
  if siCode = 0 then "SI_USER" else if siCode = -1 then "SI_QUEUE" else "other"

/-- The next step of the handler. -/
def siginfoHandler (sig : Signo) (si : Siginfo) : HandlerPc → Option System
  | .entry =>
      if sig = sigint ∨ sig = sigterm then
        some { s with allDone := true, kernel := s.kernel.goto .ret }
      else some { s with sigCnt := wrap32 (s.sigCnt + 1), kernel := s.kernel.goto .printf }
  | .printf =>
      some { s.note (.caught sig si (codeName si.siCode)) with kernel := s.kernel.goto .sleep }
  | .sleep => some { s with kernel := s.kernel.goto .ret }
  | .ret => s.kernel.sigreturn.map fun kernel => { s with kernel := kernel }

/-! ## The main program -/

/-- All signals but SIGINT and SIGTERM. -/
def blockMask (sig : Signo) : Bool := sig ≠ sigint && sig ≠ sigterm

def main : Option System :=
  match s.pc with
  | .block =>
      some { s with
        prevMask := s.kernel.mask
        kernel := s.kernel.sigprocmask blockable blockMask
        pc := .printBlocked }
  | .printBlocked =>
      let shown := Io.printf "%s: signals blocked - sleeping %s seconds\n" (s.argv.take 2)
      some { s.note shown with pc := .sleep }
  | .sleep => some { s with pc := .printComplete }
  | .printComplete =>
      some { s.note (.printf "%s: sleep complete\n" (s.argv.take 1)) with pc := .unblock }
  | .unblock => some { s with kernel := s.kernel.sigprocmask blockable s.prevMask, pc := .test }
  | .test => if s.allDone then some { s with pc := .exited 0 } else some { s with pc := .pause }
  | .pause => some { s with kernel := s.kernel.doze, pc := .pausing }
  | .pausing =>
      match s.kernel.proceed with
      | none => none
      | some kernel =>
          if kernel.wait = .running then some { s with kernel := kernel, pc := .test }
          else some { s with kernel := kernel }
  | .exited _ => none

/-- A call of `main` that fails. -/
def mainFails : Option System :=
  match s.pc with
  | .block | .unblock =>
      some { s.note (.perror "sigprocmask error") with pc := .exited (-1) }
  | _ => none

def System.ended : Bool :=
  match s.pc with
  | .exited _ => true
  | _ => s.kernel.killed.isSome

def System.step (e : Event) : Option System :=
  if s.ended then none
  else
    match e with
    | .arrive sig si =>
        if sig = 0 then none else some { s with kernel := s.kernel.arrive queues sig si }
    | .deliver sig =>
        (s.kernel.deliver blockable .entry sig).map fun kernel => { s with kernel := kernel }
    | .proceed =>
        match s.kernel.frames with
        | [] => main s
        | frame :: _ => siginfoHandler s frame.signo frame.info frame.pc
    | .fail =>
        match s.kernel.frames with
        | [] => mainFails s
        | _ :: _ => none

/-- The handlers have just been installed; `mask` is the inherited mask. -/
def start (argv : List String) (mask : Signo → Bool) : System where
  argv := argv
  pc := if 1 < argv.length then .block else .test
  prevMask := fun _ => false
  sigCnt := 0
  allDone := false
  kernel := installHandlers
    ⟨fun sig => mask sig && blockable sig, fun _ => [], defaultAction, [], .running, none, none⟩
  log := []

/-! ## The window between the test and pause -/

/-- SIGINT and SIGTERM set `allDone`. -/
def Ends (sig : Signo) : Prop := sig = sigint ∨ sig = sigterm

/-- Blocked in `pause`, with `allDone` set and no handler running. -/
def Lost (s : System) : Prop :=
  s.pc = .pausing ∧ s.kernel.wait = .asleep ∧ s.kernel.frames = [] ∧ s.allDone = true

/-- The event does not deliver SIGINT or SIGTERM between the test and `pause`. -/
def InTime (s : System) (e : Event) : Prop := ∀ sig, e = .deliver sig → Ends sig → s.pc ≠ .pause

instance (sig : Signo) : Decidable (Ends sig) := inferInstanceAs (Decidable (_ ∨ _))

instance (s : System) (e : Event) : Decidable (InTime s e) :=
  inferInstanceAs (Decidable (∀ _, _))

/-- `allDone` is 0 from the test until a handler interrupts `pause`. -/
structure Clear (s : System) : Prop where
  window : s.pc = .pause → s.allDone = false ∧ ∀ f ∈ s.kernel.frames, ¬ Ends f.signo
  waiting : s.kernel.wait = .asleep ∨ s.kernel.wait = .woken →
    s.allDone = false ∧ s.kernel.frames = []

section Steps

variable {s} {s' : System}

theorem installHandlers_frame (kernel : Process) :
    (installHandlers kernel).wait = kernel.wait ∧
      (installHandlers kernel).frames = kernel.frames := by
  have one : ∀ (k : Process) sig, (sigaction k sig).wait = k.wait ∧
      (sigaction k sig).frames = k.frames := by
    intro k sig
    unfold sigaction
    split <;> exact ⟨rfl, rfl⟩
  unfold installHandlers
  induction (List.finRange 65).drop 1 generalizing kernel with
  | nil => exact ⟨rfl, rfl⟩
  | cons sig sigs ih =>
      rw [List.foldl_cons]
      split
      · obtain ⟨wait, frames⟩ := ih (sigaction kernel sig)
        exact ⟨wait.trans (one kernel sig).1, frames.trans (one kernel sig).2⟩
      · exact ih kernel

theorem clear_start (argv : List String) (mask : Signo → Bool) : Clear (start argv mask) where
  window pc := by
    simp only [start] at pc
    split at pc <;> cases pc
  waiting wait := by
    simp only [start, (installHandlers_frame _).1] at wait
    rcases wait with wait | wait <;> cases wait

theorem Clear.arrive (clear : Clear s) (sig : Signo) (si : Siginfo) :
    Clear { s with kernel := s.kernel.arrive queues sig si } where
  window := clear.window
  waiting wait := by
    apply clear.waiting
    simp only [Kernel.arrive] at wait
    split at wait
    · rename_i sleeping
      exact Or.inl sleeping.1
    · exact wait

theorem Clear.deliver (clear : Clear s) {sig : Signo} {kernel : Process}
    (delivered : s.kernel.deliver blockable .entry sig = some kernel)
    (inTime : Ends sig → s.pc ≠ .pause) : Clear { s with kernel := kernel } := by
  obtain ⟨awake, -, info, rest, -, delivery⟩ := Kernel.deliver_effect delivered
  cases delivery with
  | terminates action => exact ⟨clear.window, clear.waiting⟩
  | stops action => exact ⟨clear.window, clear.waiting⟩
  | starts action =>
      constructor
      · intro pc
        obtain ⟨flag, others⟩ := clear.window pc
        refine ⟨flag, List.forall_mem_cons.mpr ⟨fun ends => inTime ends pc, others⟩⟩
      · intro wait
        exfalso
        simp only at wait
        split at wait
        · rcases wait with wait | wait <;> cases wait
        · rename_i notWoken
          exact wait.elim awake notWoken

theorem Clear.siginfoHandler (clear : Clear s) {f : Frame Signo Siginfo HandlerPc}
    {fs : List (Frame Signo Siginfo HandlerPc)} (frames : s.kernel.frames = f :: fs)
    (ran : siginfoHandler s f.signo f.info f.pc = some s') : Clear s' := by
  -- a handler runs, so the process is not waiting in `pause`
  have busy : ¬ (s.kernel.wait = .asleep ∨ s.kernel.wait = .woken) := by
    intro wait
    have noHandler := (clear.waiting wait).2
    rw [frames] at noHandler
    cases noHandler
  have window : s.pc = .pause → s.allDone = false ∧ ¬ Ends f.signo ∧ ∀ g ∈ fs, ¬ Ends g.signo := by
    intro pc
    have before := clear.window pc
    rwa [frames, List.forall_mem_cons] at before
  have goes : ∀ next cnt done log, (s.pc = .pause → done = false) → Clear { s with
      sigCnt := cnt, allDone := done, kernel := s.kernel.goto next, log := log } := by
    intro next cnt done log notYet
    constructor
    · intro pc
      obtain ⟨-, own, others⟩ := window pc
      refine ⟨notYet pc, ?_⟩
      simp only [Kernel.goto, frames]
      exact List.forall_mem_cons.mpr ⟨own, others⟩
    · intro wait
      exact absurd ((s.kernel.goto_frame next).2.2.1 ▸ wait) busy
  cases at_ : f.pc with
  | entry =>
      simp only [at_, RtSigRecv.siginfoHandler] at ran
      split at ran
      · rename_i ends
        cases ran
        exact goes _ _ _ _ fun pc => absurd ends (window pc).2.1
      · cases ran
        exact goes _ _ _ _ fun pc => (window pc).1
  | printf | sleep =>
      rw [at_] at ran
      cases ran
      exact goes _ _ _ _ fun pc => (window pc).1
  | ret =>
      rw [at_, RtSigRecv.siginfoHandler, Option.map_eq_some_iff] at ran
      obtain ⟨kernel, returned, rfl⟩ := ran
      obtain ⟨g, gs, same, rfl⟩ := Kernel.sigreturn_eq_some.mp returned
      cases frames.symm.trans same
      exact ⟨fun pc => ⟨(window pc).1, (window pc).2.2⟩, fun wait => absurd wait busy⟩

theorem Clear.main (clear : Clear s) (noHandler : s.kernel.frames = [])
    (ran : main s = some s') : Clear s' := by
  cases at_ : s.pc with
  | block | printBlocked | sleep | printComplete | unblock =>
      simp only [RtSigRecv.main, at_] at ran
      cases ran
      exact ⟨nofun, clear.waiting⟩
  | test =>
      simp only [RtSigRecv.main, at_] at ran
      split at ran
      · cases ran
        exact ⟨nofun, clear.waiting⟩
      · rename_i notDone
        cases ran
        refine ⟨fun _ => ⟨by simpa using notDone, ?_⟩, clear.waiting⟩
        rw [noHandler]
        nofun
  | pause =>
      simp only [RtSigRecv.main, at_] at ran
      cases ran
      exact ⟨nofun, fun _ => ⟨(clear.window at_).1, noHandler⟩⟩
  | pausing =>
      simp only [RtSigRecv.main, at_] at ran
      split at ran
      · cases ran
      · rename_i kernel went
        rcases Kernel.proceed_effect went with ⟨woken, rfl, asleep⟩ | ⟨interrupted, rfl⟩
        · rw [if_neg (by simp [asleep])] at ran
          cases ran
          exact ⟨nofun, fun _ => clear.waiting (Or.inr woken)⟩
        · cases ran
          exact ⟨nofun, by rintro (wait | wait) <;> cases wait⟩
  | exited status =>
      simp only [RtSigRecv.main, at_] at ran
      cases ran

theorem Clear.mainFails (clear : Clear s) (failed : mainFails s = some s') : Clear s' := by
  unfold RtSigRecv.mainFails at failed
  split at failed
  · cases failed
    exact ⟨nofun, clear.waiting⟩
  · cases failed
    exact ⟨nofun, clear.waiting⟩
  · cases failed

theorem Clear.step (clear : Clear s) {e : Event} (inTime : InTime s e)
    (stepped : s.step e = some s') : Clear s' := by
  simp only [System.step] at stepped
  split at stepped
  · cases stepped
  · cases e with
    | arrive sig si =>
        simp only at stepped
        split at stepped
        · cases stepped
        · cases stepped
          exact clear.arrive sig si
    | deliver sig =>
        obtain ⟨kernel, delivered, rfl⟩ := Option.map_eq_some_iff.mp stepped
        exact clear.deliver delivered (inTime sig rfl)
    | proceed =>
        cases frames : s.kernel.frames with
        | nil =>
            simp only [frames] at stepped
            exact clear.main frames stepped
        | cons f fs =>
            simp only [frames] at stepped
            exact clear.siginfoHandler frames stepped
    | fail =>
        cases frames : s.kernel.frames with
        | nil =>
            simp only [frames] at stepped
            exact clear.mainFails stepped
        | cons f fs =>
            simp only [frames] at stepped
            cases stepped

end Steps

/-- A run in which SIGINT and SIGTERM are never delivered between the test of `allDone`
and the call of `pause` never sleeps in `pause` with `allDone` set. -/
theorem no_sleep_after_done {argv : List String} {mask : Signo → Bool} {events : List Event}
    {s : System} (inTime : Along System.step InTime (start argv mask) events)
    (ran : run System.step (start argv mask) events = some s) : ¬ Lost s := by
  have clear : Clear s :=
    run_along _ Clear (fun _ _ _ clear ok stepped => clear.step ok stepped)
      (clear_start argv mask) inTime ran
  rintro ⟨-, asleep, -, done⟩
  rw [(clear.waiting (Or.inl asleep)).1] at done
  cases done

/-- Through the phase with blocked signals to the call of `pause`. -/
def toPause : List Event := List.replicate 6 .proceed

def fromUser : Siginfo := ⟨0, 0, 1, 0⟩

/-- SIGUSR1 right before `pause`, and then SIGINT while the process sleeps in it. -/
def userSignalFirst : List Event :=
  toPause ++ [.arrive 10 fromUser, .deliver 10] ++ List.replicate 4 .proceed ++
    [.proceed, .arrive sigint fromUser, .deliver sigint, .proceed, .proceed, .proceed, .proceed]

theorem userSignalFirst_exits :
    (run System.step (start ["rt_sig_recv", "1", "1"] fun _ => false) userSignalFirst).map
      (fun s => (s.pc, s.allDone, s.sigCnt)) = some (.exited 0, true, 1) := by
  decide +kernel

theorem no_sleep_after_done_user_signal :
    ∃ s, run System.step (start ["rt_sig_recv", "1", "1"] fun _ => false) userSignalFirst =
        some s ∧ s.pc = .exited 0 ∧ s.allDone = true ∧ ¬ Lost s := by
  obtain ⟨s, ran, seen⟩ := Option.map_eq_some_iff.mp userSignalFirst_exits
  obtain ⟨pc, done, -⟩ := by simpa using seen
  exact ⟨s, ran, pc, done, no_sleep_after_done (by decide +kernel) ran⟩

/-- SIGINT between the test and `pause`: the process sleeps with `allDone` set. -/
theorem sigint_before_pause_lost :
    ∃ s, run System.step (start ["rt_sig_recv", "1", "1"] fun _ => false)
      (toPause ++ [.arrive sigint fromUser, .deliver sigint, .proceed, .proceed, .proceed]) =
        some s ∧ Lost s := by
  have seen : (run System.step (start ["rt_sig_recv", "1", "1"] fun _ => false)
      (toPause ++ [.arrive sigint fromUser, .deliver sigint, .proceed, .proceed, .proceed])).map
      (fun s => (s.pc, s.kernel.wait, s.kernel.frames.isEmpty, s.allDone)) =
        some (.pausing, .asleep, true, true) := by
    decide +kernel
  obtain ⟨s, ran, state⟩ := Option.map_eq_some_iff.mp seen
  obtain ⟨pc, asleep, frames, done⟩ := by simpa using state
  exact ⟨s, ran, pc, asleep, frames, done⟩

end UnixDemos.Signal.RtSigRecv
