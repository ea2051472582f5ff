/-
# Signal.SigSuspend — the loop of sig_suspend.c

The process blocks SIGINT and SIGQUIT, installs one handler for both, and unblocks
them only inside `sigsuspend`, between two passes through its critical section.  The
model starts after the `sigprocmask` call that blocks the two signals; the mask it
replaces, `origMask`, blocks neither.

A step is an arrival, a delivery, or the next step of the process: of the innermost
handler if one runs, and of `main` otherwise.  Both of `print_sigmask` and
`print_pendingsigs` are logged with the set they show.
-/
import UnixDemos.Library.Run
import UnixDemos.Library.Signal

namespace UnixDemos.Signal.SigSuspend

open UnixDemos.Library

set_option autoImplicit false

inductive Signo where
  | sigint
  | sigquit
  deriving DecidableEq, Repr

instance : Fintype Signo := ⟨{.sigint, .sigquit}, fun sig => by cases sig <;> decide⟩

/-! ## State -/

inductive HandlerPc where
  | printf
  | flag
  | ret
  deriving DecidableEq, Repr

/-- What `main` does next; `suspended` is inside `sigsuspend`. -/
inductive Pc where
  | sigactionInt
  | sigactionQuit
  | test
  | printLoop
  | criticalSection
  | printPending
  | sigsuspend
  | suspended
  | exited (status : Int)
  deriving DecidableEq, Repr

inductive Io where
  | caught (signo : Signo)
  | loop (loopNum : Nat)
  | sigset (msg : String) (signals : List Signo)
  | perror (message : String)
  deriving DecidableEq, Repr

structure System where
  pc : Pc
  loopNum : Nat
  gotSigquit : Bool
  kernel : Kernel Signo Unit HandlerPc
  log : List Io

/-- `fail` is a step of the process whose system call fails. -/
inductive Event where
  | arrive (sig : Signo)
  | deliver (sig : Signo)
  | proceed
  | fail
  deriving DecidableEq, Repr

def blockMask : Signo → Bool := fun _ => true

def origMask : Signo → Bool := fun _ => false

/-- Neither of the two signals queues, and both can be blocked. -/
def queues : Signo → Bool := fun _ => false

def blockable : Signo → Bool := fun _ => true

/-! ## Steps -/

variable (s : System)

def System.note (entry : Io) : System := { s with log := s.log ++ [entry] }

def signalsIn (set : Signo → Bool) : List Signo := [.sigint, .sigquit].filter set

/-- `sa`: `handler`, with no signals in `sa_mask`. -/
def sa : Action Signo := .handler fun _ => false

/-- The next step of the handler, which runs for `signo`. -/
def handler (signo : Signo) : HandlerPc → Option System
  | .printf => some { s.note (.caught signo) with kernel := s.kernel.goto .flag }
  | .flag =>
      some { s with
        gotSigquit := s.gotSigquit || signo = .sigquit
        kernel := s.kernel.goto .ret }
  | .ret => s.kernel.sigreturn.map fun kernel => { s with kernel := kernel }

def main : Option System :=
  match s.pc with
  | .sigactionInt =>
      some { s with kernel := s.kernel.sigaction .sigint sa, pc := .sigactionQuit }
  | .sigactionQuit => some { s with kernel := s.kernel.sigaction .sigquit sa, pc := .test }
  | .test =>
      if s.gotSigquit then some { s with pc := .exited 0 } else some { s with pc := .printLoop }
  | .printLoop =>
      let shown :=
        Io.sigset "Starting critical section, signal mask is:\n" (signalsIn s.kernel.mask)
      some { (s.note (.loop s.loopNum)).note shown with pc := .criticalSection }
  | .criticalSection => some { s with pc := .printPending }
  | .printPending =>
      let pending := fun sig => !(s.kernel.pending sig).isEmpty
      let shown := Io.sigset "Before sigsuspend() - pending signals:\n" (signalsIn pending)
      some { s.note shown with pc := .sigsuspend }
  | .sigsuspend => some { s with kernel := s.kernel.sigsuspend origMask, pc := .suspended }
  | .suspended =>
      match s.kernel.proceed with
      | none => none
      | some kernel =>
          -- the call returns -1 with EINTR, and only then the loop goes on
          if kernel.wait = .running then
            some { s with kernel := kernel, loopNum := s.loopNum + 1, pc := .test }
          else some { s with kernel := kernel }
  | .exited _ => none

/-- A call of `main` that fails. -/
def mainFails : Option System :=
  match s.pc with
  | .sigactionInt | .sigactionQuit =>
      some { s.note (.perror "sigaction error") with pc := .exited (-1) }
  | .sigsuspend => some { s.note (.perror "sigsuspend error") with pc := .exited (-1) }
  | _ => none

def System.ended : Bool :=
  match s.pc with
  | .exited _ => true
  | _ => s.kernel.killed.isSome

def System.step (e : Event) : Option System :=
  if s.ended then none
  else
    match e with
    | .arrive sig => some { s with kernel := s.kernel.arrive queues sig () }
    | .deliver sig =>
        (s.kernel.deliver blockable .printf sig).map fun kernel => { s with kernel := kernel }
    | .proceed =>
        match s.kernel.frames with
        | [] => main s
        | frame :: _ => handler s frame.signo frame.pc
    | .fail =>
        match s.kernel.frames with
        | [] => mainFails s
        | _ :: _ => none

/-- Both signals have just been blocked, and have their default actions. -/
def start : System where
  pc := .sigactionInt
  loopNum := 1
  gotSigquit := false
  kernel := ⟨blockMask, fun _ => [], fun _ => .terminate, [], .running, none, none⟩
  log := []

/-! ## The three phases -/

/-- The handler of the signal is installed. -/
def Pc.installed : Pc → Signo → Bool
  | .sigactionInt, _ | .exited _, _ => false
  | .sigactionQuit, sig => sig = .sigint
  | _, _ => true

/-- Between the test of `gotSigquit` and `sigsuspend`. -/
def Pc.tested : Pc → Bool
  | .printLoop | .criticalSection | .printPending | .sigsuspend => true
  | _ => false

/-- Outside `sigsuspend` both signals are blocked; in it they are not until a handler
starts, and then the handlers return to the mask that blocks them. -/
inductive Phase (s : System) : Prop
  | outside (pc : s.pc ≠ .suspended) (wait : s.kernel.wait = .running)
      (frames : s.kernel.frames = []) (restore : s.kernel.restore = none)
      (mask : s.kernel.mask = blockMask) (tested : s.pc.tested = true → s.gotSigquit = false)
  | waiting (pc : s.pc = .suspended) (wait : s.kernel.wait = .asleep ∨ s.kernel.wait = .woken)
      (frames : s.kernel.frames = []) (restore : s.kernel.restore = some blockMask)
      (mask : s.kernel.mask = origMask) (tested : s.gotSigquit = false)
  | handling (pc : s.pc = .suspended) (wait : s.kernel.wait = .interrupted)
      (restore : s.kernel.restore = none) (base : s.kernel.base = blockMask)

structure Guarded (s : System) : Prop where
  alive : s.kernel.killed = none
  formed : s.kernel.WellFormed
  installed : ∀ sig, s.pc.installed sig = true → s.kernel.action sig = sa
  phase : Phase s

section Steps

variable {s} {s' : System}

theorem guarded_start : Guarded start where
  alive := rfl
  formed := Kernel.wellFormed_running rfl rfl
  installed := nofun
  phase := .outside nofun rfl rfl rfl rfl nofun

theorem Guarded.arrive (guarded : Guarded s) (sig : Signo) :
    Guarded { s with kernel := s.kernel.arrive queues sig () } where
  alive := guarded.alive
  formed := guarded.formed.arrive queues sig ()
  installed := guarded.installed
  phase := by
    cases guarded.phase with
    | outside pc wait frames restore mask tested =>
        refine .outside pc ?_ frames restore mask tested
        simp [Kernel.arrive, wait]
    | waiting pc wait frames restore mask tested =>
        refine .waiting pc ?_ frames restore mask tested
        simp only [Kernel.arrive]
        split
        · exact Or.inr rfl
        · exact wait
    | handling pc wait restore base =>
        refine .handling pc ?_ restore base
        simp [Kernel.arrive, wait]

/-- Both signals are blocked outside `sigsuspend`. -/
theorem Guarded.suspended_of_unblocked (guarded : Guarded s) {sig : Signo}
    (unblocked : s.kernel.mask sig = false) : s.pc = .suspended := by
  cases guarded.phase with
  | outside pc wait frames restore mask =>
      rw [mask] at unblocked
      cases unblocked
  | waiting pc => exact pc
  | handling pc => exact pc

/-- A signal is delivered only inside `sigsuspend`, and there to the handler. -/
theorem Guarded.deliver (guarded : Guarded s) {sig : Signo} {kernel : Kernel Signo Unit HandlerPc}
    (delivered : s.kernel.deliver blockable .printf sig = some kernel) :
    Guarded { s with kernel := kernel } := by
  have formed := guarded.formed.deliver delivered
  have base := Kernel.base_deliver delivered
  obtain ⟨awake, unblocked, info, rest, pending, delivery⟩ := Kernel.deliver_effect delivered
  have suspended := guarded.suspended_of_unblocked unblocked
  have action : s.kernel.action sig = sa := guarded.installed sig (by rw [suspended]; rfl)
  cases delivery with
  | terminates default => cases action.symm.trans default
  | stops default => cases action.symm.trans default
  | starts handler =>
      refine ⟨guarded.alive, formed, guarded.installed, ?_⟩
      cases guarded.phase with
      | outside pc => exact absurd suspended pc
      | waiting pc wait frames restore mask tested =>
          refine .handling pc (if_pos (wait.resolve_left awake)) rfl ?_
          rw [base, Kernel.base, frames, restore]
          rfl
      | handling pc wait restore before =>
          refine .handling pc ?_ rfl (base.trans before)
          simp [wait]

/-- A handler runs only inside `sigsuspend`. -/
theorem Guarded.handling (guarded : Guarded s) (running : s.kernel.frames ≠ []) :
    s.pc = .suspended ∧ s.kernel.wait = .interrupted ∧ s.kernel.restore = none ∧
      s.kernel.base = blockMask := by
  cases guarded.phase with
  | outside pc wait frames => exact absurd frames running
  | waiting pc wait frames => exact absurd frames running
  | handling pc wait restore base => exact ⟨pc, wait, restore, base⟩

theorem Guarded.handler (guarded : Guarded s) {f : Frame Signo Unit HandlerPc}
    {fs : List (Frame Signo Unit HandlerPc)} (frames : s.kernel.frames = f :: fs)
    (ran : handler s f.signo f.pc = some s') : Guarded s' := by
  obtain ⟨pc, wait, restore, base⟩ := guarded.handling (by simp [frames])
  have goes : ∀ next got log, Guarded ⟨s.pc, s.loopNum, got, s.kernel.goto next, log⟩ := by
    intro next got log
    obtain ⟨killed, action, wait', restore'⟩ := s.kernel.goto_frame next
    obtain ⟨formed, base'⟩ := guarded.formed.goto next
    constructor
    · exact killed.trans guarded.alive
    · exact formed
    · intro sig installed
      exact (congrFun action sig).trans (guarded.installed sig installed)
    · exact .handling pc (wait'.trans wait) (restore'.trans restore) (base'.trans base)
  cases at_ : f.pc with
  | printf =>
      rw [at_] at ran
      cases ran
      exact goes _ _ _
  | flag =>
      rw [at_] at ran
      cases ran
      exact goes _ _ _
  | ret =>
      rw [at_, SigSuspend.handler, Option.map_eq_some_iff] at ran
      obtain ⟨kernel, returned, rfl⟩ := ran
      have formed := guarded.formed.sigreturn returned
      have base' := Kernel.base_sigreturn guarded.formed returned
      obtain ⟨g, gs, -, rfl⟩ := Kernel.sigreturn_eq_some.mp returned
      exact ⟨guarded.alive, formed, guarded.installed, .handling pc wait restore (base'.trans base)⟩

theorem Guarded.clear (guarded : Guarded s) (tested : s.pc.tested = true) :
    s.gotSigquit = false := by
  cases guarded.phase with
  | outside _ _ _ _ _ flag => exact flag tested
  | waiting _ _ _ _ _ flag => exact flag
  | handling pc =>
      rw [pc] at tested
      cases tested

/-- A step of `main` outside `sigsuspend` that stays outside. -/
theorem Guarded.goto (guarded : Guarded s) (away : s.pc ≠ .suspended) {pc : Pc} {log : List Io}
    (leaves : pc ≠ .suspended) (installed : ∀ sig, pc.installed sig = true →
      s.pc.installed sig = true) (tested : pc.tested = true → s.gotSigquit = false) :
    Guarded { s with pc := pc, log := log } := by
  cases guarded.phase with
  | outside _ wait frames restore mask _ =>
      refine ⟨guarded.alive, guarded.formed, ?_, .outside leaves wait frames restore mask tested⟩
      intro sig known
      exact guarded.installed sig (installed sig known)
  | waiting pc => exact absurd pc away
  | handling pc => exact absurd pc away

/-- `sigaction` for one of the two signals. -/
theorem Guarded.sigaction (guarded : Guarded s) (away : s.pc ≠ .suspended) (sig : Signo) {pc : Pc}
    (leaves : pc ≠ .suspended) (untested : pc.tested = false)
    (installed : ∀ other, pc.installed other = true →
      other = sig ∨ s.pc.installed other = true) :
    Guarded { s with kernel := s.kernel.sigaction sig sa, pc := pc } := by
  cases guarded.phase with
  | outside _ wait frames restore mask _ =>
      refine ⟨guarded.alive, ⟨guarded.formed.quiet, guarded.formed.asleep, guarded.formed.woken,
        guarded.formed.restores⟩, ?_, .outside leaves wait frames restore mask ?_⟩
      · intro other known
        by_cases same : other = sig
        · subst same
          exact Function.update_self ..
        · exact (Function.update_of_ne same ..).trans
            (guarded.installed other ((installed other known).resolve_left same))
      · intro tested
        rw [untested] at tested
        cases tested
  | waiting pc => exact absurd pc away
  | handling pc => exact absurd pc away

/-- `gotSigquit` was tested with the signals blocked, so it is still 0. -/
theorem Guarded.sigsuspend (guarded : Guarded s) (at_ : s.pc = .sigsuspend) :
    Guarded { s with kernel := s.kernel.sigsuspend origMask, pc := .suspended } := by
  cases guarded.phase with
  | outside _ wait frames restore mask tested =>
      refine ⟨guarded.alive, Kernel.WellFormed.doze frames, ?_, .waiting rfl ?_ frames ?_ rfl ?_⟩
      · intro sig _
        exact guarded.installed sig (by rw [at_]; rfl)
      · simp only [Kernel.sigsuspend, Kernel.doze]
        split
        · exact Or.inl rfl
        · exact Or.inr rfl
      · exact congrArg some mask
      · exact tested (by rw [at_]; rfl)
  | waiting pc => cases at_.symm.trans pc
  | handling pc => cases at_.symm.trans pc

/-- The process goes on inside `sigsuspend`: when the last handler has returned, both
signals are blocked again. -/
theorem Guarded.suspended (guarded : Guarded s) (at_ : s.pc = .suspended)
    (noHandler : s.kernel.frames = []) (ran : SigSuspend.main s = some s') : Guarded s' := by
  have installed := guarded.installed
  rw [at_] at installed
  simp only [SigSuspend.main, at_] at ran
  split at ran
  · cases ran
  · rename_i kernel went
    rcases Kernel.proceed_effect went with ⟨woken, rfl, asleep⟩ | ⟨interrupted, rfl⟩
    · rw [if_neg (by simp [asleep])] at ran
      cases ran
      cases guarded.phase with
      | outside pc => exact absurd at_ pc
      | waiting pc wait frames restore mask tested =>
          exact ⟨guarded.alive, Kernel.WellFormed.doze frames, installed,
            .waiting rfl (Or.inl asleep) frames restore mask tested⟩
      | handling pc wait => cases woken.symm.trans wait
    · cases ran
      cases guarded.phase with
      | outside pc => exact absurd at_ pc
      | waiting pc wait =>
          rw [interrupted] at wait
          rcases wait with wait | wait <;> cases wait
      | handling pc wait restore base =>
          have mask : s.kernel.mask = blockMask := by
            rw [← base, Kernel.base, noHandler, restore]
            rfl
          exact ⟨guarded.alive, Kernel.wellFormed_running rfl restore, installed,
            .outside (by simp) rfl noHandler restore mask (by simp [Pc.tested])⟩

theorem Guarded.main (guarded : Guarded s) (noHandler : s.kernel.frames = [])
    (ran : main s = some s') : Guarded s' := by
  cases at_ : s.pc with
  | sigactionInt =>
      simp only [SigSuspend.main, at_] at ran
      cases ran
      refine guarded.sigaction (by simp [at_]) .sigint ?_ rfl ?_
      · nofun
      · simp [Pc.installed]
  | sigactionQuit =>
      simp only [SigSuspend.main, at_] at ran
      cases ran
      refine guarded.sigaction (by simp [at_]) .sigquit ?_ rfl ?_
      · nofun
      · rintro (_ | _) _ <;> simp [Pc.installed, at_]
  | test =>
      simp only [SigSuspend.main, at_] at ran
      split at ran
      · cases ran
        exact guarded.goto (by simp [at_]) nofun nofun nofun
      · rename_i clear
        cases ran
        exact guarded.goto (by simp [at_]) nofun (by simp [at_, Pc.installed])
          fun _ => by simpa using clear
  | printLoop =>
      simp only [SigSuspend.main, at_] at ran
      cases ran
      exact guarded.goto (by simp [at_]) nofun (by simp [at_, Pc.installed])
        fun _ => guarded.clear (by rw [at_]; rfl)
  | criticalSection =>
      simp only [SigSuspend.main, at_] at ran
      cases ran
      exact guarded.goto (by simp [at_]) nofun (by simp [at_, Pc.installed])
        fun _ => guarded.clear (by rw [at_]; rfl)
  | printPending =>
      simp only [SigSuspend.main, at_] at ran
      cases ran
      exact guarded.goto (by simp [at_]) nofun (by simp [at_, Pc.installed])
        fun _ => guarded.clear (by rw [at_]; rfl)
  | sigsuspend =>
      simp only [SigSuspend.main, at_] at ran
      cases ran
      exact guarded.sigsuspend at_
  | suspended => exact guarded.suspended at_ noHandler ran
  | exited status =>
      simp only [SigSuspend.main, at_] at ran
      cases ran

theorem Guarded.mainFails (guarded : Guarded s) (failed : mainFails s = some s') :
    Guarded s' := by
  cases at_ : s.pc with
  | sigactionInt | sigactionQuit | sigsuspend =>
      simp only [SigSuspend.mainFails, at_] at failed
      cases failed
      exact guarded.goto (by simp [at_]) nofun nofun nofun
  | test | printLoop | criticalSection | printPending | suspended | exited =>
      simp only [SigSuspend.mainFails, at_] at failed
      cases failed

theorem Guarded.step (guarded : Guarded s) {e : Event} (stepped : s.step e = some s') :
    Guarded s' := by
  simp only [System.step] at stepped
  split at stepped
  · cases stepped
  · cases e with
    | arrive sig =>
        cases stepped
        exact guarded.arrive sig
    | deliver sig =>
        obtain ⟨kernel, delivered, rfl⟩ := Option.map_eq_some_iff.mp stepped
        exact guarded.deliver delivered
    | proceed =>
        cases frames : s.kernel.frames with
        | nil =>
            simp only [frames] at stepped
            exact guarded.main frames stepped
        | cons f fs =>
            simp only [frames] at stepped
            exact guarded.handler frames stepped
    | fail =>
        cases frames : s.kernel.frames with
        | nil =>
            simp only [frames] at stepped
            exact guarded.mainFails stepped
        | cons f fs =>
            simp only [frames] at stepped
            cases stepped

end Steps

/-- **No SIGQUIT is lost.**  Whenever the two signals arrive, neither is ever taken by its
default action, a handler runs only inside `sigsuspend`, and while the process sleeps
there `gotSigquit` is 0 and neither signal is pending. -/
theorem sigquit_not_lost {events : List Event} {s : System}
    (ran : run System.step start events = some s) :
    s.kernel.killed = none ∧ (s.kernel.frames ≠ [] → s.pc = .suspended) ∧
      (s.pc = .suspended → s.kernel.wait = .asleep →
        s.gotSigquit = false ∧ ∀ sig, s.kernel.pending sig = []) := by
  have guarded : Guarded s :=
    run_invariant _ Guarded (fun _ _ _ guarded stepped => guarded.step stepped) guarded_start ran
  refine ⟨guarded.alive, fun running => (guarded.handling running).1, ?_⟩
  intro suspended asleep
  cases guarded.phase with
  | outside pc => exact absurd suspended pc
  | waiting pc wait frames restore mask tested =>
      refine ⟨tested, fun sig => ?_⟩
      have quiet := guarded.formed.quiet asleep sig
      simpa [Kernel.deliverable, mask, origMask] using quiet
  | handling pc wait => cases asleep.symm.trans wait

/-- A SIGINT before the handlers are installed, handled in the first `sigsuspend`, and a
second pass down to sleep. -/
def earlyInterrupt : List Event :=
  [.arrive .sigint, .proceed, .proceed] ++ List.replicate 5 .proceed ++
    [.deliver .sigint, .proceed, .proceed, .proceed, .proceed] ++ List.replicate 5 .proceed

theorem earlyInterrupt_sleeps :
    (run System.step start earlyInterrupt).map
      (fun s => (s.pc, s.kernel.wait, s.loopNum)) = some (.suspended, .asleep, 2) := by
  decide +kernel

theorem sigquit_not_lost_early_interrupt :
    ∃ s, run System.step start earlyInterrupt = some s ∧ s.kernel.wait = .asleep ∧
      s.loopNum = 2 ∧ s.gotSigquit = false ∧ s.kernel.pending .sigquit = [] := by
  obtain ⟨s, ran, seen⟩ := Option.map_eq_some_iff.mp earlyInterrupt_sleeps
  obtain ⟨suspended, asleep, loops⟩ := by simpa using seen
  obtain ⟨-, -, clear⟩ := sigquit_not_lost ran
  obtain ⟨flag, pending⟩ := clear suspended asleep
  exact ⟨s, ran, asleep, loops, flag, pending .sigquit⟩

/-- SIGQUIT while the handler of SIGINT runs: the handlers nest, and the loop ends. -/
example :
    (run System.step start
      (List.replicate 7 Event.proceed ++ [.arrive .sigint, .deliver .sigint, .proceed,
        .arrive .sigquit, .deliver .sigquit] ++ List.replicate 7 Event.proceed)).map
      (fun s => (s.pc, s.log.drop 3)) =
        some (.exited 0, [.caught .sigint, .caught .sigquit]) := by
  decide +kernel

end UnixDemos.Signal.SigSuspend
