/-
# Signal.SigJump — sigjump.c: out of a handler with siglongjmp

`main` prints its signal mask, catches SIGINT, calls `sigsetjmp` and then waits in `pause`
for ever.  The handler prints the mask and jumps back to `sigsetjmp`, or returns if `canJump`
is not set yet.  The jump leaves the handler without returning from it, so it is
`siglongjmp` that has to unblock SIGINT again.

`env` is the mask that `sigsetjmp` saved; a jump without it would be `undefined`.  `jumps`
counts the jumps, and `skipped` those that another jump followed before `main` had printed
anything.  Signals other than SIGINT have the disposition the program was started with, and
`print_sigmask` is one entry of the log with its message and the set.
-/
import UnixDemos.Signal.Pending

namespace UnixDemos.Signal.SigJump

open UnixDemos.Library
open RtSigRecv (Signo sigint queues blockable)
open Pending (next discards)

set_option autoImplicit false

/-! ## State -/

/-- The mask the program inherits, and the signals that end it. -/
structure Config where
  mask : Signo → Bool
  ends : Signo → Bool

inductive HandlerPc where
  | printf
  | printMask
  | test
  | simple
  | ret
  | jump
  deriving DecidableEq, Repr

/-- What `main` does next; `afterJump` is where `sigsetjmp` returns 1. -/
inductive Pc where
  | printMask
  | sigaction
  | sigsetjmp
  | setCanJump
  | afterJump
  | pause
  | pausing
  | exited (status : Int)
  deriving DecidableEq, Repr

def Pc.status : Pc → Option Int
  | .exited status => some status
  | _ => none

inductive Io where
  | received (signo : Signo)
  | sigmask (msg : Option String) (set : Signo → Bool)
  | notSet
  | perror (message : String)

structure System where
  pc : Pc
  canJump : Bool
  env : Option (Signo → Bool)
  kernel : Kernel Signo Unit HandlerPc
  log : List Io
  jumps : Nat
  skipped : Nat
  undefined : Bool

inductive Event where
  | arrive (sig : Signo)
  | deliver (sig : Signo)
  | proceed
  | fail
  deriving DecidableEq, Repr

/-! ## Steps -/

section Steps

variable (cfg : Config) (s : System)

def System.note (entry : Io) : System := { s with log := s.log ++ [entry] }

/-- `sa`: `sig_handler`, with no signals in `sa_mask`. -/
def sa : Action Signo := .handler fun _ => false

def afterJumpMsg : String := "After jump from handler, signal mask is:\n"

/-- The next step of `sig_handler`. -/
def sigHandler (signo : Signo) : HandlerPc → Option System
  | .printf => some { s.note (.received signo) with kernel := s.kernel.goto .printMask }
  | .printMask =>
      some { s.note (.sigmask none s.kernel.mask) with kernel := s.kernel.goto .test }
  | .test =>
      if s.canJump then some { s with kernel := s.kernel.goto .jump }
      else some { s with kernel := s.kernel.goto .simple }
  | .simple => some { s.note .notSet with kernel := s.kernel.goto .ret }
  | .ret => s.kernel.sigreturn.map fun kernel => { s with kernel := kernel }
  | .jump =>
      match s.env with
      | none => some { s with undefined := true }
      | some mask =>
          some { s with
            kernel := s.kernel.siglongjmp mask
            pc := .afterJump
            jumps := s.jumps + 1
            skipped := if s.pc = .afterJump then s.skipped + 1 else s.skipped }

def main : Option System :=
  match s.pc with
  | .printMask => some { s.note (.sigmask none s.kernel.mask) with pc := .sigaction }
  | .sigaction => some { s with kernel := s.kernel.sigaction sigint sa, pc := .sigsetjmp }
  | .sigsetjmp => some { s with env := some s.kernel.mask, pc := .setCanJump }
  | .setCanJump => some { s with canJump := true, pc := .pause }
  | .afterJump =>
      some { s.note (.sigmask (some afterJumpMsg) s.kernel.mask) with pc := .pause }
  | .pause => some { s with kernel := s.kernel.doze, pc := .pausing }
  | .pausing =>
      match s.kernel.proceed with
      | none => none
      | some kernel =>
          if kernel.wait = .running then some { s with kernel := kernel, pc := .pause }
          else some { s with kernel := kernel }
  | .exited _ => none

/-- A call of `main` that fails. -/
def mainFails : Option System :=
  match s.pc with
  | .sigaction => some { s.note (.perror "sigaction error") with pc := .exited (-1) }
  | _ => none

def System.ended : Bool := s.kernel.ended s.pc.status

def System.step (e : Event) : Option System :=
  if s.ended = true ∨ s.undefined = true then none
  else
    match e with
    | .arrive sig =>
        if sig.val = 0 then none
        else some { s with kernel := (s.kernel.discard (discards sig)).arrive queues sig () }
    | .deliver sig =>
        (s.kernel.deliver blockable .printf sig).map fun kernel => { s with kernel := kernel }
    | .proceed =>
        match s.kernel.frames with
        | [] => main s
        | frame :: _ => sigHandler s frame.signo frame.pc
    | .fail =>
        match s.kernel.frames with
        | [] => mainFails s
        | _ :: _ => none

def Config.inherited (sig : Signo) : Bool := cfg.mask sig && blockable sig

def Config.initial (sig : Signo) : Action Signo := if cfg.ends sig then .terminate else .stop

def start : System where
  pc := .printMask
  canJump := false
  env := none
  kernel := ⟨cfg.inherited, fun _ => [], cfg.initial, [], .running, none, none⟩
  log := []
  jumps := 0
  skipped := 0
  undefined := false

end Steps

/-! ## What every step keeps -/

/-- The handler is installed. -/
def Pc.catches : Pc → Bool
  | .printMask | .sigaction | .exited _ => false
  | _ => true

/-- The handler has printed its signal and not yet left. -/
def HandlerPc.inside : HandlerPc → Bool
  | .printf | .ret => false
  | _ => true

def Io.isReceived : Io → Bool
  | .received _ => true
  | _ => false

def Io.isNotSet : Io → Bool
  | .notSet => true
  | _ => false

def Io.isAfterJump : Io → Bool
  | .sigmask (some _) _ => true
  | _ => false

def System.received (s : System) : Nat := s.log.countP Io.isReceived

structure Good (cfg : Config) (s : System) : Prop where
  formed : s.kernel.WellFormed
  restore : s.kernel.restore = none
  waits : s.pc ≠ .pausing → s.kernel.wait = .running
  single : s.kernel.frames.length ≤ 1
  frame : ∀ frame ∈ s.kernel.frames, frame.signo = sigint ∧ frame.saved = cfg.inherited
  mask : s.kernel.mask = fun sig =>
    cfg.inherited sig || (!s.kernel.frames.isEmpty && sig = sigint)
  action : s.kernel.action = fun sig =>
    if sig = sigint ∧ s.pc.catches = true then sa else cfg.initial sig
  env : ∀ mask, s.env = some mask → mask = cfg.inherited
  canJump : s.canJump = true ∨ s.pc = .setCanJump → s.env ≠ none
  jumping : ∀ frame ∈ s.kernel.frames, frame.pc = .jump → s.canJump = true
  catching : s.kernel.frames ≠ [] ∨ s.canJump = true → s.pc.catches = true
  defined : s.undefined = false
  shown : ∀ msg set, .sigmask msg set ∈ s.log →
    (msg = none ∨ msg = some afterJumpMsg) ∧ set = cfg.inherited ∨
      msg = none ∧ set = fun sig => cfg.inherited sig || decide (sig = sigint)
  handled : s.received = s.log.countP Io.isNotSet + s.jumps +
    s.kernel.frames.countP fun frame => frame.pc.inside
  after : s.log.countP Io.isAfterJump + s.skipped + (if s.pc = .afterJump then 1 else 0) = s.jumps

section Kept

variable {cfg : Config} {s s' : System}

theorem start_good (cfg : Config) : Good cfg (start cfg) where
  formed := Kernel.wellFormed_running rfl rfl
  restore := rfl
  waits _ := rfl
  single := Nat.zero_le 1
  frame frame runs := absurd runs List.not_mem_nil
  mask := by simp [start]
  action := by simp [start, Pc.catches]
  env mask set := by cases set
  canJump set := by simp [start] at set
  jumping frame runs := absurd runs List.not_mem_nil
  catching busy := by simp [start] at busy
  defined := rfl
  shown msg set shown := absurd shown List.not_mem_nil
  handled := rfl
  after := rfl

theorem Good.arrive (good : Good cfg s) (sig : Signo) :
    Good cfg { s with kernel := (s.kernel.discard (discards sig)).arrive queues sig () } :=
  { good with
    formed := (good.formed.discard _).arrive queues sig ()
    waits := fun other => by simp [Kernel.arrive, Kernel.discard, good.waits other] }

/-! ### Delivery -/

theorem Good.mask_sigint (good : Good cfg s) (unblocked : s.kernel.mask sigint = false) :
    s.kernel.frames = [] ∧ s.kernel.mask = cfg.inherited := by
  have idle : s.kernel.frames = [] := by
    rw [good.mask] at unblocked
    simpa using (Bool.or_eq_false_iff.mp unblocked).2
  refine ⟨idle, good.mask.trans ?_⟩
  simp [idle]

theorem Good.deliver (good : Good cfg s) {sig : Signo} {kernel : Kernel Signo Unit HandlerPc}
    (delivered : s.kernel.deliver blockable .printf sig = some kernel) :
    Good cfg { s with kernel := kernel } := by
  have formed := good.formed.deliver delivered
  obtain ⟨-, unblocked, info, rest, -, delivery⟩ := Kernel.deliver_effect delivered
  cases delivery with
  | terminates action => exact { good with formed := formed }
  | stops action => exact { good with formed := formed }
  | @starts saMask action =>
      have caught : sig = sigint ∧ s.pc.catches = true ∧ saMask = fun _ => false := by
        rw [good.action] at action
        dsimp only at action
        split at action
        · rename_i caught
          cases action
          exact ⟨caught.1, caught.2, rfl⟩
        · simp only [Config.initial] at action
          split at action <;> cases action
      obtain ⟨rfl, catches, rfl⟩ := caught
      obtain ⟨idle, inherited⟩ := good.mask_sigint unblocked
      have able : blockable sigint = true := by decide
      refine { good with
        formed := formed
        restore := rfl
        waits := fun other => by simp [good.waits other]
        single := by simp [idle]
        frame := fun frame runs => ?_
        mask := ?_
        jumping := fun frame runs jumps => ?_
        catching := fun _ => catches
        handled := ?_ }
      · rw [idle] at runs
        rw [List.mem_singleton.mp runs, good.restore]
        exact ⟨rfl, inherited⟩
      · funext other
        by_cases same : other = sigint
        · subst same
          simp [able]
        · simp [same, inherited]
      · rw [idle] at runs
        rw [List.mem_singleton.mp runs] at jumps
        cases jumps
      · rw [List.countP_cons_of_neg (by simp [HandlerPc.inside])]
        exact good.handled

/-! ### The handler -/

theorem Good.frames_eq (good : Good cfg s) {frame : Frame Signo Unit HandlerPc}
    {frames : List (Frame Signo Unit HandlerPc)} (runs : s.kernel.frames = frame :: frames) :
    s.kernel.frames = [frame] := by
  have single := good.single
  rw [runs, List.length_cons] at single
  have none : frames = [] := List.length_eq_zero_iff.mp (by omega)
  rw [runs, none]

/-- The handler goes on, and prints `entries`. -/
theorem Good.goes (good : Good cfg s) {frame : Frame Signo Unit HandlerPc}
    (runs : s.kernel.frames = [frame]) {pc : HandlerPc} {entries : List Io}
    (jumps : pc = .jump → s.canJump = true)
    (shown : ∀ msg set, .sigmask msg set ∈ entries → msg = none ∧ set = s.kernel.mask)
    (handled : entries.countP Io.isReceived + (if frame.pc.inside then 1 else 0) =
      entries.countP Io.isNotSet + if pc.inside then 1 else 0) :
    Good cfg { s with log := s.log ++ entries, kernel := s.kernel.goto pc } := by
  have formed := (good.formed.goto pc).1
  have own := good.frame frame (runs ▸ List.mem_singleton_self frame)
  have mask := good.mask
  simp only [runs, List.isEmpty_cons, Bool.not_false, Bool.true_and] at mask
  rw [Kernel.goto_eq runs] at formed ⊢
  refine { good with
    formed := formed
    single := Nat.le_refl 1
    frame := fun other member => ?_
    mask := ?_
    jumping := fun other member here => ?_
    catching := fun _ => good.catching (Or.inl (by simp [runs]))
    shown := fun msg set entry => ?_
    handled := ?_
    after := ?_ }
  · rw [List.mem_singleton.mp member]
    exact own
  · simpa using mask
  · rw [List.mem_singleton.mp member] at here
    exact jumps here
  · rcases List.mem_append.mp entry with before | now
    · exact good.shown msg set before
    · obtain ⟨rfl, rfl⟩ := shown msg set now
      exact Or.inr ⟨rfl, mask⟩
  · have before := good.handled
    rw [runs] at before
    simp only [System.received, List.countP_append, List.countP_singleton] at before ⊢
    omega
  · have silent : entries.countP Io.isAfterJump = 0 := by
      rw [List.countP_eq_zero]
      intro entry member after
      cases entry with
      | sigmask msg set =>
          obtain ⟨rfl, -⟩ := shown msg set member
          cases after
      | received | notSet | perror => cases after
    rw [List.countP_append, silent]
    exact good.after

/-- The handler returns. -/
theorem Good.returns (good : Good cfg s) {frame : Frame Signo Unit HandlerPc}
    (runs : s.kernel.frames = [frame]) (pc : frame.pc = .ret)
    {kernel : Kernel Signo Unit HandlerPc} (returned : s.kernel.sigreturn = some kernel) :
    Good cfg { s with kernel := kernel } := by
  have formed := good.formed.sigreturn returned
  obtain ⟨top, rest, runs', rfl⟩ := Kernel.sigreturn_eq_some.mp returned
  obtain ⟨rfl, rfl⟩ := List.cons.inj (runs'.symm.trans runs)
  have own := good.frame top (runs ▸ List.mem_singleton_self top)
  refine { good with
    formed := formed
    single := Nat.zero_le 1
    frame := fun other member => absurd member List.not_mem_nil
    mask := own.2.trans (by simp)
    jumping := fun other member => absurd member List.not_mem_nil
    catching := fun busy => good.catching (Or.inr (busy.resolve_left (by simp)))
    handled := ?_ }
  have before := good.handled
  rw [runs] at before
  simpa [System.received, pc, HandlerPc.inside] using before

/-- The handler jumps, and the mask is again the one that `main` had. -/
theorem Good.jumps (good : Good cfg s) {frame : Frame Signo Unit HandlerPc}
    (runs : s.kernel.frames = [frame]) (pc : frame.pc = .jump) {mask : Signo → Bool}
    (env : s.env = some mask) :
    Good cfg { s with
      kernel := s.kernel.siglongjmp mask
      pc := .afterJump
      jumps := s.jumps + 1
      skipped := if s.pc = .afterJump then s.skipped + 1 else s.skipped } := by
  have catches := good.catching (Or.inl (by simp [runs]))
  refine { good with
    formed := Kernel.wellFormed_running rfl rfl
    restore := rfl
    waits := fun _ => rfl
    single := Nat.zero_le 1
    frame := fun other member => absurd member List.not_mem_nil
    mask := ?_
    action := ?_
    canJump := fun _ => by simp [env]
    jumping := fun other member => absurd member List.not_mem_nil
    catching := fun _ => rfl
    handled := ?_
    after := ?_ }
  · simp [Kernel.siglongjmp, good.env mask env]
  · have before := good.action
    rw [catches] at before
    exact before
  · have before := good.handled
    rw [runs] at before
    simp only [System.received, Kernel.siglongjmp, List.countP_singleton, pc, HandlerPc.inside,
      if_true, List.countP_nil] at before ⊢
    omega
  · have before := good.after
    dsimp only
    rw [if_pos rfl]
    by_cases again : s.pc = .afterJump
    · rw [if_pos again] at before ⊢
      omega
    · rw [if_neg again] at before ⊢
      omega

theorem Good.sigHandler (good : Good cfg s) {frame : Frame Signo Unit HandlerPc}
    {frames : List (Frame Signo Unit HandlerPc)} (runs : s.kernel.frames = frame :: frames)
    (went : sigHandler s frame.signo frame.pc = some s') : Good cfg s' := by
  have alone := good.frames_eq runs
  have member : frame ∈ s.kernel.frames := runs ▸ List.mem_cons_self
  cases pc : frame.pc with
  | printf | printMask | simple =>
      rw [pc] at went
      cases went
      exact good.goes alone (by simp) (by simp)
        (by simp [pc, HandlerPc.inside, Io.isReceived, Io.isNotSet])
  | test =>
      rw [pc, SigJump.sigHandler] at went
      split at went
      · rename_i set
        cases went
        have goes : Good cfg { s with log := s.log ++ [], kernel := s.kernel.goto .jump } :=
          good.goes alone (fun _ => set) (by simp) (by simp [pc, HandlerPc.inside])
        rwa [List.append_nil] at goes
      · cases went
        have goes : Good cfg { s with log := s.log ++ [], kernel := s.kernel.goto .simple } :=
          good.goes alone (by simp) (by simp) (by simp [pc, HandlerPc.inside])
        rwa [List.append_nil] at goes
  | ret =>
      rw [pc, SigJump.sigHandler, Option.map_eq_some_iff] at went
      obtain ⟨kernel, returned, rfl⟩ := went
      exact good.returns alone pc returned
  | jump =>
      rw [pc, SigJump.sigHandler] at went
      split at went
      · rename_i unset
        exact absurd unset (good.canJump (Or.inl (good.jumping frame member pc)))
      · rename_i mask env
        cases went
        exact good.jumps alone pc env

/-! ### The main program -/

theorem Good.idle_mask (good : Good cfg s) (idle : s.kernel.frames = []) :
    s.kernel.mask = cfg.inherited := by
  rw [good.mask]
  simp [idle]

/-- `main` goes on, and prints its mask or nothing. -/
theorem Good.moves (good : Good cfg s) {pc : Pc} {entries : List Io}
    {env : Option (Signo → Bool)} {canJump : Bool}
    (waits : s.pc ≠ .pausing) (catches : pc.catches = s.pc.catches)
    (saved : ∀ mask, env = some mask → mask = cfg.inherited)
    (set : canJump = true ∨ pc = .setCanJump → env ≠ none)
    (jumps : s.canJump = true → canJump = true) (caught : canJump = true → pc.catches = true)
    (shown : ∀ entry ∈ entries, ∃ msg, (msg = none ∨ msg = some afterJumpMsg) ∧
      entry = .sigmask msg cfg.inherited)
    (after : entries.countP Io.isAfterJump + (if pc = .afterJump then 1 else 0) =
      if s.pc = .afterJump then 1 else 0) :
    Good cfg { s with log := s.log ++ entries, pc := pc, env := env, canJump := canJump } := by
  have silent {p : Io → Bool} (other : ∀ msg set, p (.sigmask msg set) = false) :
      entries.countP p = 0 := by
    rw [List.countP_eq_zero]
    intro entry member holds
    obtain ⟨msg, -, rfl⟩ := shown entry member
    rw [other] at holds
    cases holds
  refine { good with
    waits := fun _ => good.waits waits
    action := by rw [catches]; exact good.action
    env := saved
    canJump := set
    jumping := fun frame runs pc => jumps (good.jumping frame runs pc)
    catching := fun busy =>
      busy.elim (fun runs => catches.trans (good.catching (Or.inl runs))) caught
    shown := fun msg set entry => ?_
    handled := ?_
    after := ?_ }
  · rcases List.mem_append.mp entry with before | now
    · exact good.shown msg set before
    · obtain ⟨msg', which, same⟩ := shown _ now
      cases same
      exact Or.inl ⟨which, rfl⟩
  · have before := good.handled
    simp only [System.received, List.countP_append] at before ⊢
    rw [silent fun _ _ => rfl, silent fun _ _ => rfl]
    exact before
  · have before := good.after
    rw [List.countP_append]
    dsimp only
    omega

/-- A call of `main` that only changes where it waits. -/
theorem Good.rests (good : Good cfg s) {pc : Pc} {wait : Wait}
    (formed : { s.kernel with wait := wait }.WellFormed)
    (waits : pc ≠ .pausing → wait = .running) (catches : pc.catches = s.pc.catches)
    (other : pc ≠ .setCanJump) (after : s.pc ≠ .afterJump ∧ pc ≠ .afterJump) :
    Good cfg { s with kernel := { s.kernel with wait := wait }, pc := pc } :=
  { good with
    formed := formed
    waits := waits
    action := by rw [catches]; exact good.action
    canJump := fun set => good.canJump (Or.inl (set.resolve_right other))
    catching := fun busy => catches.trans (good.catching busy)
    after := by
      have before := good.after
      rw [if_neg after.1] at before
      rw [if_neg after.2]
      exact before }

/-- `main` prints its mask, or goes on to the next call. -/
theorem Good.passes (good : Good cfg s) {pc : Pc} {entries : List Io} (waits : s.pc ≠ .pausing)
    (catches : pc.catches = s.pc.catches) (other : pc ≠ .setCanJump)
    (shown : ∀ entry ∈ entries, ∃ msg, (msg = none ∨ msg = some afterJumpMsg) ∧
      entry = .sigmask msg cfg.inherited)
    (after : entries.countP Io.isAfterJump + (if pc = .afterJump then 1 else 0) =
      if s.pc = .afterJump then 1 else 0) :
    Good cfg { s with log := s.log ++ entries, pc := pc } :=
  good.moves waits catches good.env
    (fun set => good.canJump (Or.inl (set.resolve_right other))) id
    (fun set => catches.trans (good.catching (Or.inr set))) shown after

theorem Good.main (good : Good cfg s) (idle : s.kernel.frames = [])
    (went : main s = some s') : Good cfg s' := by
  have mask := good.idle_mask idle
  unfold SigJump.main at went
  cases here : s.pc with
  | printMask | afterJump =>
      rw [here] at went
      cases went
      exact good.passes (by simp [here]) (by rw [here]; rfl) (by simp) (by simp [mask])
        (by simp [here, Io.isAfterJump])
  | sigaction =>
      rw [here] at went
      cases went
      refine { good with
        formed := Kernel.wellFormed_running (good.waits (by simp [here])) good.restore
        waits := fun _ => good.waits (by simp [here])
        action := ?_
        canJump := fun set => good.canJump (Or.inl (set.resolve_right (by simp)))
        catching := fun _ => rfl
        after := by simpa [here] using good.after }
      funext sig
      have before := congrFun good.action sig
      rw [here] at before
      by_cases same : sig = sigint
      · subst same
        simp [Kernel.sigaction, Pc.catches]
      · simpa [Kernel.sigaction, same] using before
  | sigsetjmp =>
      rw [here] at went
      cases went
      have moves : Good cfg { s with
          log := s.log ++ [], pc := .setCanJump, env := some s.kernel.mask } :=
        good.moves (by simp [here]) (by rw [here]; rfl)
          (fun mask' saved => by cases saved; exact mask) (by simp) id (fun _ => rfl) (by simp)
          (by simp [here])
      rwa [List.append_nil] at moves
  | setCanJump =>
      rw [here] at went
      cases went
      have moves : Good cfg { s with log := s.log ++ [], pc := .pause, canJump := true } :=
        good.moves (by simp [here]) (by rw [here]; rfl) good.env
          (fun _ => good.canJump (Or.inr here)) (fun _ => rfl) (fun _ => rfl) (by simp)
          (by simp [here])
      rwa [List.append_nil] at moves
  | pause =>
      rw [here] at went
      cases went
      exact good.rests (Kernel.WellFormed.doze idle) (by simp) (by rw [here]; rfl) (by simp)
        (by simp [here])
  | pausing =>
      rw [here] at went
      dsimp only at went
      split at went
      · cases went
      · rename_i kernel proceeded
        rcases Kernel.proceed_effect proceeded with ⟨-, rfl, asleep⟩ | ⟨-, rfl⟩
        · -- a wakeup without a handler: back to sleep
          rw [if_neg (by simp [asleep])] at went
          cases went
          exact good.rests (Kernel.WellFormed.doze idle) (by simp) (by rw [here]) (by simp)
            (by simp [here])
        · rw [if_pos rfl] at went
          cases went
          exact good.rests (Kernel.wellFormed_running rfl good.restore) (fun _ => rfl)
            (by rw [here]; rfl) (by simp) (by simp [here])
  | exited status =>
      rw [here] at went
      cases went

theorem Good.mainFails (good : Good cfg s) (failed : mainFails s = some s') : Good cfg s' := by
  unfold SigJump.mainFails at failed
  split at failed
  · rename_i here
    cases failed
    have before := good.action
    rw [here] at before
    refine { good with
      waits := fun _ => good.waits (by simp [here])
      action := before
      canJump := fun set => good.canJump (Or.inl (set.resolve_right (by simp)))
      catching := fun busy => ?_
      shown := fun msg set shown => good.shown msg set (by simpa [System.note] using shown)
      handled := by
        simpa [System.note, System.received, Io.isReceived, Io.isNotSet] using good.handled
      after := by simpa [System.note, here, Io.isAfterJump] using good.after }
    have caught := good.catching busy
    rwa [here] at caught
  · cases failed

theorem Good.step (good : Good cfg s) {e : Event} (stepped : s.step e = some s') :
    Good cfg s' := by
  unfold System.step at stepped
  split at stepped
  · cases stepped
  · cases e with
    | arrive sig =>
        dsimp only at stepped
        split at stepped
        · cases stepped
        · cases stepped
          exact good.arrive sig
    | deliver sig =>
        obtain ⟨kernel, delivered, rfl⟩ := Option.map_eq_some_iff.mp stepped
        exact good.deliver delivered
    | proceed =>
        dsimp only at stepped
        split at stepped
        · rename_i idle
          exact good.main idle stepped
        · rename_i runs
          exact good.sigHandler runs stepped
    | fail =>
        dsimp only at stepped
        split at stepped
        · exact good.mainFails stepped
        · cases stepped

/-! ## SIGINT can always be received again -/

/-- Only SIGINT is sent, no call fails, and the program goes on only if there is nothing to
deliver. -/
def Prompt (s : System) : Event → Prop
  | .arrive sig => sig = sigint
  | .deliver sig => next s.kernel.deliverable = some sig
  | .proceed => next s.kernel.deliverable = none
  | .fail => False

instance decidablePrompt (s : System) : ∀ e, Decidable (Prompt s e)
  | .arrive _ => inferInstanceAs (Decidable (_ = _))
  | .deliver _ => inferInstanceAs (Decidable (_ = _))
  | .proceed => inferInstanceAs (Decidable (_ = _))
  | .fail => isFalse id

/-- What is pending is blocked by `main`, or is a SIGINT for the handler. -/
def System.Safe (cfg : Config) (s : System) : Prop :=
  ∀ sig, s.kernel.pending sig ≠ [] →
    cfg.inherited sig = true ∨ sig = sigint ∧ s.pc.catches = true

/-- The process goes on from `s` to `t`, and has received no less. -/
structure Later (cfg : Config) (s t : System) : Prop where
  good : Good cfg t
  running : t.ended = false
  safe : t.Safe cfg
  received : s.received ≤ t.received

theorem Later.trans {t u : System} (first : Later cfg s t) (second : Later cfg t u) :
    Later cfg s u :=
  ⟨second.good, second.running, second.safe, first.received.trans second.received⟩

theorem System.received_note (s : System) (entry : Io) :
    (s.note entry).received = s.received + if entry.isReceived then 1 else 0 := by
  simp [System.received, System.note, List.countP_append, List.countP_singleton]

theorem System.received_le_note (s : System) (entry : Io) :
    s.received ≤ (s.note entry).received :=
  (Nat.le_add_right _ _).trans_eq (s.received_note entry).symm

/-- Only a SIGINT for the handler can be delivered, and only outside of it. -/
theorem Later.deliverable {t : System} (later : Later cfg s t) {sig : Signo}
    (ready : t.kernel.deliverable sig = true) :
    sig = sigint ∧ t.pc.catches = true ∧ t.kernel.frames = [] := by
  obtain ⟨nonempty, unblocked⟩ := Bool.and_eq_true_iff.mp ready
  rw [Bool.not_eq_true', later.good.mask, Bool.or_eq_false_iff] at unblocked
  obtain ⟨rfl, catches⟩ := (later.safe sig (by simpa using nonempty)).resolve_left
    (by simp [unblocked.1])
  exact ⟨rfl, catches, by simpa using unblocked.2⟩

theorem Later.quiet {t : System} (later : Later cfg s t)
    (nothing : t.kernel.frames ≠ [] ∨ t.pc.catches = false ∨ t.kernel.pending sigint = []) :
    next t.kernel.deliverable = none := by
  refine Pending.next_eq_none.mpr fun sig => Bool.eq_false_iff.mpr fun ready => ?_
  obtain ⟨rfl, catches, idle⟩ := later.deliverable ready
  rcases nothing with busy | uncaught | empty
  · exact busy idle
  · rw [catches] at uncaught
    cases uncaught
  · simp [Kernel.deliverable, empty] at ready

/-- A step of the program, where there is nothing to deliver. -/
theorem Later.proceeds {t : System} (later : Later cfg s t)
    (nothing : t.kernel.frames ≠ [] ∨ t.pc.catches = false ∨ t.kernel.pending sigint = []) :
    restrict System.step Prompt t .proceed = match t.kernel.frames with
      | [] => main t
      | frame :: _ => sigHandler t frame.signo frame.pc := by
  rw [restrict, if_pos (show Prompt t .proceed from later.quiet nothing), System.step,
    if_neg (by simp [later.running, later.good.defined])]

/-- The steps the handler has to make until it is left. -/
def HandlerPc.left : HandlerPc → Nat
  | .printf => 5
  | .printMask => 4
  | .test => 3
  | .simple => 2
  | .ret | .jump => 1

/-- The steps of `main` until the handler is installed. -/
def Pc.left : Pc → Nat
  | .printMask => 2
  | .sigaction => 1
  | _ => 0

def System.left (s : System) : Nat := s.kernel.handling HandlerPc.left + s.pc.left

/-- What a step brings nearer. -/
structure Nearer (s t : System) : Prop where
  pending : t.kernel.pending = s.kernel.pending
  killed : t.kernel.killed = s.kernel.killed
  runs : t.pc.status = none
  catches : s.pc.catches = true → t.pc.catches = true
  received : s.received ≤ t.received
  left : t.left < s.left

theorem Later.nearer {t u : System} (later : Later cfg s t) {e : Event}
    (stepped : restrict System.step Prompt t e = some u) (nearer : Nearer t u) :
    Later cfg s u := by
  have alive := (Kernel.ended_eq_false.mp later.running).2
  refine ⟨later.good.step (restrict_eq_some.mp stepped).2, ?_, fun sig pending => ?_,
    later.received.trans nearer.received⟩
  · exact Kernel.ended_eq_false.mpr ⟨nearer.runs, nearer.killed.trans alive⟩
  · rw [nearer.pending] at pending
    exact (later.safe sig pending).imp_right fun ⟨own, catches⟩ => ⟨own, nearer.catches catches⟩

theorem handler_advances (good : Good cfg s) (running : s.ended = false)
    {frame : Frame Signo Unit HandlerPc} {frames : List (Frame Signo Unit HandlerPc)}
    (runs : s.kernel.frames = frame :: frames) :
    ∃ t, sigHandler s frame.signo frame.pc = some t ∧ Nearer s t := by
  have member : frame ∈ s.kernel.frames := runs ▸ List.mem_cons_self
  have here := (Kernel.ended_eq_false.mp running).1
  have goes {pc : HandlerPc} {log : List Io} (less : pc.left < frame.pc.left)
      (more : s.received ≤ log.countP Io.isReceived) :
      ∃ t, some { s with log := log, kernel := s.kernel.goto pc } = some t ∧ Nearer s t := by
    have left := @Kernel.handling_goto _ _ _ _ HandlerPc.left _ _ runs pc
    refine ⟨_, rfl, ?_, ?_, here, id, more, ?_⟩
    · rw [Kernel.goto_eq runs]
    · rw [Kernel.goto_eq runs]
    · simp only [System.left]
      omega
  cases pc : frame.pc with
  | printf | printMask | simple =>
      exact goes (by simp [pc, HandlerPc.left]) (s.received_le_note _)
  | test =>
      rw [sigHandler]
      split <;> exact goes (by simp [pc, HandlerPc.left]) (Nat.le_refl _)
  | ret =>
      refine ⟨{ s with kernel := { s.kernel with frames := frames, mask := frame.saved } }, ?_,
        rfl, rfl, here, id, Nat.le_refl _, ?_⟩
      · rw [sigHandler, Kernel.sigreturn, runs]
        rfl
      · have left := @Kernel.handling_of_frames _ _ _ _
          { s.kernel with frames := frames, mask := frame.saved } HandlerPc.left _ _ runs rfl
        rw [pc, HandlerPc.left] at left
        exact Nat.add_lt_add_right (Nat.lt_of_succ_le left.le) _
  | jump =>
      obtain ⟨mask, env⟩ := Option.ne_none_iff_exists'.mp
        (good.canJump (Or.inl (good.jumping frame member pc)))
      refine ⟨_, by rw [sigHandler, env], ?_⟩
      refine ⟨rfl, rfl, rfl, fun _ => rfl, Nat.le_refl _, ?_⟩
      have busy : 0 < s.kernel.handling HandlerPc.left := by
        simp only [Kernel.handling, runs, List.map_cons, List.sum_cons, pc, HandlerPc.left]
        omega
      have nothing : (s.kernel.siglongjmp mask).handling HandlerPc.left = 0 := rfl
      simp only [System.left, Pc.left, nothing]
      omega

/-- `main` installs the handler. -/
theorem main_advances (running : s.ended = false) (early : s.pc.catches = false) :
    ∃ t, main s = some t ∧ Nearer s t := by
  have here := (Kernel.ended_eq_false.mp running).1
  cases pc : s.pc with
  | printMask =>
      refine ⟨_, by rw [main, pc], ?_⟩
      refine ⟨rfl, rfl, rfl, ?_, s.received_le_note _, ?_⟩
      · simp [pc, Pc.catches]
      · simp [System.left, System.note, pc, Pc.left]
  | sigaction =>
      refine ⟨_, by rw [main, pc], ?_⟩
      refine ⟨rfl, rfl, rfl, fun _ => rfl, Nat.le_refl _, ?_⟩
      simp [System.left, Kernel.handling, Kernel.sigaction, pc, Pc.left]
  | exited status =>
      rw [pc] at here
      cases here
  | sigsetjmp | setCanJump | afterJump | pause | pausing =>
      rw [pc] at early
      cases early

/-- The handler can be left, and `main` can come to catch SIGINT. -/
theorem Later.leaves {t : System} (later : Later cfg s t) :
    Leads (restrict System.step Prompt) t fun u =>
      Later cfg s u ∧ u.kernel.frames = [] ∧ u.pc.catches = true := by
  refine leads_of_descent _ System.left (fun u later more => ?_) later
  cases runs : u.kernel.frames with
  | cons frame frames =>
      obtain ⟨v, went, nearer⟩ := handler_advances later.good later.running runs
      have stepped : restrict System.step Prompt u .proceed = some v := by
        rw [later.proceeds (Or.inl (by simp [runs])), runs]
        exact went
      exact ⟨.proceed, v, stepped, later.nearer stepped nearer, nearer.left⟩
  | nil =>
      have early : u.pc.catches = false := Bool.eq_false_iff.mpr fun catches => more ⟨runs, catches⟩
      obtain ⟨v, went, nearer⟩ := main_advances later.running early
      have stepped : restrict System.step Prompt u .proceed = some v := by
        rw [later.proceeds (Or.inr (Or.inl early)), runs]
        exact went
      exact ⟨.proceed, v, stepped, later.nearer stepped nearer, nearer.left⟩

/-- Outside of the handler a SIGINT that is pending is delivered, and the handler prints it. -/
theorem Later.receives_pending {t : System} (later : Later cfg s t) (idle : t.kernel.frames = [])
    (catches : t.pc.catches = true) (unmasked : cfg.mask sigint = false) {rest : List Unit}
    (pending : t.kernel.pending sigint = () :: rest) :
    Leads (restrict System.step Prompt) t fun u => Later cfg s u ∧ t.received < u.received := by
  have good := later.good
  have unblocked : t.kernel.mask sigint = false := by
    rw [good.idle_mask idle]
    simp [Config.inherited, unmasked]
  have awake : t.kernel.wait ≠ .asleep := fun asleep => by
    have quiet := good.formed.quiet asleep sigint
    simp [Kernel.deliverable, pending, unblocked] at quiet
  have action : t.kernel.action sigint = .handler fun _ => false := by
    rw [good.action]
    exact if_pos ⟨rfl, catches⟩
  have first : next t.kernel.deliverable = some sigint := by
    cases first : next t.kernel.deliverable with
    | none =>
        have quiet := Pending.next_eq_none.mp first sigint
        simp [Kernel.deliverable, pending, unblocked] at quiet
    | some sig => rw [(later.deliverable (Pending.ready_of_next first)).1]
  obtain ⟨u, delivered, frames, pc, killed, log, fewer⟩ :
      ∃ u, t.step (.deliver sigint) = some u ∧
        u.kernel.frames = [⟨sigint, (), .printf, t.kernel.restore.getD t.kernel.mask⟩] ∧
        u.pc = t.pc ∧ u.kernel.killed = t.kernel.killed ∧ u.log = t.log ∧
        u.kernel.pending = Function.update t.kernel.pending sigint rest := by
    rw [System.step, if_neg (by simp [later.running, good.defined])]
    simp only [Kernel.deliver, awake, unblocked, pending, action, Bool.false_eq_true, or_self,
      if_false, Option.map_some, idle]
    exact ⟨_, rfl, rfl, rfl, rfl, rfl, rfl⟩
  have stays := Kernel.ended_eq_false.mp later.running
  have same : u.received = t.received := by rw [System.received, log]; rfl
  have later' : Later cfg s u := by
    refine ⟨good.step delivered, ?_, fun sig some_pending => ?_, same ▸ later.received⟩
    · exact Kernel.ended_eq_false.mpr ⟨pc ▸ stays.1, killed.trans stays.2⟩
    · rw [pc]
      refine later.safe sig fun empty => some_pending ?_
      have differ : sig ≠ sigint := by
        rintro rfl
        rw [empty] at pending
        cases pending
      rw [fewer, Function.update_of_ne differ, empty]
  obtain ⟨v, went, nearer⟩ := handler_advances later'.good later'.running frames
  have printed : restrict System.step Prompt u .proceed = some v := by
    rw [later'.proceeds (Or.inl (by simp [frames])), frames]
    exact went
  have more : v.received = u.received + 1 := by
    cases went
    exact u.received_note (.received sigint)
  refine leads_step (.deliver sigint) (restrict_eq_some.mpr ⟨first, delivered⟩)
    (leads_step _ printed (leads_here ⟨later'.nearer printed nearer, ?_⟩))
  rw [more, same]
  exact Nat.lt_succ_self _

theorem Later.receives {t : System} (later : Later cfg s t) (idle : t.kernel.frames = [])
    (catches : t.pc.catches = true) (unmasked : cfg.mask sigint = false) :
    Leads (restrict System.step Prompt) t fun u => Later cfg s u ∧ t.received < u.received := by
  cases pending : t.kernel.pending sigint with
  | cons _ rest => exact later.receives_pending idle catches unmasked pending
  | nil =>
      obtain ⟨k, arrived, frames, pending', killed⟩ : ∃ k, t.step (.arrive sigint) =
          some { t with kernel := k } ∧ k.frames = t.kernel.frames ∧
          k.pending = Function.update t.kernel.pending sigint [()] ∧
          k.killed = t.kernel.killed := by
        rw [System.step, if_neg (by simp [later.running, later.good.defined])]
        refine ⟨_, if_neg (by decide), rfl, ?_, rfl⟩
        have keeps (sig : Signo) : discards sigint sig = false := rfl
        simp [Kernel.arrive, Kernel.discard, keeps, pending]
      have waits : k.pending sigint = () :: [] := by rw [pending', Function.update_self]
      have later' : Later cfg s { t with kernel := k } := by
        refine ⟨later.good.step arrived, ?_, fun sig some_pending => ?_, later.received⟩
        · rw [System.ended, Kernel.ended, killed]
          exact later.running
        · by_cases own : sig = sigint
          · exact Or.inr ⟨own, catches⟩
          · exact later.safe sig (by simpa [pending', own] using some_pending)
      exact leads_step (.arrive sigint) (restrict_eq_some.mpr ⟨rfl, arrived⟩)
        (later'.receives_pending (frames.trans idle) catches unmasked waits)

end Kept

/-- **sigjump.c.**  In every run: `siglongjmp` is never called before `sigsetjmp`, and one
handler runs at a time.  `main` prints the mask it was started with, after a jump too, and
the handler that mask with SIGINT added.  Every signal received ends in one simple return or
in one jump, but for one that is being handled; and for every jump `main` has printed once,
or is about to, or was interrupted by another jump before it could.  And if SIGINT was not
blocked from the start and nothing else can be delivered, the process can receive it any
number of times more: no jump leaves it blocked. -/
theorem sigint_never_stuck {cfg : Config} {es : List Event} {s : System}
    (reached : run System.step (start cfg) es = some s) :
    s.undefined = false ∧ s.kernel.frames.length ≤ 1 ∧
    (∀ msg set, .sigmask msg set ∈ s.log →
      (msg = none ∨ msg = some afterJumpMsg) ∧ set = cfg.inherited ∨
        msg = none ∧ set = fun sig => cfg.inherited sig || decide (sig = sigint)) ∧
    (s.received = s.log.countP Io.isNotSet + s.jumps +
      s.kernel.frames.countP fun frame => frame.pc.inside) ∧
    (s.log.countP Io.isAfterJump + s.skipped + (if s.pc = .afterJump then 1 else 0) = s.jumps) ∧
    (s.ended = false → cfg.mask sigint = false → s.Safe cfg → ∀ n,
      Leads (restrict System.step Prompt) s fun t =>
        t.ended = false ∧ s.received + n ≤ t.received) := by
  have good : Good cfg s :=
    run_invariant _ (Good cfg) (fun _ _ _ good => good.step) (start_good cfg) reached
  refine ⟨good.defined, good.single, good.shown, good.handled, good.after,
    fun running unmasked safe n => ?_⟩
  suffices Leads (restrict System.step Prompt) s fun t =>
      Later cfg s t ∧ s.received + n ≤ t.received from
    this.trans fun t ⟨later, more⟩ => leads_here ⟨later.running, more⟩
  induction n with
  | zero => exact leads_here ⟨⟨good, running, safe, Nat.le_refl _⟩, Nat.le_refl _⟩
  | succ n ih =>
      refine ih.trans fun t ⟨first, more⟩ => ?_
      have here : Later cfg t t := ⟨first.good, first.running, first.safe, Nat.le_refl _⟩
      refine here.leaves.trans fun u ⟨second, idle, catches⟩ => ?_
      refine (second.receives idle catches unmasked).trans fun v ⟨third, again⟩ => ?_
      refine leads_here ⟨first.trans third, ?_⟩
      have := second.received
      omega

/-- SIGINT comes when `main` waits in `pause`, and the handler is about to jump. -/
def interrupted : List Event :=
  [.proceed, .proceed, .proceed, .proceed, .proceed, .arrive sigint, .deliver sigint, .proceed,
    .proceed, .proceed]

theorem sigint_never_stuck_interrupted : ∃ s,
    run System.step (start ⟨fun _ => false, fun _ => true⟩) interrupted = some s ∧
      s.received = 1 ∧ s.jumps = 0 ∧
      Leads (restrict System.step Prompt) s fun t => t.ended = false ∧ 3 ≤ t.received := by
  obtain ⟨-, -, -, -, -, again⟩ := sigint_never_stuck
    (rfl : run System.step (start ⟨fun _ => false, fun _ => true⟩) interrupted = some _)
  exact ⟨_, rfl, rfl, rfl, again rfl rfl (by unfold System.Safe; decide +kernel) 2⟩

end UnixDemos.Signal.SigJump
