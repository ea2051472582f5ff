/-
# Signal.SigReceiver — sig_sender.c sends, sig_receiver.c counts

Any number of `sig_sender` processes send signals with `kill` to one `sig_receiver`, and
other processes do too.  The receiver installs one handler for all signals it can catch.
If it has an argument it blocks all signals for so many seconds and prints which are
pending.  Then it loops until the handler has seen SIGINT, and prints how often each other
signal was caught.

`sig_cnt[signo]++` in the handler is a load and a store, and a signal can be delivered
between the two; so can it between any two steps of `main`, and `printf` in the last loop
reads the counter again after the test.  The arguments are those after `atoi`, and `sig` and
`sig2` are numbers that `kill` knows.

What has arrived for a signal is kept in `arrived` with the sender it came from; `lost` was
delivered while the signal had the disposition the program was started with, and `caught`
was delivered to the handler.  A real-time signal for which the limit on queued signals
leaves no room merges with one that is pending, as other signals always do; it makes its
number `crowded`.  If it finds none pending the kernel only marks its number, and the next
one merges with it although there may be room again; this too is a `room` of `false`.

The last part follows a receiver that is left alone: no more signals are sent, no call fails,
and the kernel delivers what it can before the program goes on.
-/
import UnixDemos.Signal.Pending

namespace UnixDemos.Signal.SigReceiver

open UnixDemos.Library
open RtSigRecv (Signo sigint queues blockable)
open Pending (next discards)

set_option autoImplicit false

/-! ## State -/

/-- A process that runs sig_sender.c. -/
structure Sender where
  numSigs : Int
  sig : Signo
  /-- `argv[4]`. -/
  sig2 : Option Signo

/-- `ends` are the signals that end the process when it is started, and `numSecs` is
`argv[1]`. -/
structure Config (π : Type) where
  argv0 : String
  pid : Int
  numSecs : Option Int
  mask : Signo → Bool
  ends : Signo → Bool
  strsignal : Signo → String
  senders : π → Sender

/-- `store v` has loaded `v` from the counter. -/
inductive HandlerPc where
  | entry
  | store (v : Int)
  | ret
  deriving DecidableEq, Repr

/-- What `main` does next.  In the last loop `count n` and `plural n c` are the evaluation of
the arguments of `printf`, where `c` was read. -/
inductive Pc where
  | printPid
  | signal (n : Nat)
  | blockAll
  | printSleep
  | sleep
  | sigpending
  | printPending
  | unblock
  | spin
  | report (n : Nat)
  | count (n : Signo)
  | plural (n : Signo) (c : Int)
  | exited (status : Int)
  deriving DecidableEq, Repr

def Pc.status : Pc → Option Int
  | .exited status => some status
  | _ => none

/-- `caught` is `"%s: signal %d caught %d time%s\n"`. -/
inductive Io where
  | caught (argv0 : String) (n : Signo) (c : Int) (ending : String)
  | printf (format : String) (args : List String)
  | perror (message : String)
  deriving DecidableEq, Repr

structure System (π : Type) where
  pc : Pc
  sigCnt : Signo → Int
  gotSigint : Bool
  pendingMask : Signo → Bool
  kernel : Kernel Signo (Option π) HandlerPc
  out : List Io
  /-- How many times each sender has called `kill`, and whether a call has failed. -/
  i : π → Nat
  failed : π → Bool
  arrived : Signo → List (Option π)
  lost : Signo → List (Option π)
  caught : Signo → List (Option π)
  /-- Whether a signal has found no room in the queue. -/
  crowded : Signo → Bool

inductive Event (π : Type) where
  | kill (j : π) (ok room : Bool)
  | other (sig : Signo) (room : Bool)
  | deliver (sig : Signo)
  | proceed
  | fail
  deriving DecidableEq

/-! ## Steps -/

/-- The signal of the `i`-th call of `kill`: the loop, and then `argv[4]`. -/
def Sender.signal (p : Sender) (i : Nat) : Option Signo :=
  if i < p.numSigs then some p.sig else if i = p.numSigs.toNat then p.sig2 else none

/-- `print_sigset` of signal_demo.c. -/
def printSigset (strsignal : Signo → String) (start : String) (set : Signo → Bool) : List Io :=
  match ((List.finRange 65).drop 1).filter set with
  | [] => [.printf "%s<empty signal set>\n" [start]]
  | sigs => sigs.map fun sig =>
      .printf "%s%d (%s)\n" [start, toString sig.val, strsignal sig]

section Steps

variable {π : Type} [DecidableEq π] (cfg : Config π) (s : System π)

namespace System

def note (entry : Io) : System π := { s with out := s.out ++ [entry] }

def ended : Bool := s.kernel.ended s.pc.status

def arrive (sig : Signo) (origin : Option π) (room : Bool) : System π :=
  { s with
    kernel := (s.kernel.discard (discards sig)).arrive (fun sig => queues sig && room) sig origin
    arrived := Function.update s.arrived sig (s.arrived sig ++ [origin])
    crowded := Function.update s.crowded sig (s.crowded sig || !room) }

end System

/-- `kill` in sender `j`; a process that has ended takes no signal. -/
def kill (j : π) (ok room : Bool) : Option (System π) :=
  match (cfg.senders j).signal (s.i j) with
  | none => none
  | some sig =>
      if s.failed j then none
      else if ok then
        let s := if s.ended = true ∨ sig.val = 0 then s else s.arrive sig (some j) room
        some { s with i := Function.update s.i j (s.i j + 1) }
      else some { s with failed := Function.update s.failed j true }

/-- What `signal` installs: only the signal itself is blocked while the handler runs. -/
def sigHandlerAction : Action Signo := .handler fun _ => false

/-- The next step of `sig_handler`. -/
def sigHandler (signo : Signo) : HandlerPc → Option (System π)
  | .entry =>
      if signo = sigint then some { s with gotSigint := true, kernel := s.kernel.goto .ret }
      else some { s with kernel := s.kernel.goto (.store (s.sigCnt signo)) }
  | .store v =>
      some { s with
        sigCnt := Function.update s.sigCnt signo (wrap32 (v + 1))
        kernel := s.kernel.goto .ret }
  | .ret => s.kernel.sigreturn.map fun kernel => { s with kernel := kernel }

/-- `signal(n, sig_handler)`; `main` does not look at whether it fails. -/
def signal (kernel : Kernel Signo (Option π) HandlerPc) (sig : Signo) :
    Kernel Signo (Option π) HandlerPc :=
  if blockable sig then kernel.sigaction sig sigHandlerAction else kernel

def main : Option (System π) :=
  match s.pc with
  | .printPid =>
      let s := s.note (.printf "%ss: PID is %ld\n" [cfg.argv0, toString cfg.pid])
      some { s with pc := .signal 1 }
  | .signal n =>
      if h : n < 65 then
        some { s with kernel := signal s.kernel ⟨n, h⟩, pc := .signal (n + 1) }
      else if cfg.numSecs.isSome then some { s with pc := .blockAll }
      else some { s with pc := .spin }
  | .blockAll =>
      some { s with kernel := s.kernel.sigprocmask blockable fun _ => true, pc := .printSleep }
  | .printSleep =>
      let s := s.note (.printf "%s: sleeping for %d seconds\n"
        [cfg.argv0, toString (cfg.numSecs.getD 0)])
      some { s with pc := .sleep }
  | .sleep => some { s with pc := .sigpending }
  | .sigpending =>
      some { s with pendingMask := fun sig => !(s.kernel.pending sig).isEmpty, pc := .printPending }
  | .printPending =>
      let s := s.note (.printf "%s: pending signals are: \n" [cfg.argv0])
      some { s with out := s.out ++ printSigset cfg.strsignal "\t\t" s.pendingMask, pc := .unblock }
  | .unblock =>
      some { s with kernel := s.kernel.sigprocmask blockable fun _ => false, pc := .spin }
  | .spin => if s.gotSigint then some { s with pc := .report 1 } else some s
  | .report n =>
      if h : n < 65 then
        if s.sigCnt ⟨n, h⟩ ≠ 0 then some { s with pc := .count ⟨n, h⟩ }
        else some { s with pc := .report (n + 1) }
      else some { s with pc := .exited 0 }
  | .count n => some { s with pc := .plural n (s.sigCnt n) }
  | .plural n c =>
      let ending := if s.sigCnt n = 1 then "" else "s"
      some { s.note (.caught cfg.argv0 n c ending) with pc := .report (n.val + 1) }
  | .exited _ => none

/-- A call of `main` that fails. -/
def mainFails : Option (System π) :=
  match s.pc with
  | .blockAll | .unblock =>
      some { s.note (.perror "sigprocmask error") with pc := .exited (-1) }
  | .sigpending => some { s.note (.perror "sigpending error") with pc := .exited (-1) }
  | _ => none

/-- A pending signal is delivered, to the handler or by its disposition. -/
def deliver (sig : Signo) : Option (System π) :=
  match s.kernel.deliver blockable .entry sig with
  | none => none
  | some kernel =>
      let origin := (s.kernel.pending sig).take 1
      match s.kernel.action sig with
      | .handler _ =>
          some { s with
            kernel := kernel
            caught := Function.update s.caught sig (s.caught sig ++ origin) }
      | _ =>
          some { s with
            kernel := kernel
            lost := Function.update s.lost sig (s.lost sig ++ origin) }

def System.step : Event π → Option (System π)
  | .kill j ok room => kill cfg s j ok room
  | .other sig room =>
      if s.ended = true ∨ sig.val = 0 then none else some (s.arrive sig none room)
  | .deliver sig => if s.ended then none else deliver s sig
  | .proceed =>
      if s.ended then none
      else
        match s.kernel.frames with
        | [] => main cfg s
        | frame :: _ => sigHandler s frame.signo frame.pc
  | .fail =>
      if s.ended then none
      else
        match s.kernel.frames with
        | [] => mainFails s
        | _ :: _ => none

/-- The receiver before its first `printf`, and the senders before their loops. -/
def start : System π where
  pc := .printPid
  sigCnt := fun _ => 0
  gotSigint := false
  pendingMask := fun _ => false
  kernel := ⟨fun sig => cfg.mask sig && blockable sig, fun _ => [],
    fun sig => if cfg.ends sig then .terminate else .stop, [], .running, none, none⟩
  out := []
  i := fun _ => 0
  failed := fun _ => false
  arrived := fun _ => []
  lost := fun _ => []
  caught := fun _ => []
  crowded := fun _ => false

end Steps

/-! ## What every step keeps -/

/-- How many of the first `n` calls of `kill` in sender `j` were for `sig`. -/
def Config.sent {π : Type} (cfg : Config π) (j : π) (n : Nat) (sig : Signo) : Nat :=
  (List.range n).countP fun i => (cfg.senders j).signal i = some sig

/-- The disposition the program is started with. -/
def Config.initial {π : Type} (cfg : Config π) (sig : Signo) : Action Signo :=
  if cfg.ends sig then .terminate else .stop

/-- The first loop has been at `sig`. -/
def Pc.past : Pc → Signo → Bool
  | .printPid, _ => false
  | .signal n, sig => sig.val < n
  | _, _ => true

/-- The handler is installed for `sig`. -/
def Pc.catches (pc : Pc) (sig : Signo) : Bool := sig.val ≠ 0 && blockable sig && pc.past sig

/-- The mask outside of all handlers. -/
def Pc.base {π : Type} (cfg : Config π) : Pc → Signo → Bool
  | .printPid | .signal _ | .blockAll => fun sig => cfg.mask sig && blockable sig
  | .printSleep | .sleep | .sigpending | .printPending | .unblock => blockable
  | _ => if cfg.numSecs.isSome then fun _ => false else fun sig => cfg.mask sig && blockable sig

/-- What holds where `main` is. -/
def Pc.Sound {π : Type} (cfg : Config π) : Pc → Prop
  | .signal n => 0 < n
  | .blockAll | .printSleep | .sleep | .sigpending | .printPending | .unblock =>
      cfg.numSecs.isSome = true
  | _ => True

def Pc.reporting : Pc → Bool
  | .report _ | .count _ | .plural _ _ => true
  | .exited status => status = 0
  | _ => false

/-- How many handlers for `sig` run that have not counted it yet. -/
def counting {π : Type} (frames : List (Frame Signo (Option π) HandlerPc)) (sig : Signo) : Nat :=
  frames.countP fun frame => frame.signo = sig && frame.pc ≠ .ret

structure Good {π : Type} [DecidableEq π] (cfg : Config π) (s : System π) : Prop where
  queued : Kernel.Queued queues (fun sig => queues sig && !s.crowded sig) s.kernel s.arrived
    fun sig => s.lost sig ++ s.caught sig
  zero : s.arrived 0 = []
  sent : s.ended = false → ∀ j sig, sig.val ≠ 0 →
    (s.arrived sig).count (some j) = cfg.sent j (s.i j) sig
  wait : s.kernel.wait = .running
  restore : s.kernel.restore = none
  nested : Kernel.Nested s.kernel.mask s.kernel.frames
  action : ∀ sig, s.kernel.action sig =
    if s.pc.catches sig = true then sigHandlerAction else cfg.initial sig
  sound : s.pc.Sound cfg
  uncaught : ∀ sig, s.pc.catches sig = false → s.caught sig = []
  started : ∀ frame ∈ s.kernel.frames, s.caught frame.signo ≠ []
  counts : ∀ sig, sig ≠ sigint → ∃ k : Nat,
    k + counting s.kernel.frames sig = (s.caught sig).length ∧ s.sigCnt sig = wrap32 k
  uncounted : s.sigCnt sigint = 0
  loaded : ∀ frame ∈ s.kernel.frames, ∀ v, frame.pc = .store v →
    frame.signo ≠ sigint ∧ v = s.sigCnt frame.signo
  flag : s.gotSigint = true → s.caught sigint ≠ []
  flagged : s.caught sigint ≠ [] → s.gotSigint = true ∨
    ∃ frame ∈ s.kernel.frames, frame.signo = sigint ∧ frame.pc = .entry
  base : s.pc.status = none → s.kernel.base = s.pc.base cfg
  reporting : s.pc.reporting = true → s.gotSigint = true
  printing : ∀ sig c, s.pc = .plural sig c → ∃ k ≤ (s.caught sig).length, c = wrap32 k
  printed : ∀ argv0 sig c ending, .caught argv0 sig c ending ∈ s.out →
    ∃ k ≤ (s.caught sig).length, c = wrap32 k

section Kept

variable {π : Type} {cfg : Config π} {s s' : System π}

theorem sent_succ (cfg : Config π) (j : π) (n : Nat) (sig : Signo) :
    cfg.sent j (n + 1) sig =
      cfg.sent j n sig + if (cfg.senders j).signal n = some sig then 1 else 0 := by
  simp [Config.sent, List.range_succ, List.countP_append, List.countP_singleton]

theorem counting_cons (frame : Frame Signo (Option π) HandlerPc)
    (frames : List (Frame Signo (Option π) HandlerPc)) (sig : Signo) :
    counting (frame :: frames) sig =
      counting frames sig + if frame.signo = sig ∧ frame.pc ≠ .ret then 1 else 0 := by
  simp [counting, List.countP_cons]

/-- No signal is being counted twice. -/
theorem counting_le_one {mask : Signo → Bool} {frames : List (Frame Signo (Option π) HandlerPc)}
    (nested : Kernel.Nested mask frames) (sig : Signo) : counting frames sig ≤ 1 :=
  calc counting frames sig
      ≤ frames.countP (fun frame => frame.signo = sig) :=
        List.countP_mono_left fun frame _ counts => (Bool.and_eq_true_iff.mp counts).1
    _ = (frames.map Frame.signo).count sig := by
        rw [List.count, List.countP_map]
        rfl
    _ ≤ 1 := List.nodup_iff_count_le_one.mp nested.nodup sig

variable [DecidableEq π]

theorem start_good (cfg : Config π) : Good cfg (start cfg) where
  queued := ⟨fun _ _ => rfl, fun _ => List.Sublist.refl _, fun _ _ => Nat.zero_le 1⟩
  zero := rfl
  sent _ _ _ _ := rfl
  wait := rfl
  restore := rfl
  nested := trivial
  action sig := by simp [start, Pc.catches, Pc.past, Config.initial]
  sound := trivial
  uncaught _ _ := rfl
  started frame runs := absurd runs List.not_mem_nil
  counts sig _ := ⟨0, rfl, rfl⟩
  uncounted := rfl
  loaded frame runs := absurd runs List.not_mem_nil
  flag set := by cases set
  flagged caught := absurd rfl caught
  base _ := rfl
  reporting reports := by cases reports
  printing sig c here := by cases here
  printed _ _ _ _ shown := absurd shown List.not_mem_nil

/-! ### Signals that are sent -/

/-- A number whose signals are all accounted for stays so if there is room. -/
theorem Good.queued_arrive (good : Good cfg s) (sig : Signo) (origin : Option π) (room : Bool) :
    Kernel.Queued queues (fun other => queues other && !(s.arrive sig origin room).crowded other)
      (s.arrive sig origin room).kernel (s.arrive sig origin room).arrived
        fun other => s.lost other ++ s.caught other := by
  have kept := good.queued.discard fun other whole =>
    @Pending.discards_eq_false_of_queues sig other (Bool.and_eq_true_iff.mp whole).1
  refine kept.arrive (fun other => queues other && room) sig origin ?_ ?_ ?_
  · intro other whole
    by_cases same : other = sig
    · subst same
      simp only [System.arrive, Function.update_self, Bool.not_or, Bool.not_not,
        Bool.and_eq_true] at whole ⊢
      exact ⟨whole.1, whole.2.1⟩
    · simpa only [System.arrive, Function.update_of_ne same] using whole
  · intro whole
    simp only [System.arrive, Function.update_self, Bool.not_or, Bool.not_not,
      Bool.and_eq_true] at whole ⊢
    exact ⟨whole.1, whole.2.2⟩
  · intro merges
    rw [merges]
    rfl

/-- A signal arrives, and `i` says that its sender has sent it. -/
theorem Good.arrive (good : Good cfg s) {sig : Signo} (nonzero : sig.val ≠ 0)
    {origin : Option π} {room : Bool} {i : π → Nat}
    (sent : s.ended = false → ∀ j other, other.val ≠ 0 → cfg.sent j (i j) other =
      cfg.sent j (s.i j) other + if other = sig ∧ origin = some j then 1 else 0) :
    Good cfg { s.arrive sig origin room with i := i } where
  queued := good.queued_arrive sig origin room
  zero := by
    have differ : (0 : Signo) ≠ sig := fun same => nonzero (same ▸ rfl)
    exact (Function.update_of_ne differ ..).trans good.zero
  sent running j other nonzero := by
    have before := good.sent running j other nonzero
    rw [sent running j other nonzero, ← before]
    simp only [System.arrive]
    by_cases same : other = sig
    · subst same
      rw [Function.update_self, List.count_append, List.count_singleton]
      simp
    · simp [same]
  wait := by simp [System.arrive, Kernel.arrive, Kernel.discard, good.wait]
  restore := good.restore
  nested := good.nested
  action := good.action
  sound := good.sound
  uncaught := good.uncaught
  started := good.started
  counts := good.counts
  uncounted := good.uncounted
  loaded := good.loaded
  flag := good.flag
  flagged := good.flagged
  base := good.base
  reporting := good.reporting
  printing := good.printing
  printed := good.printed

theorem Good.other (good : Good cfg s) {sig : Signo} (nonzero : sig.val ≠ 0) (room : Bool) :
    Good cfg (s.arrive sig none room) :=
  good.arrive nonzero fun _ j other _ => by simp

theorem Good.kill (good : Good cfg s) {j : π} {ok room : Bool}
    (killed : kill cfg s j ok room = some s') : Good cfg s' := by
  unfold SigReceiver.kill at killed
  split at killed
  · cases killed
  · rename_i sig signal
    split at killed
    · cases killed
    · split at killed
      · cases killed
        -- the calls of `j` are one more, and all others the same
        have sent (k : π) (other : Signo) :
            cfg.sent k (Function.update s.i j (s.i j + 1) k) other =
              cfg.sent k (s.i k) other + if other = sig ∧ some j = some k then 1 else 0 := by
          by_cases same : k = j
          · subst same
            rw [Function.update_self, sent_succ, signal]
            simp [eq_comm]
          · simp [Function.update_of_ne same, Ne.symm same]
        by_cases taken : s.ended = true ∨ sig.val = 0
        · simp only [taken, if_true]
          refine { good with sent := fun running k other nonzero => ?_ }
          have zero : sig.val = 0 := by
            refine taken.resolve_left fun ended => ?_
            exact Bool.false_ne_true (running.symm.trans ended)
          have differ : other ≠ sig := by
            rintro rfl
            exact nonzero zero
          rw [sent k other, good.sent running k other nonzero]
          simp [differ]
        · simp only [taken, if_false]
          exact good.arrive (not_or.mp taken).2 fun _ k other _ => sent k other
      · cases killed
        exact { good with }

/-! ### Delivery -/

omit [DecidableEq π] in
theorem catches_of_handler {sig : Signo} {saMask : Signo → Bool}
    (action : s.kernel.action sig =
      if s.pc.catches sig = true then sigHandlerAction else cfg.initial sig)
    (handler : s.kernel.action sig = .handler saMask) :
    s.pc.catches sig = true ∧ saMask = fun _ => false := by
  rw [action] at handler
  split at handler
  · rename_i catches
    cases handler
    exact ⟨catches, rfl⟩
  · simp only [Config.initial] at handler
    split at handler <;> cases handler

/-- A signal with the disposition the program was started with. -/
theorem Good.loses (good : Good cfg s) (running : s.ended = false) {sig : Signo}
    {origin : Option π} {rest : List (Option π)}
    (pending : s.kernel.pending sig = origin :: rest) (uncaught : s.pc.catches sig = false)
    (killed : Option Signo) :
    Good cfg { s with
      kernel := { s.kernel with
        pending := Function.update s.kernel.pending sig rest, killed := killed }
      lost := Function.update s.lost sig (s.lost sig ++ [origin]) } := by
  have gone : (fun other => Function.update s.lost sig (s.lost sig ++ [origin]) other ++
      s.caught other) = Function.update (fun other => s.lost other ++ s.caught other) sig
        ((s.lost sig ++ s.caught sig) ++ [origin]) := by
    funext other
    by_cases same : other = sig
    · subst same
      simp [good.uncaught other uncaught]
    · simp [same]
  refine { good with queued := ?_, sent := fun _ => good.sent running }
  dsimp only
  rw [gone]
  exact good.queued.take pending rfl

/-- A signal is caught. -/
theorem Good.catches (good : Good cfg s) (running : s.ended = false) {sig : Signo}
    {origin : Option π} {rest : List (Option π)}
    (pending : s.kernel.pending sig = origin :: rest) (unblocked : s.kernel.mask sig = false)
    (catches : s.pc.catches sig = true) :
    Good cfg { s with
      kernel := { s.kernel with
        pending := Function.update s.kernel.pending sig rest
        frames := ⟨sig, origin, .entry, s.kernel.mask⟩ :: s.kernel.frames
        mask := fun other => s.kernel.mask other || ((false || other = sig) && blockable other) }
      caught := Function.update s.caught sig (s.caught sig ++ [origin]) } := by
  have gone : (fun other => s.lost other ++
      Function.update s.caught sig (s.caught sig ++ [origin]) other) =
        Function.update (fun other => s.lost other ++ s.caught other) sig
          ((s.lost sig ++ s.caught sig) ++ [origin]) := by
    funext other
    by_cases same : other = sig
    · subst same
      simp
    · simp [same]
  have blocks : blockable sig = true := by
    simp only [Pc.catches, Bool.and_eq_true] at catches
    exact catches.1.2
  -- every list of what was caught is as it was, or longer
  have longer (other : Signo) : (s.caught other).length ≤
      (Function.update s.caught sig (s.caught sig ++ [origin]) other).length := by
    by_cases same : other = sig
    · subst same
      simp
    · simp [same]
  have nonempty (other : Signo) (some_caught : s.caught other ≠ []) :
      Function.update s.caught sig (s.caught sig ++ [origin]) other ≠ [] := by
    rw [← List.length_pos_iff] at some_caught ⊢
    exact Nat.lt_of_lt_of_le some_caught (longer other)
  refine { good with
    queued := ?_
    sent := fun _ => good.sent running
    nested := ⟨?_, unblocked, ?_, good.nested⟩
    uncaught := ?_
    started := ?_
    counts := ?_
    loaded := ?_
    flag := fun set => nonempty sigint (good.flag set)
    flagged := ?_
    base := fun alive => (good.base alive ▸ ?_)
    printing := fun other c here => ?_
    printed := fun argv0 other c ending shown => ?_ }
  · dsimp only
    rw [gone]
    exact good.queued.take pending rfl
  · simp [blocks]
  · intro other blocked
    exact Bool.or_eq_true_iff.mpr (Or.inl blocked)
  · intro other uncaught
    have differ : other ≠ sig := by
      rintro rfl
      rw [catches] at uncaught
      cases uncaught
    exact (Function.update_of_ne differ ..).trans (good.uncaught other uncaught)
  · intro frame runs
    rcases List.mem_cons.mp runs with rfl | runs
    · simp
    · exact nonempty _ (good.started frame runs)
  · intro other differs
    obtain ⟨k, sum, count⟩ := good.counts other differs
    refine ⟨k, ?_, count⟩
    rw [counting_cons]
    by_cases same : other = sig
    · subst same
      simp [← sum, Nat.add_assoc]
    · simp [same, Ne.symm same, sum]
  · intro frame runs v stores
    rcases List.mem_cons.mp runs with rfl | runs
    · cases stores
    · exact good.loaded frame runs v stores
  · intro some_caught
    by_cases same : sig = sigint
    · exact Or.inr ⟨_, List.mem_cons_self, same, rfl⟩
    · have before : s.caught sigint ≠ [] := by
        dsimp only at some_caught
        rwa [Function.update_of_ne (Ne.symm same)] at some_caught
      refine (good.flagged before).imp_right fun ⟨frame, runs, rest⟩ => ?_
      exact ⟨frame, List.mem_cons_of_mem _ runs, rest⟩
  · simp [Kernel.base, good.restore]
  · obtain ⟨k, le, value⟩ := good.printing other c here
    exact ⟨k, le.trans (longer other), value⟩
  · obtain ⟨k, le, value⟩ := good.printed argv0 other c ending shown
    exact ⟨k, le.trans (longer other), value⟩

theorem Good.deliver (good : Good cfg s) (running : s.ended = false) {sig : Signo}
    (delivered : deliver s sig = some s') : Good cfg s' := by
  unfold SigReceiver.deliver at delivered
  split at delivered
  · cases delivered
  · rename_i kernel deliver
    obtain ⟨-, unblocked, origin, rest, pending, delivery⟩ := Kernel.deliver_effect deliver
    have uncaught {action : Action Signo} (initial : s.kernel.action sig = action)
        (other : action ≠ sigHandlerAction) : s.pc.catches sig = false := by
      rw [Bool.eq_false_iff]
      intro catches
      rw [good.action, if_pos catches] at initial
      exact other initial.symm
    cases delivery with
    | terminates action =>
        simp only [action, pending, List.take_succ_cons, List.take_zero] at delivered
        cases delivered
        exact good.loses running pending (uncaught action (by simp [sigHandlerAction])) _
    | stops action =>
        simp only [action, pending, List.take_succ_cons, List.take_zero] at delivered
        cases delivered
        exact good.loses running pending (uncaught action (by simp [sigHandlerAction])) _
    | starts action =>
        simp only [action, pending, List.take_succ_cons, List.take_zero] at delivered
        cases delivered
        obtain ⟨catches, rfl⟩ := catches_of_handler (good.action sig) action
        have caught := good.catches running pending unblocked catches
        simpa [good.restore, good.wait] using caught

/-! ### The handler -/

/-- The innermost handler goes on, and changes the counters and the flag. -/
theorem Good.handles (good : Good cfg s) (running : s.ended = false)
    {frame : Frame Signo (Option π) HandlerPc} {frames : List (Frame Signo (Option π) HandlerPc)}
    (runs : s.kernel.frames = frame :: frames) {pc : HandlerPc} {sigCnt : Signo → Int}
    {gotSigint : Bool}
    (counts : ∀ sig, sig ≠ sigint → ∃ k : Nat,
      k + counting ({ frame with pc := pc } :: frames) sig = (s.caught sig).length ∧
        sigCnt sig = wrap32 k)
    (others : ∀ sig, sig ≠ frame.signo → sigCnt sig = s.sigCnt sig)
    (uncounted : sigCnt sigint = 0)
    (loaded : ∀ v, pc = .store v → frame.signo ≠ sigint ∧ v = sigCnt frame.signo)
    (flag : gotSigint = s.gotSigint ∨ gotSigint = true ∧ frame.signo = sigint)
    (entered : frame.signo = sigint → frame.pc = .entry → gotSigint = true) :
    Good cfg { s with
      sigCnt := sigCnt, gotSigint := gotSigint, kernel := s.kernel.goto pc } := by
  have nested := good.nested
  rw [runs] at nested
  have below {lower : Frame Signo (Option π) HandlerPc} (member : lower ∈ frames) :
      lower ∈ s.kernel.frames := runs ▸ List.mem_cons_of_mem _ member
  have top : frame ∈ s.kernel.frames := runs ▸ List.mem_cons_self
  rw [Kernel.goto_eq runs]
  refine { good with
    queued := good.queued.congr rfl
    sent := fun _ => good.sent running
    nested := nested
    started := fun lower member => ?_
    counts := counts
    uncounted := uncounted
    loaded := fun lower member v stores => ?_
    flag := fun set => ?_
    flagged := fun some_caught => ?_
    base := fun alive => ?_
    reporting := fun reports => ?_ }
  · rcases List.mem_cons.mp member with rfl | member
    · exact good.started frame top
    · exact good.started lower (below member)
  · rcases List.mem_cons.mp member with rfl | member
    · exact loaded v stores
    · have differ : lower.signo ≠ frame.signo := fun same =>
        (List.nodup_cons.mp nested.nodup).1 (same ▸ List.mem_map_of_mem member)
      obtain ⟨other, value⟩ := good.loaded lower (below member) v stores
      exact ⟨other, value.trans (others _ differ).symm⟩
  · rcases flag with same | ⟨-, own⟩
    · exact good.flag (same ▸ set)
    · exact own ▸ good.started frame top
  · rcases good.flagged some_caught with set | ⟨lower, member, own, pc⟩
    · exact Or.inl (flag.elim (fun same => same.trans set) And.left)
    · rw [runs] at member
      rcases List.mem_cons.mp member with rfl | member
      · exact Or.inl (entered own pc)
      · exact Or.inr ⟨lower, List.mem_cons_of_mem _ member, own, pc⟩
  · rw [← good.base alive]
    simp [Kernel.base, runs]
  · have set := good.reporting reports
    exact flag.elim (fun same => same.trans set) And.left

theorem Good.sigHandler (good : Good cfg s) (running : s.ended = false)
    {frame : Frame Signo (Option π) HandlerPc} {frames : List (Frame Signo (Option π) HandlerPc)}
    (runs : s.kernel.frames = frame :: frames)
    (went : sigHandler s frame.signo frame.pc = some s') : Good cfg s' := by
  have counts := good.counts
  rw [runs] at counts
  simp only [counting_cons] at counts
  cases pc : frame.pc with
  | entry =>
      simp only [pc, SigReceiver.sigHandler] at went
      simp only [pc, ne_eq, reduceCtorEq, not_false_eq_true, and_true] at counts
      split at went
      · rename_i own
        cases went
        refine good.handles running runs (fun sig differs => ?_) (fun _ _ => rfl) good.uncounted
          (fun v stores => by cases stores) (Or.inr ⟨rfl, own⟩) (fun _ _ => rfl)
        obtain ⟨k, sum, count⟩ := counts sig differs
        refine ⟨k, ?_, count⟩
        rw [own, if_neg (Ne.symm differs)] at sum
        simpa [counting_cons] using sum
      · rename_i other
        cases went
        refine good.handles running runs (fun sig differs => ?_) (fun _ _ => rfl) good.uncounted
          (fun v stores => ?_) (Or.inl rfl) (fun own => absurd own other)
        · simpa [counting_cons] using counts sig differs
        · cases stores
          exact ⟨other, rfl⟩
  | store v =>
      simp only [pc, SigReceiver.sigHandler] at went
      simp only [pc, ne_eq, reduceCtorEq, not_false_eq_true, and_true] at counts
      cases went
      obtain ⟨other, value⟩ := good.loaded frame (runs ▸ List.mem_cons_self) v pc
      refine good.handles running runs (fun sig differs => ?_)
        (fun sig differ => Function.update_of_ne differ ..)
        ((Function.update_of_ne (Ne.symm other) ..).trans good.uncounted)
        (fun v stores => by cases stores) (Or.inl rfl) (fun own => absurd own other)
      obtain ⟨k, sum, count⟩ := counts sig differs
      by_cases same : sig = frame.signo
      · subst same
        refine ⟨k + 1, ?_, ?_⟩
        · rw [if_pos rfl] at sum
          simp [counting_cons, ← sum, Nat.add_assoc, Nat.add_comm]
        · rw [Function.update_self, value, count, wrap32_succ]
      · refine ⟨k, ?_, ?_⟩
        · rw [if_neg (Ne.symm same)] at sum
          simpa [counting_cons] using sum
        · rw [Function.update_of_ne same, count]
  | ret =>
      simp only [pc, SigReceiver.sigHandler, Option.map_eq_some_iff] at went
      obtain ⟨kernel, returned, rfl⟩ := went
      have base := Kernel.base_sigreturn (Kernel.wellFormed_running good.wait good.restore) returned
      obtain ⟨top, rest, runs', rfl⟩ := Kernel.sigreturn_eq_some.mp returned
      obtain ⟨rfl, rfl⟩ := List.cons.inj (runs'.symm.trans runs)
      have nested := good.nested
      rw [runs] at nested
      have below {lower : Frame Signo (Option π) HandlerPc} (member : lower ∈ rest) :
          lower ∈ s.kernel.frames := runs ▸ List.mem_cons_of_mem _ member
      refine { good with
        queued := good.queued.congr rfl
        sent := fun _ => good.sent running
        nested := nested.2.2.2
        started := fun lower member => good.started lower (below member)
        counts := fun sig differs => ?_
        loaded := fun lower member => good.loaded lower (below member)
        flagged := fun some_caught => ?_
        base := fun alive => base.trans (good.base alive) }
      · simpa [pc] using counts sig differs
      · refine (good.flagged some_caught).imp_right fun ⟨lower, member, own, entry⟩ => ?_
        rw [runs] at member
        rcases List.mem_cons.mp member with rfl | member
        · rw [pc] at entry
          cases entry
        · exact ⟨lower, member, own, entry⟩

/-! ### The main program -/

/-- `main` goes on; no handler runs. -/
theorem Good.proceeds (good : Good cfg s) (running : s.ended = false)
    (idle : s.kernel.frames = []) {pc : Pc} {pendingMask : Signo → Bool}
    {kernel : Kernel Signo (Option π) HandlerPc} {out : List Io}
    (pending : kernel.pending = s.kernel.pending) (frames : kernel.frames = [])
    (wait : kernel.wait = s.kernel.wait) (restore : kernel.restore = s.kernel.restore)
    (action : ∀ sig, kernel.action sig =
      if pc.catches sig = true then sigHandlerAction else cfg.initial sig)
    (sound : pc.Sound cfg)
    (caught : ∀ sig, s.pc.catches sig = true → pc.catches sig = true)
    (mask : pc.status = none → kernel.mask = pc.base cfg)
    (reporting : pc.reporting = true → s.gotSigint = true)
    (printing : ∀ sig c, pc = .plural sig c → ∃ k ≤ (s.caught sig).length, c = wrap32 k)
    (printed : ∀ argv0 sig c ending, .caught argv0 sig c ending ∈ out →
      .caught argv0 sig c ending ∈ s.out ∨ s.pc = .plural sig c) :
    Good cfg { s with pc := pc, pendingMask := pendingMask, kernel := kernel, out := out } where
  queued := good.queued.congr pending
  zero := good.zero
  sent _ := good.sent running
  wait := wait.trans good.wait
  restore := restore.trans good.restore
  nested := by
    rw [frames]
    trivial
  action := action
  sound := sound
  uncaught sig uncaught := by
    refine good.uncaught sig (Bool.eq_false_iff.mpr fun catches => ?_)
    exact Bool.false_ne_true (uncaught.symm.trans (caught sig catches))
  started frame runs := by
    rw [frames] at runs
    cases runs
  counts := by
    rw [frames]
    simpa only [idle] using good.counts
  uncounted := good.uncounted
  loaded frame runs := by
    rw [frames] at runs
    cases runs
  flag := good.flag
  flagged some_caught := by
    refine (good.flagged some_caught).imp_right fun ⟨frame, runs, _⟩ => ?_
    rw [idle] at runs
    cases runs
  base alive := by
    simp [Kernel.base, frames, restore, good.restore, mask alive]
  reporting := reporting
  printing := printing
  printed argv0 sig c ending shown :=
    (printed argv0 sig c ending shown).elim (good.printed argv0 sig c ending)
      (good.printing sig c)

theorem Good.mask (good : Good cfg s) (running : s.ended = false) (idle : s.kernel.frames = []) :
    s.kernel.mask = s.pc.base cfg := by
  simpa [Kernel.base, idle, good.restore] using good.base (Kernel.ended_eq_false.mp running).1

/-- `main` goes on without a call that changes the kernel. -/
theorem Good.moves (good : Good cfg s) (running : s.ended = false)
    (idle : s.kernel.frames = []) {pc : Pc} {pendingMask : Signo → Bool} {out : List Io}
    (catches : ∀ sig, pc.catches sig = s.pc.catches sig) (base : pc.base cfg = s.pc.base cfg)
    (sound : pc.Sound cfg)
    (reporting : pc.reporting = true → s.gotSigint = true)
    (printing : ∀ sig c, pc = .plural sig c → ∃ k ≤ (s.caught sig).length, c = wrap32 k)
    (printed : ∀ argv0 sig c ending, .caught argv0 sig c ending ∈ out →
      .caught argv0 sig c ending ∈ s.out ∨ s.pc = .plural sig c) :
    Good cfg { s with pc := pc, pendingMask := pendingMask, out := out } := by
  refine good.proceeds running idle rfl idle rfl rfl ?_ sound ?_ ?_ reporting printing printed
  · simp only [catches]
    exact good.action
  · simp only [catches]
    exact fun _ => id
  · exact fun _ => (good.mask running idle).trans base.symm

/-- The same for a step that is not in the last loop. -/
theorem Good.advances (good : Good cfg s) (running : s.ended = false)
    (idle : s.kernel.frames = []) {pc : Pc} {pendingMask : Signo → Bool} {out : List Io}
    (catches : ∀ sig, pc.catches sig = s.pc.catches sig) (base : pc.base cfg = s.pc.base cfg)
    (sound : pc.Sound cfg) (early : pc.reporting = false)
    (printed : ∀ argv0 sig c ending, .caught argv0 sig c ending ∈ out →
      .caught argv0 sig c ending ∈ s.out) :
    Good cfg { s with pc := pc, pendingMask := pendingMask, out := out } := by
  refine good.moves running idle catches base sound (fun reports => ?_) (fun sig c here => ?_)
    fun argv0 sig c ending shown => Or.inl (printed argv0 sig c ending shown)
  · exact absurd (reports.symm.trans early) Bool.false_ne_true.symm
  · rw [here] at early
    cases early

omit [DecidableEq π] in
theorem caught_snoc {out : List Io} {format : String} {args : List String} {argv0 : String}
    {sig : Signo} {c : Int} {ending : String}
    (shown : Io.caught argv0 sig c ending ∈ out ++ [.printf format args]) :
    .caught argv0 sig c ending ∈ out := by
  simpa using shown

theorem caught_not_mem_printSigset {strsignal : Signo → String} {start : String}
    {set : Signo → Bool} {argv0 : String} {sig : Signo} {c : Int} {ending : String} :
    Io.caught argv0 sig c ending ∉ printSigset strsignal start set := by
  unfold printSigset
  split <;> simp

/-- The first loop at `n` installs the handler for it, if it can be caught. -/
theorem catches_succ {n : Nat} (h : n < 65) (positive : 0 < n) (sig : Signo) :
    (Pc.signal (n + 1)).catches sig =
      if sig = ⟨n, h⟩ then blockable sig else (Pc.signal n).catches sig := by
  split
  · rename_i same
    subst same
    simp [Pc.catches, Pc.past, Nat.pos_iff_ne_zero.mp positive]
  · rename_i differ
    have apart : sig.val ≠ n := fun same => differ (Fin.ext same)
    have same : (sig.val < n + 1) = (sig.val < n) := by
      rw [eq_iff_iff]
      omega
    simp only [Pc.catches, Pc.past, same]

omit [DecidableEq π] in
theorem signal_action {n : Nat} (h : n < 65) (positive : 0 < n)
    {kernel : Kernel Signo (Option π) HandlerPc}
    (action : ∀ sig, kernel.action sig =
      if (Pc.signal n).catches sig = true then sigHandlerAction else cfg.initial sig)
    (sig : Signo) : (signal kernel ⟨n, h⟩).action sig =
      if (Pc.signal (n + 1)).catches sig = true then sigHandlerAction else cfg.initial sig := by
  rw [catches_succ h positive, signal]
  by_cases same : sig = ⟨n, h⟩
  · subst same
    have before : (Pc.signal n).catches ⟨n, h⟩ = false := by simp [Pc.catches, Pc.past]
    split <;> simp_all [Kernel.sigaction]
  · rw [if_neg same, ← action]
    split
    · exact Function.update_of_ne same ..
    · rfl

theorem Good.counted (good : Good cfg s) (sig : Signo) :
    ∃ k ≤ (s.caught sig).length, s.sigCnt sig = wrap32 k := by
  by_cases own : sig = sigint
  · subst own
    exact ⟨0, Nat.zero_le _, good.uncounted⟩
  · obtain ⟨k, sum, count⟩ := good.counts sig own
    exact ⟨k, by omega, count⟩

omit [DecidableEq π] in
/-- `signal` changes nothing but the disposition. -/
theorem signal_frame (kernel : Kernel Signo (Option π) HandlerPc) (sig : Signo) :
    signal kernel sig = { kernel with action := (signal kernel sig).action } := by
  unfold signal
  split <;> rfl

/-- One turn of the loop that installs the handler. -/
theorem Good.installs (good : Good cfg s) (running : s.ended = false)
    (idle : s.kernel.frames = []) {n : Nat} (h : n < 65) (here : s.pc = .signal n) :
    Good cfg { s with kernel := signal s.kernel ⟨n, h⟩, pc := .signal (n + 1) } := by
  have sound := good.sound
  have before := good.action
  have mask := good.mask running idle
  rw [here] at sound before mask
  have frame := signal_frame s.kernel ⟨n, h⟩
  refine good.proceeds running idle (by rw [frame]) (by rw [frame]; exact idle) (by rw [frame])
    (by rw [frame]) (signal_action h sound before) (Nat.succ_pos n) (fun sig catches => ?_)
    (fun _ => ?_) (fun reports => by cases reports) (by simp) fun _ _ _ _ => Or.inl
  · rw [here] at catches
    simp only [Pc.catches, Pc.past, Bool.and_eq_true, decide_eq_true_eq] at catches ⊢
    exact ⟨catches.1, Nat.lt_succ_of_lt catches.2⟩
  · rw [frame]
    exact mask

/-- The loop is over: all that can be caught is. -/
theorem past_of_done {n : Nat} (done : ¬ n < 65) (sig : Signo) : (Pc.signal n).past sig = true := by
  have := sig.isLt
  simp only [Pc.past, decide_eq_true_eq]
  omega

theorem Good.main (good : Good cfg s) (running : s.ended = false) (idle : s.kernel.frames = [])
    (went : main cfg s = some s') : Good cfg s' := by
  have sound := good.sound
  have action := good.action
  unfold SigReceiver.main at went
  cases here : s.pc with
  | printPid =>
      rw [here] at went
      cases went
      refine good.advances running idle (fun sig => ?_) (by rw [here]; rfl) Nat.one_pos rfl
        fun _ _ _ _ => caught_snoc
      simp only [here, Pc.catches, Pc.past]
      by_cases zero : sig.val = 0 <;> simp [zero]
  | signal n =>
      rw [here] at went
      dsimp only at went
      split at went
      · rename_i h
        cases went
        exact good.installs running idle h here
      · rename_i done
        have all (pc : Pc) (past : pc.past = fun _ => true) (sig : Signo) :
            pc.catches sig = s.pc.catches sig := by
          rw [here, Pc.catches, Pc.catches, past_of_done done, past]
        split at went
        · rename_i delays
          cases went
          exact good.advances running idle (all _ rfl) (by rw [here]; rfl) delays rfl
            fun _ _ _ _ => id
        · rename_i absent
          cases went
          exact good.advances running idle (all _ rfl) (by rw [here]; simp [Pc.base, absent])
            trivial rfl fun _ _ _ _ => id
  | blockAll =>
      rw [here] at went sound action
      cases went
      refine good.proceeds running idle rfl idle rfl rfl action sound (fun sig => ?_) (fun _ => rfl)
        (fun reports => by cases reports) (by simp) fun _ _ _ _ => Or.inl
      rw [here]
      exact id
  | printSleep =>
      rw [here] at went sound
      cases went
      exact good.advances running idle (fun _ => by rw [here]; rfl) (by rw [here]; rfl) sound
        rfl fun _ _ _ _ => caught_snoc
  | sleep | sigpending =>
      rw [here] at went sound
      cases went
      exact good.advances running idle (fun _ => by rw [here]; rfl) (by rw [here]; rfl) sound
        rfl fun _ _ _ _ => id
  | printPending =>
      rw [here] at went sound
      cases went
      refine good.advances running idle (fun _ => by rw [here]; rfl) (by rw [here]; rfl) sound
        rfl fun _ _ _ _ shown => ?_
      exact caught_snoc ((List.mem_append.mp shown).resolve_right caught_not_mem_printSigset)
  | unblock =>
      rw [here] at went sound action
      cases went
      refine good.proceeds running idle rfl idle rfl rfl action trivial (fun sig => ?_)
        (fun _ => (if_pos sound).symm) (fun reports => by cases reports) (by simp)
        fun _ _ _ _ => Or.inl
      rw [here]
      exact id
  | spin =>
      rw [here] at went
      dsimp only at went
      split at went
      · rename_i set
        cases went
        exact good.moves running idle (fun _ => by rw [here]; rfl) (by rw [here]; rfl) trivial
          (fun _ => set) (by simp) fun _ _ _ _ => Or.inl
      · cases went
        exact good
  | report n =>
      have set := good.reporting (by rw [here]; rfl)
      have moves (pc : Pc) (catches : pc.catches = (Pc.report n).catches)
          (base : pc.base cfg = (Pc.report n).base cfg) (sound : pc.Sound cfg)
          (noCount : ∀ sig c, pc ≠ .plural sig c) : Good cfg { s with pc := pc } :=
        good.moves running idle (fun _ => by rw [here, catches]) (by rw [here, base]) sound
          (fun _ => set) (fun sig c same => absurd same (noCount sig c)) fun _ _ _ _ => Or.inl
      rw [here] at went
      dsimp only at went
      split at went
      · split at went <;> cases went
        · exact moves _ rfl rfl trivial (by simp)
        · exact moves _ rfl rfl trivial (by simp)
      · cases went
        exact moves _ rfl rfl trivial (by simp)
  | count n =>
      have set := good.reporting (by rw [here]; rfl)
      rw [here] at went
      cases went
      refine good.moves running idle (fun _ => by rw [here]; rfl) (by rw [here]; rfl) trivial
        (fun _ => set) (fun sig c same => ?_) fun _ _ _ _ => Or.inl
      cases same
      exact good.counted n
  | plural n c =>
      have set := good.reporting (by rw [here]; rfl)
      rw [here] at went
      cases went
      refine good.moves running idle (fun _ => by rw [here]; rfl) (by rw [here]; rfl) trivial
        (fun _ => set) (by simp) fun argv0 sig c' ending shown => ?_
      rcases List.mem_append.mp shown with before | now
      · exact Or.inl before
      · cases List.mem_singleton.mp now
        exact Or.inr here
  | exited status =>
      rw [here] at went
      cases went

theorem Good.mainFails (good : Good cfg s) (running : s.ended = false)
    (idle : s.kernel.frames = []) (failed : mainFails s = some s') : Good cfg s' := by
  have exits {message : String} (catches : s.pc.catches = (Pc.exited (-1)).catches) :
      Good cfg { s.note (.perror message) with pc := .exited (-1) } := by
    refine good.proceeds running idle rfl idle rfl rfl ?_ trivial ?_ ?_ ?_ (by simp) ?_
    · rw [← catches]
      exact good.action
    · rw [catches]
      exact fun _ => id
    · exact nofun
    · exact fun reports => by simp [Pc.reporting] at reports
    · exact fun _ _ _ _ shown => Or.inl (by simpa [System.note] using shown)
  unfold SigReceiver.mainFails at failed
  split at failed
  · rename_i here
    cases failed
    exact exits (by rw [here]; rfl)
  · rename_i here
    cases failed
    exact exits (by rw [here]; rfl)
  · rename_i here
    cases failed
    exact exits (by rw [here]; rfl)
  · cases failed

theorem Good.step (good : Good cfg s) {e : Event π} (stepped : s.step cfg e = some s') :
    Good cfg s' := by
  cases e with
  | kill j ok room => exact good.kill stepped
  | other sig room =>
      simp only [System.step] at stepped
      split at stepped
      · cases stepped
      · rename_i able
        cases stepped
        exact good.other (not_or.mp able).2 room
  | deliver sig =>
      simp only [System.step] at stepped
      split at stepped
      · cases stepped
      · rename_i running
        exact good.deliver (Bool.eq_false_iff.mpr running) stepped
  | proceed =>
      simp only [System.step] at stepped
      split at stepped
      · cases stepped
      · rename_i running
        split at stepped
        · rename_i idle
          exact good.main (Bool.eq_false_iff.mpr running) idle stepped
        · rename_i runs
          exact good.sigHandler (Bool.eq_false_iff.mpr running) runs stepped
  | fail =>
      simp only [System.step] at stepped
      split at stepped
      · cases stepped
      · rename_i running
        split at stepped
        · rename_i idle
          exact good.mainFails (Bool.eq_false_iff.mpr running) idle stepped
        · cases stepped

/-! ## The receiver that is left alone -/

/-- No signal is sent, no call fails, and the program goes on only if there is nothing to
deliver.  In each state this leaves one event at most. -/
def Alone (s : System π) : Event π → Prop
  | .deliver sig => next s.kernel.deliverable = some sig
  | .proceed => next s.kernel.deliverable = none
  | _ => False

omit [DecidableEq π] in
instance decidableAlone (s : System π) : ∀ e, Decidable (Alone s e)
  | .deliver _ => inferInstanceAs (Decidable (_ = _))
  | .proceed => inferInstanceAs (Decidable (_ = _))
  | .kill .. | .other .. | .fail => isFalse id

/-- The lines of the last loop from `n` on, if no handler runs in it. -/
def lines (cfg : Config π) (sigCnt : Signo → Int) (n : Nat) : List Io :=
  ((List.finRange 65).drop n).filterMap fun sig =>
    if sigCnt sig = 0 then none
    else some (.caught cfg.argv0 sig (sigCnt sig) (if sigCnt sig = 1 then "" else "s"))

/-- `main` has not left the loop that waits for SIGINT. -/
def Pc.early : Pc → Bool
  | .report _ | .count _ | .plural _ _ | .exited _ => false
  | _ => true

/-- Nothing the receiver can catch stays blocked. -/
def Config.Open (cfg : Config π) : Prop := cfg.numSecs = none → ∀ sig, cfg.mask sig = false

/-- What is pending can be blocked; `main` has it blocked or the handler is installed. -/
def System.Safe (s : System π) : Prop :=
  ∀ sig, s.kernel.pending sig ≠ [] →
    blockable sig = true ∧ (s.kernel.base sig = true ∨ s.pc.catches sig = true)

/-- `t` has caught what was pending in `s`, and nothing else happened to it. -/
structure Keeps (cfg : Config π) (s t : System π) : Prop where
  good : Good cfg t
  killed : t.kernel.killed = none
  early : t.pc.early = true
  safe : t.Safe
  total : ∀ sig, t.caught sig ++ t.kernel.pending sig = s.caught sig ++ s.kernel.pending sig

omit [DecidableEq π] in
theorem System.running_of_early (early : s.pc.early = true) (killed : s.kernel.killed = none) :
    s.ended = false := by
  refine Kernel.ended_eq_false.mpr ⟨?_, killed⟩
  cases pc : s.pc with
  | exited status =>
      rw [pc] at early
      cases early
  | _ => rfl

theorem Keeps.running {t : System π} (keeps : Keeps cfg s t) : t.ended = false :=
  System.running_of_early keeps.early keeps.killed

def HandlerPc.left : HandlerPc → Nat
  | .entry => 3
  | .store _ => 2
  | .ret => 1

def Pc.left : Pc → Nat
  | .printPid => 73
  | .signal n => 8 + (65 - n)
  | .blockAll => 7
  | .printSleep => 6
  | .sleep => 5
  | .sigpending => 4
  | .printPending => 3
  | .unblock => 2
  | _ => 1

/-- A delivery takes one signal from the queue and adds the three steps of its handler. -/
def System.left (s : System π) : Nat :=
  4 * s.kernel.backlog + s.kernel.handling HandlerPc.left + s.pc.left

/-! ### Delivery and the handlers -/

/-- Where `main` is where it was, what was safe stays so. -/
theorem Good.safe {t : System π} (good : Good cfg s) (good' : Good cfg t) (pc : t.pc = s.pc)
    (runs : s.pc.status = none)
    (fewer : ∀ sig, t.kernel.pending sig ≠ [] → s.kernel.pending sig ≠ []) (safe : s.Safe) :
    t.Safe := by
  intro sig pending
  have base : t.kernel.base = s.kernel.base := by
    rw [good.base runs, good'.base (pc ▸ runs), pc]
  rw [base, pc]
  exact safe sig (fewer sig pending)

theorem Keeps.delivers {t : System π} (keeps : Keeps cfg s t) {sig : Signo}
    (first : next t.kernel.deliverable = some sig) :
    ∃ u, t.step cfg (.deliver sig) = some u ∧ Keeps cfg s u ∧ u.left < t.left := by
  obtain ⟨nonempty, unblocked⟩ := Bool.and_eq_true_iff.mp (Pending.ready_of_next first)
  rw [Bool.not_eq_true'] at unblocked
  cases pending : t.kernel.pending sig with
  | nil => simp [pending] at nonempty
  | cons origin rest =>
      have catches : t.pc.catches sig = true := by
        refine (keeps.safe sig (by simp [pending])).2.resolve_left fun blocked => ?_
        rw [Kernel.base, keeps.good.restore] at blocked
        rw [keeps.good.nested.blocks blocked] at unblocked
        cases unblocked
      have action := keeps.good.action sig
      rw [if_pos catches, sigHandlerAction] at action
      obtain ⟨u, delivered, pc, killed, pending', frames, caught⟩ :
          ∃ u, t.step cfg (.deliver sig) = some u ∧ u.pc = t.pc ∧
            u.kernel.killed = t.kernel.killed ∧
            u.kernel.pending = Function.update t.kernel.pending sig rest ∧
            u.kernel.frames = ⟨sig, origin, .entry, t.kernel.mask⟩ :: t.kernel.frames ∧
            u.caught = Function.update t.caught sig (t.caught sig ++ [origin]) := by
        simp only [System.step, keeps.running, Bool.false_eq_true, if_false, deliver,
          Kernel.deliver, keeps.good.wait, unblocked, pending, action, keeps.good.restore]
        exact ⟨_, rfl, rfl, rfl, rfl, rfl, rfl⟩
      have good := keeps.good.step delivered
      have runs := (Kernel.ended_eq_false.mp keeps.running).1
      refine ⟨u, delivered, ⟨good, killed.trans keeps.killed, pc ▸ keeps.early, ?_, ?_⟩, ?_⟩
      · refine keeps.good.safe good pc runs (fun other some_pending => ?_) keeps.safe
        by_cases same : other = sig
        · simp [same, pending]
        · rwa [pending', Function.update_of_ne same] at some_pending
      · intro other
        rw [← keeps.total other, pending', caught]
        by_cases same : other = sig
        · subst same
          simp [pending]
        · simp [same]
      · have queue := Kernel.backlog_take pending pending'
        have handlers := @Kernel.handling_of_frames _ _ _ _ t.kernel HandlerPc.left _ _ frames rfl
        simp only [HandlerPc.left] at handlers
        simp only [System.left, pc]
        omega

/-- What a step of a handler does not change. -/
structure Still (s t : System π) : Prop where
  pc : t.pc = s.pc
  caught : t.caught = s.caught
  pending : t.kernel.pending = s.kernel.pending
  killed : t.kernel.killed = s.kernel.killed

theorem handler_advances (running : s.ended = false)
    {frame : Frame Signo (Option π) HandlerPc} {frames : List (Frame Signo (Option π) HandlerPc)}
    (runs : s.kernel.frames = frame :: frames) :
    ∃ t, s.step cfg .proceed = some t ∧ Still s t ∧
      t.kernel.handling HandlerPc.left < s.kernel.handling HandlerPc.left := by
  have goes {pc : HandlerPc} (less : pc.left < frame.pc.left) {sigCnt : Signo → Int}
      {gotSigint : Bool} : ∃ t, some { s with
        sigCnt := sigCnt, gotSigint := gotSigint, kernel := s.kernel.goto pc } = some t ∧
        Still s t ∧ t.kernel.handling HandlerPc.left < s.kernel.handling HandlerPc.left := by
    have left := @Kernel.handling_goto _ _ _ _ HandlerPc.left _ _ runs pc
    refine ⟨_, rfl, ?_, ?_⟩
    · rw [Kernel.goto_eq runs]
      exact ⟨rfl, rfl, rfl, rfl⟩
    · show (s.kernel.goto pc).handling HandlerPc.left < s.kernel.handling HandlerPc.left
      omega
  have step : s.step cfg .proceed = sigHandler s frame.signo frame.pc := by
    simp only [System.step, running, runs, Bool.false_eq_true, if_false]
  rw [step]
  cases pc : frame.pc with
  | entry =>
      rw [sigHandler]
      split <;> exact goes (by simp [pc, HandlerPc.left])
  | store v => exact goes (by simp [pc, HandlerPc.left])
  | ret =>
      refine ⟨{ s with kernel := { s.kernel with frames := frames, mask := frame.saved } }, ?_,
        ⟨rfl, rfl, rfl, rfl⟩, ?_⟩
      · rw [sigHandler, Kernel.sigreturn, runs]
        rfl
      · have left := @Kernel.handling_of_frames _ _ _ _
          { s.kernel with frames := frames, mask := frame.saved } HandlerPc.left _ _ runs rfl
        rw [pc, HandlerPc.left] at left
        exact Nat.lt_of_succ_le left.le

theorem Keeps.handles {t : System π} (keeps : Keeps cfg s t) (busy : t.kernel.frames ≠ []) :
    ∃ u, t.step cfg .proceed = some u ∧ Keeps cfg s u ∧ u.left < t.left := by
  obtain ⟨frame, frames, runs⟩ := List.exists_cons_of_ne_nil busy
  obtain ⟨u, stepped, still, less⟩ := @handler_advances _ cfg t _ keeps.running _ _ runs
  have good := keeps.good.step stepped
  have alive := (Kernel.ended_eq_false.mp keeps.running).1
  refine ⟨u, stepped, ⟨good, still.killed.trans keeps.killed, still.pc ▸ keeps.early, ?_, ?_⟩, ?_⟩
  · exact keeps.good.safe good still.pc alive (fun sig => by rw [still.pending]; exact id)
      keeps.safe
  · intro sig
    rw [still.caught, still.pending]
    exact keeps.total sig
  · simp only [System.left, Kernel.backlog, still.pc, still.pending]
    omega

/-! ### The main program -/

/-- A step of `main` towards the loop that waits. -/
structure Nearer (cfg : Config π) (s t : System π) : Prop where
  caught : t.caught = s.caught
  pending : t.kernel.pending = s.kernel.pending
  killed : t.kernel.killed = s.kernel.killed
  idle : t.kernel.frames = s.kernel.frames
  early : t.pc.early = true
  left : t.pc.left < s.pc.left
  covers : ∀ sig, t.pc.past sig = true ∨ t.pc.base cfg = s.pc.base cfg ∧
    (s.pc.past sig = true → t.pc.past sig = true)

omit [DecidableEq π] in
theorem main_nearer (early : s.pc.early = true) (before : s.pc ≠ .spin) :
    ∃ t, main cfg s = some t ∧ Nearer cfg s t := by
  unfold main
  cases pc : s.pc with
  | printPid =>
      refine ⟨_, rfl, rfl, rfl, rfl, rfl, rfl, by simp [pc, Pc.left], fun sig => Or.inr ⟨?_, ?_⟩⟩
      · rw [pc]
        rfl
      · rw [pc]
        exact nofun
  | signal n =>
      by_cases h : n < 65
      · refine ⟨_, dif_pos h, rfl, ?_, ?_, ?_, rfl, ?_, fun sig => Or.inr ⟨?_, ?_⟩⟩
        · unfold signal
          split <;> rfl
        · unfold signal
          split <;> rfl
        · unfold signal
          split <;> rfl
        · simp only [pc, Pc.left]
          omega
        · rw [pc]
          rfl
        · simp only [pc, Pc.past, decide_eq_true_eq]
          omega
      · dsimp only
        rw [dif_neg h]
        by_cases delays : cfg.numSecs.isSome = true
        · refine ⟨_, if_pos delays, rfl, rfl, rfl, rfl, rfl, ?_, fun _ => Or.inl rfl⟩
          simp only [pc, Pc.left]
          omega
        · refine ⟨_, if_neg delays, rfl, rfl, rfl, rfl, rfl, ?_, fun _ => Or.inl rfl⟩
          simp only [pc, Pc.left]
          omega
  | blockAll | printSleep | sleep | sigpending | printPending | unblock =>
      exact ⟨_, rfl, rfl, rfl, rfl, rfl, rfl, by simp [pc, Pc.left], fun _ => Or.inl rfl⟩
  | spin => exact absurd pc before
  | report n | count n | plural n c | exited status =>
      rw [pc] at early
      cases early

/-- Signal 0 is never pending. -/
theorem Good.nonzero (good : Good cfg s) {sig : Signo} (pending : s.kernel.pending sig ≠ []) :
    sig.val ≠ 0 := by
  intro zero
  have same : sig = 0 := Fin.ext zero
  have part := good.queued.merged 0
  rw [good.zero, List.sublist_nil, List.append_eq_nil_iff] at part
  exact pending (same ▸ part.2)

theorem Keeps.moves {t : System π} (keeps : Keeps cfg s t) (idle : t.kernel.frames = [])
    (before : t.pc ≠ .spin) :
    ∃ u, t.step cfg .proceed = some u ∧ Keeps cfg s u ∧ u.left < t.left := by
  obtain ⟨u, went, nearer⟩ := @main_nearer _ cfg t keeps.early before
  have stepped : t.step cfg .proceed = some u := by
    simp only [System.step, keeps.running, idle, Bool.false_eq_true, if_false, went]
  have good := keeps.good.step stepped
  have killed := nearer.killed.trans keeps.killed
  have runs := (Kernel.ended_eq_false.mp keeps.running).1
  have runs' := (Kernel.ended_eq_false.mp (System.running_of_early nearer.early killed)).1
  refine ⟨u, stepped, ⟨good, killed, nearer.early, ?_, ?_⟩, ?_⟩
  · intro sig pending
    rw [nearer.pending] at pending
    obtain ⟨able, covered⟩ := keeps.safe sig pending
    have nonzero := keeps.good.nonzero pending
    refine ⟨able, ?_⟩
    rw [good.base runs']
    rw [keeps.good.base runs] at covered
    simp only [Pc.catches, able, nonzero, ne_eq, not_false_eq_true, decide_true, Bool.and_true,
      Bool.true_and] at covered ⊢
    rcases nearer.covers sig with past | ⟨same, past⟩
    · exact Or.inr past
    · rw [same]
      exact covered.imp_right past
  · intro sig
    rw [nearer.caught, nearer.pending]
    exact keeps.total sig
  · have left := nearer.left
    simp only [System.left, Kernel.backlog, Kernel.handling, nearer.pending, nearer.idle]
    omega

/-- The receiver comes to the loop that waits, with nothing left to deliver. -/
theorem Keeps.spins {t : System π} (keeps : Keeps cfg s t) :
    Leads (restrict (System.step cfg) Alone) t fun u => Keeps cfg s u ∧ u.pc = .spin ∧
      u.kernel.frames = [] ∧ next u.kernel.deliverable = none := by
  refine leads_of_descent _ System.left (fun u keeps more => ?_) keeps
  cases first : next u.kernel.deliverable with
  | some sig =>
      obtain ⟨v, stepped, rest⟩ := keeps.delivers first
      exact ⟨.deliver sig, v, restrict_eq_some.mpr ⟨first, stepped⟩, rest⟩
  | none =>
      by_cases idle : u.kernel.frames = []
      · obtain ⟨v, stepped, rest⟩ := keeps.moves idle fun here => more ⟨here, idle, first⟩
        exact ⟨.proceed, v, restrict_eq_some.mpr ⟨first, stepped⟩, rest⟩
      · obtain ⟨v, stepped, rest⟩ := keeps.handles idle
        exact ⟨.proceed, v, restrict_eq_some.mpr ⟨first, stepped⟩, rest⟩

omit [DecidableEq π] in
theorem lines_eq (cfg : Config π) (sigCnt : Signo → Int) {n : Nat} (h : n < 65) :
    lines cfg sigCnt n =
      (if sigCnt ⟨n, h⟩ = 0 then []
        else [.caught cfg.argv0 ⟨n, h⟩ (sigCnt ⟨n, h⟩) (if sigCnt ⟨n, h⟩ = 1 then "" else "s")]) ++
        lines cfg sigCnt (n + 1) := by
  have cut : (List.finRange 65).drop n = ⟨n, h⟩ :: (List.finRange 65).drop (n + 1) := by
    rw [List.drop_eq_getElem_cons (by simpa using h)]
    simp
  rw [lines, cut, List.filterMap_cons]
  split
  · rename_i none
    split at none
    · rename_i zero
      rw [if_pos zero]
      rfl
    · cases none
  · rename_i entry shown
    split at shown
    · cases shown
    · rename_i nonzero
      cases shown
      rw [if_neg nonzero]
      rfl

theorem alone_main {pc : Pc} (here : s.pc = pc) (on : pc.status = none)
    (alive : s.kernel.killed = none) (idle : s.kernel.frames = [])
    (quiet : next s.kernel.deliverable = none) :
    restrict (System.step cfg) Alone s .proceed = main cfg s := by
  have running : s.ended = false := Kernel.ended_eq_false.mpr ⟨here ▸ on, alive⟩
  rw [restrict, if_pos (show Alone s .proceed from quiet)]
  simp only [System.step, running, idle, Bool.false_eq_true, if_false]

/-- The last loop prints the lines from `n` on. -/
theorem prints_lines {n : Nat} (here : s.pc = .report n) (idle : s.kernel.frames = [])
    (alive : s.kernel.killed = none) (quiet : next s.kernel.deliverable = none) :
    Leads (restrict (System.step cfg) Alone) s fun t => t.pc = .exited 0 ∧
      t.sigCnt = s.sigCnt ∧ t.out = s.out ++ lines cfg s.sigCnt n := by
  induction left : 65 - n generalizing s n with
  | zero =>
      have done : ¬ n < 65 := by omega
      have nothing : lines cfg s.sigCnt n = [] := by
        rw [lines, List.drop_eq_nil_of_le (by simpa using Nat.le_of_not_lt done)]
        rfl
      have exits : restrict (System.step cfg) Alone s .proceed =
          some { s with pc := .exited 0 } := by
        rw [alone_main here rfl alive idle quiet, main, here]
        exact dif_neg done
      exact leads_step _ exits (leads_here ⟨rfl, rfl, by rw [nothing, List.append_nil]⟩)
  | succ left ih =>
      have h : n < 65 := by omega
      rw [lines_eq cfg s.sigCnt h]
      by_cases zero : s.sigCnt ⟨n, h⟩ = 0
      · have skips : restrict (System.step cfg) Alone s .proceed =
            some { s with pc := .report (n + 1) } := by
          rw [alone_main here rfl alive idle quiet, main, here]
          simp [h, zero]
        rw [if_pos zero, List.nil_append]
        exact leads_step _ skips (ih rfl idle alive quiet (by omega))
      · -- the test, the first argument, and the rest of the call
        have tests : restrict (System.step cfg) Alone s .proceed =
            some { s with pc := .count ⟨n, h⟩ } := by
          rw [alone_main here rfl alive idle quiet, main, here]
          simp [h, zero]
        have counts : restrict (System.step cfg) Alone { s with pc := .count ⟨n, h⟩ } .proceed =
            some { s with pc := .plural ⟨n, h⟩ (s.sigCnt ⟨n, h⟩) } :=
          alone_main rfl rfl alive idle quiet
        have prints : restrict (System.step cfg) Alone
            { s with pc := .plural ⟨n, h⟩ (s.sigCnt ⟨n, h⟩) } .proceed =
            some { s with
              pc := .report (n + 1)
              out := s.out ++ [.caught cfg.argv0 ⟨n, h⟩ (s.sigCnt ⟨n, h⟩)
                (if s.sigCnt ⟨n, h⟩ = 1 then "" else "s")] } :=
          alone_main rfl rfl alive idle quiet
        rw [if_neg zero, ← List.append_assoc]
        exact leads_step _ tests (leads_step _ counts (leads_step _ prints
          (ih rfl idle alive quiet (by omega))))

/-- In the loop that waits nothing is blocked, so nothing is pending. -/
theorem Keeps.drained {t : System π} (keeps : Keeps cfg s t) (unmasked : cfg.Open)
    (here : t.pc = .spin) (idle : t.kernel.frames = [])
    (quiet : next t.kernel.deliverable = none) (sig : Signo) : t.kernel.pending sig = [] := by
  have base : Pc.spin.base cfg = if cfg.numSecs.isSome then fun _ => false
      else fun sig => cfg.mask sig && blockable sig := rfl
  have unblocked : t.kernel.mask sig = false := by
    rw [keeps.good.mask keeps.running idle, here, base]
    split
    · rfl
    · rename_i absent
      simp [unmasked (by simpa using absent) sig]
  have nothing := Pending.next_eq_none.mp quiet sig
  simpa [Kernel.deliverable, unblocked] using nothing

/-- A receiver to which SIGINT was sent comes to its end, with all signals counted that were
pending. -/
theorem Good.finishes (good : Good cfg s) (running : s.ended = false) (early : s.pc.early = true)
    (unmasked : cfg.Open) (safe : s.Safe)
    (interrupted : s.caught sigint ++ s.kernel.pending sigint ≠ []) :
    Leads (restrict (System.step cfg) Alone) s fun t => t.pc = .exited 0 ∧
      lines cfg t.sigCnt 1 <:+ t.out ∧ ∀ sig, sig ≠ sigint →
        t.sigCnt sig = wrap32 ((s.caught sig).length + (s.kernel.pending sig).length : Nat) := by
  have start : Keeps cfg s s :=
    ⟨good, (Kernel.ended_eq_false.mp running).2, early, safe, fun _ => rfl⟩
  refine start.spins.trans fun t ⟨keeps, here, idle, quiet⟩ => ?_
  -- all has been caught, SIGINT too, and no handler runs
  have total (sig : Signo) : t.caught sig = s.caught sig ++ s.kernel.pending sig := by
    have all := keeps.total sig
    rwa [keeps.drained unmasked here idle quiet, List.append_nil] at all
  have set : t.gotSigint = true := by
    rw [← total sigint] at interrupted
    refine (keeps.good.flagged interrupted).resolve_right fun ⟨frame, runs, _⟩ => ?_
    rw [idle] at runs
    cases runs
  have leaves : restrict (System.step cfg) Alone t .proceed = some { t with pc := .report 1 } := by
    rw [alone_main here rfl keeps.killed idle quiet, SigReceiver.main, here]
    exact if_pos set
  have printing :=
    @prints_lines _ cfg { t with pc := .report 1 } _ 1 rfl idle keeps.killed quiet
  refine leads_step _ leaves (printing.trans fun u ⟨exited, counters, out⟩ =>
    leads_here ⟨exited, ?_, fun sig other => ?_⟩)
  · rw [out, counters]
    exact List.suffix_append _ _
  · obtain ⟨k, sum, count⟩ := keeps.good.counts sig other
    rw [idle, total sig, List.length_append] at sum
    rw [counters, ← sum]
    exact count

end Kept

/-- **No signal is counted wrong.**  Whatever is sent and however the handlers interrupt
`main` and each other: no handler runs twice for one signal at a time, so a counter holds
the number of the signals caught, but for one whose handler has not stored yet.  What was
caught is, in order, part of what arrived, and for a real-time signal that always found room
in the queue all of it but what came before the handler was installed or is pending; of
signals that do not queue at most one is pending.  Every line that is printed has a number
the counter has held, and the receiver exits with 0 only after SIGINT.  Left alone once
SIGINT was sent, with nothing pending that would end or stop it, the receiver prints and
exits, with all counted that was pending. -/
theorem signals_counted {π : Type} [DecidableEq π] {cfg : Config π} {es : List (Event π)}
    {s : System π} (reached : run (System.step cfg) (start cfg) es = some s) :
    (∀ sig, sig ≠ sigint → ∃ k : Nat, k + counting s.kernel.frames sig = (s.caught sig).length ∧
      counting s.kernel.frames sig ≤ 1 ∧ s.sigCnt sig = wrap32 k) ∧
    (∀ sig, (s.lost sig ++ s.caught sig ++ s.kernel.pending sig).Sublist (s.arrived sig) ∧
      (queues sig = true → s.crowded sig = false →
        s.arrived sig = s.lost sig ++ s.caught sig ++ s.kernel.pending sig) ∧
      (queues sig = false → (s.kernel.pending sig).length ≤ 1)) ∧
    (s.ended = false → ∀ j sig, sig.val ≠ 0 →
      (s.arrived sig).count (some j) = cfg.sent j (s.i j) sig) ∧
    (∀ argv0 sig c ending, .caught argv0 sig c ending ∈ s.out →
      ∃ k ≤ (s.caught sig).length, c = wrap32 k) ∧
    (s.pc = .exited 0 → s.caught sigint ≠ []) ∧
    (s.ended = false → s.pc.early = true → cfg.Open → s.Safe →
      s.caught sigint ++ s.kernel.pending sigint ≠ [] →
      Leads (restrict (System.step cfg) Alone) s fun t => t.pc = .exited 0 ∧
        lines cfg t.sigCnt 1 <:+ t.out ∧ ∀ sig, sig ≠ sigint →
          t.sigCnt sig = wrap32 ((s.caught sig).length + (s.kernel.pending sig).length : Nat)) := by
  have good : Good cfg s :=
    run_invariant _ (Good cfg) (fun _ _ _ good => good.step) (start_good cfg) reached
  refine ⟨fun sig other => ?_, fun sig => ⟨good.queued.merged sig, fun rt uncrowded => ?_,
    good.queued.single sig⟩, good.sent, good.printed, fun exited => ?_,
    fun running early unmasked safe => good.finishes running early unmasked safe⟩
  · obtain ⟨k, sum, count⟩ := good.counts sig other
    exact ⟨k, sum, counting_le_one good.nested sig, count⟩
  · exact good.queued.exact sig (by simp [rt, uncrowded])
  · exact good.flag (good.reporting (by rw [exited]; rfl))

/-- One sender sends the last real-time signal twice and then SIGINT, while the receiver has
all signals blocked from the start. -/
def blocked : Config Unit :=
  ⟨"sig_receiver", 100, some 5, fun _ => true, fun _ => true, fun _ => "",
    fun _ => ⟨2, Fin.last 64, some sigint⟩⟩

theorem signals_counted_blocked : ∃ s,
    run (System.step blocked) (start blocked) (List.replicate 3 (.kill () true true)) = some s ∧
      Leads (restrict (System.step blocked) Alone) s fun t => t.pc = .exited 0 ∧
        lines blocked t.sigCnt 1 <:+ t.out ∧ t.sigCnt (Fin.last 64) = 2 := by
  obtain ⟨-, -, -, -, -, finishes⟩ := signals_counted
    (rfl : run (System.step blocked) (start blocked) (List.replicate 3 (.kill () true true)) =
      some _)
  obtain ⟨es, t, reached, exited, shown, counts⟩ :=
    finishes rfl rfl nofun (by unfold System.Safe; decide +kernel) (by decide +kernel)
  have counted := counts (Fin.last 64) (by decide)
  exact ⟨_, rfl, es, t, reached, exited, shown, counted.trans (by decide +kernel)⟩

end UnixDemos.Signal.SigReceiver
