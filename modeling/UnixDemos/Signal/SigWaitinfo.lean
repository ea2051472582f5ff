/-
# Signal.SigWaitinfo — rt_signal.c sends, sig_waitinfo.c receives

Any number of `rt_signal` processes send to one `sig_waitinfo`: each queues its signal
`numSigs` times with the values `sigData`, `sigData + 1` and so on, and gives up at the
first `sigqueue` that fails.  The receiver blocks all signals, sleeps if it was told to,
and then takes the signals one by one with `sigwaitinfo`, in the kernel's order; SIGINT and
SIGTERM make it exit.  Other processes send signals too, with `kill`.

Until the receiver has blocked them, signals are delivered by their dispositions, which
it inherits: `ends` says which end it.  What was delivered without ending it is in
`lost`.  If there is no room to queue a signal, `sigqueue` fails for a real-time signal and
sends another one without its information; a real-time signal of `kill` that there is no
room for is left out.  The arguments are those after `atoi`, and both programs get as far as
their loops; the name `strsignal` has for a number is left out.
-/
import UnixDemos.Library.Stream
import UnixDemos.Signal.Pending

namespace UnixDemos.Signal.SigWaitinfo

open UnixDemos.Library
open RtSigRecv (Signo Siginfo sigint sigterm queues blockable codeName)
open Pending (next discards)

set_option autoImplicit false

/-! ## State -/

/-- A process that runs rt_signal.c. -/
structure Sender where
  pid : Int
  uid : Int
  sig : Signo
  sigData : Int
  numSigs : Int

inductive Pc where
  | block
  | printBlocked
  | printDelay
  | sleep
  | printFinished
  | sigwaitinfo
  | exited (status : Int)
  deriving DecidableEq, Repr

def Pc.status : Pc → Option Int
  | .exited status => some status
  | _ => none

inductive Io where
  | got (sig : Signo) (si : Siginfo) (code : String)
  | printf (format : String) (args : List String)
  | perror (message : String)
  deriving DecidableEq, Repr

structure System (π : Type) where
  argv : List String
  pc : Pc
  kernel : Kernel Signo Siginfo Unit
  log : List Io
  /-- `i` in each sender, and whether it has given up. -/
  i : π → Nat
  failed : π → Bool
  arrived : Signo → List Siginfo
  lost : Signo → List Siginfo

/-- What becomes of a `sigqueue`; `marked` is a signal without its information. -/
inductive Outcome where
  | queued
  | marked
  | failed
  deriving DecidableEq, Repr

inductive Event (π : Type) where
  | sigqueue (j : π) (outcome : Outcome)
  | kill (sig : Signo) (si : Siginfo)
  | deliver (sig : Signo)
  | proceed
  | take
  | fail
  deriving DecidableEq

/-! ## Steps -/

section Steps

variable {π : Type} [DecidableEq π] (senders : π → Sender) (s : System π)

namespace System

def note (entry : Io) : System π := { s with log := s.log ++ [entry] }

def ended : Bool := s.kernel.ended s.pc.status

def arrive (sig : Signo) (si : Siginfo) : System π :=
  { s with
    kernel := (s.kernel.discard (discards sig)).arrive queues sig si
    arrived := Function.update s.arrived sig (s.arrived sig ++ [si]) }

end System

/-- What comes with the signal of `sigqueue`; `SI_QUEUE` is -1. -/
def Sender.info (p : Sender) (i : Nat) : Siginfo := ⟨-1, wrap32 (p.sigData + i), p.pid, p.uid⟩

/-- What `siginfo_t` holds if the information was lost; `SI_USER` is 0. -/
def lostInfo : Siginfo := ⟨0, 0, 0, 0⟩

/-- The signal of a `sigqueue` that succeeds; signal 0 is only checked for. -/
def System.send (p : Sender) (i : Nat) : Outcome → Option (System π)
  | .queued => some (if p.sig.val = 0 then s else s.arrive p.sig (p.info i))
  | .marked =>
      if queues p.sig = true ∨ p.sig.val = 0 then none else some (s.arrive p.sig lostInfo)
  | .failed => none

/-- The body of the loop of rt_signal.c.  A receiver that has ended takes no signal, but
`sigqueue` may still succeed. -/
def sigqueue (j : π) (outcome : Outcome) : Option (System π) :=
  let p := senders j
  if s.failed j = false ∧ s.i j < p.numSigs then
    if outcome = .failed then some { s with failed := Function.update s.failed j true }
    else
      let sent := if s.ended then some s else s.send p (s.i j) outcome
      sent.map fun s => { s with i := Function.update s.i j (s.i j + 1) }
  else none

/-- The receiver up to its loop. -/
def main : Option (System π) :=
  match s.pc with
  | .block =>
      some { s with kernel := s.kernel.sigprocmask blockable fun _ => true, pc := .printBlocked }
  | .printBlocked =>
      let s := s.note (.printf "%s: all signal blocked\n" (s.argv.take 1))
      if 1 < s.argv.length then some { s with pc := .printDelay }
      else some { s with pc := .sigwaitinfo }
  | .printDelay =>
      let s := s.note (.printf "%s: about to delay %s seconds\n" (s.argv.take 2))
      some { s with pc := .sleep }
  | .sleep => some { s with pc := .printFinished }
  | .printFinished =>
      let s := s.note (.printf "%s: finished delay\n" (s.argv.take 1))
      some { s with pc := .sigwaitinfo }
  | .sigwaitinfo | .exited _ => none

/-- The signals `sigwaitinfo` can return: the set has all that a process can block. -/
def System.waiting (sig : Signo) : Bool := blockable sig && !(s.kernel.pending sig).isEmpty

/-- `sigwaitinfo` returns. -/
def take : Option (System π) :=
  if s.pc = .sigwaitinfo then
    match next s.waiting with
    | none => none
    | some sig =>
        match s.kernel.sigwaitinfo sig with
        | none => none
        | some (si, kernel) =>
            let s := { s with kernel := kernel }
            if sig = sigint ∨ sig = sigterm then
              some { s.note (.printf "terminating\n" []) with pc := .exited 0 }
            else some (s.note (.got sig si (codeName si.siCode)))
  else none

def mainFails : Option (System π) :=
  match s.pc with
  | .block => some { s.note (.perror "sigprocmask error") with pc := .exited (-1) }
  | .sigwaitinfo => some { s.note (.perror "sigwaitinfo error") with pc := .exited (-1) }
  | _ => none

def deliver (sig : Signo) : Option (System π) :=
  match s.kernel.deliver blockable () sig with
  | none => none
  | some kernel =>
      some { s with
        kernel := kernel
        lost := Function.update s.lost sig (s.lost sig ++ (s.kernel.pending sig).take 1) }

/-- `kill` and the terminal never say `SI_QUEUE`. -/
def System.step : Event π → Option (System π)
  | .sigqueue j outcome => sigqueue senders s j outcome
  | .kill sig si =>
      if s.ended = false ∧ sig.val ≠ 0 ∧ si.siCode ≠ -1 then some (s.arrive sig si) else none
  | .deliver sig => if s.ended then none else deliver s sig
  | .proceed => if s.ended then none else main s
  | .take => if s.ended then none else take s
  | .fail => if s.ended then none else mainFails s

end Steps

/-- The receiver before it blocks the signals, and the senders before their loops. -/
def start (π : Type) (argv : List String) (mask ends : Signo → Bool) : System π where
  argv := argv
  pc := .block
  kernel := ⟨fun sig => mask sig && blockable sig, fun _ => [],
    fun sig => if ends sig then .terminate else .stop, [], .running, none, none⟩
  log := []
  i := fun _ => 0
  failed := fun _ => false
  arrived := fun _ => []
  lost := fun _ => []

/-- What the receiver has printed for a signal. -/
def Io.info (sig : Signo) : Io → Option Siginfo
  | .got sig' si _ => if sig' = sig then some si else none
  | _ => none

def printed (sig : Signo) (log : List Io) : List Siginfo := log.filterMap (Io.info sig)

theorem printed_snoc (sig : Signo) (log : List Io) (entry : Io) :
    printed sig (log ++ [entry]) = printed sig log ++ (entry.info sig).toList :=
  filterMap_snoc ..

/-- A signal that was queued by a sender. -/
def Sender.sent (p : Sender) (si : Siginfo) : Bool := si.siCode = -1 ∧ si.siPid = p.pid

/-! ## What every step keeps -/

structure Good {π : Type} (senders : π → Sender) (ends : Signo → Bool) (s : System π) :
    Prop where
  queued : Kernel.Queued queues queues s.kernel s.arrived fun sig =>
    s.lost sig ++ printed sig s.log
  sent : ∀ j, queues (senders j).sig = true → ∃ n ≤ s.i j, (s.ended = false → n = s.i j) ∧
    (s.arrived (senders j).sig).filter (senders j).sent = (List.range n).map (senders j).info
  action : s.kernel.action = fun sig => if ends sig then .terminate else .stop
  masked : s.ended = false → s.pc ≠ .block → ∀ sig, s.kernel.mask sig = blockable sig
  able : ∀ sig, s.kernel.mask sig = true → blockable sig = true
  silent : ∀ sig, printed sig s.log ≠ [] → blockable sig = true ∧ s.pc ≠ .block
  kept : ∀ sig, ends sig = true → s.kernel.killed = none → s.lost sig = []

section Kept

variable {π : Type} {senders : π → Sender} {ends : Signo → Bool} {s s' : System π}

theorem start_good (senders : π → Sender) (argv : List String) (mask ends : Signo → Bool) :
    Good senders ends (start π argv mask ends) where
  queued := ⟨fun _ _ => rfl, fun _ => List.Sublist.refl _, fun _ _ => Nat.zero_le 1⟩
  sent _ _ := ⟨0, Nat.le_refl _, fun _ => rfl, rfl⟩
  action := rfl
  masked _ later := absurd rfl later
  able _ blocked := (Bool.and_eq_true_iff.mp blocked).2
  silent _ shown := absurd rfl shown
  kept _ _ _ := rfl

/-- While the receiver runs it gets all that is sent. -/
theorem Good.sent_running (good : Good senders ends s) (running : s.ended = false) (j : π)
    (rt : queues (senders j).sig = true) :
    (s.arrived (senders j).sig).filter (senders j).sent =
      (List.range (s.i j)).map (senders j).info := by
  obtain ⟨n, -, all, sent⟩ := good.sent j rt
  rw [sent, all running]

/-- A step of the receiver itself, or a signal that no sender has queued. -/
theorem Good.sent_kept (good : Good senders ends s) (running : s.ended = false)
    (i : s'.i = s.i) (arrived : ∀ j, (s'.arrived (senders j).sig).filter (senders j).sent =
      (s.arrived (senders j).sig).filter (senders j).sent) :
    ∀ j, queues (senders j).sig = true → ∃ n ≤ s'.i j, (s'.ended = false → n = s'.i j) ∧
      (s'.arrived (senders j).sig).filter (senders j).sent =
        (List.range n).map (senders j).info := by
  intro j rt
  rw [i, arrived]
  exact ⟨_, Nat.le_refl _, fun _ => rfl, good.sent_running running j rt⟩

/-- A signal arrives that sender `j` did not queue. -/
theorem sent_arrive_other {p : Sender} {arrived : Signo → List Siginfo} {sig : Signo}
    {si : Siginfo} (foreign : p.sent si = false) (other : Signo) :
    (Function.update arrived sig (arrived sig ++ [si]) other).filter p.sent =
      (arrived other).filter p.sent := by
  by_cases same : other = sig
  · subst same
    rw [Function.update_self, List.filter_append]
    simp [foreign]
  · rw [Function.update_of_ne same]

/-- A signal arrives, and `i` says what the senders have sent. -/
theorem Good.arrive (good : Good senders ends s) {sig : Signo} {si : Siginfo} {i : π → Nat}
    (sent : ∀ j, queues (senders j).sig = true →
      ((s.arrive sig si).arrived (senders j).sig).filter (senders j).sent =
        (List.range (i j)).map (senders j).info) :
    Good senders ends { s.arrive sig si with i := i } where
  queued := (good.queued.discard fun _ => Pending.discards_eq_false_of_queues).arrive queues sig
    si (fun _ => id) id id
  sent j rt := ⟨_, Nat.le_refl _, fun _ => rfl, sent j rt⟩
  action := good.action
  masked := good.masked
  able := good.able
  silent := good.silent
  kept := good.kept

/-- A signal that was not sent with `sigqueue`, or has lost its information. -/
theorem Good.kill (good : Good senders ends s) (running : s.ended = false) {sig : Signo}
    {si : Siginfo} (code : si.siCode ≠ -1) : Good senders ends (s.arrive sig si) := by
  refine good.arrive fun j rt => ?_
  have foreign : (senders j).sent si = false := by simp [Sender.sent, code]
  exact (sent_arrive_other foreign _).trans (good.sent_running running j rt)

/-- The process ids of the senders tell their signals apart. -/
def Distinct (senders : π → Sender) : Prop :=
  ∀ j k, (senders j).pid = (senders k).pid → j = k

theorem sent_info_of_ne (distinct : Distinct senders) {j k : π} (other : k ≠ j) (i : Nat) :
    (senders k).sent ((senders j).info i) = false := by
  have differ : (senders j).pid ≠ (senders k).pid := fun same => other (distinct j k same).symm
  simp [Sender.sent, Sender.info, differ]

theorem sent_info (p : Sender) (i : Nat) : p.sent (p.info i) = true := by
  simp [Sender.sent, Sender.info]

/-- What a `sigqueue` in sender `j` does. -/
theorem sigqueue_cases [DecidableEq π] {j : π} {outcome : Outcome}
    (queued : sigqueue senders s j outcome = some s') :
    s' = { s with failed := Function.update s.failed j true } ∨
      (s.ended = true ∧ s' = { s with i := Function.update s.i j (s.i j + 1) }) ∨
      s.ended = false ∧ ∃ t, s.send (senders j) (s.i j) outcome = some t ∧
        s' = { t with i := Function.update t.i j (t.i j + 1) } := by
  simp only [SigWaitinfo.sigqueue] at queued
  split at queued
  · split at queued
    · exact Or.inl (Option.some.inj queued).symm
    · obtain ⟨t, sent, rfl⟩ := Option.map_eq_some_iff.mp queued
      cases ended : s.ended with
      | true =>
          rw [ended] at sent
          cases sent
          exact Or.inr (Or.inl ⟨rfl, rfl⟩)
      | false =>
          rw [ended] at sent
          exact Or.inr (Or.inr ⟨rfl, t, sent, rfl⟩)
  · cases queued

/-- A sender may count one call more where it sends no real-time signal, or to a receiver
that has ended. -/
theorem Good.counts [DecidableEq π] (good : Good senders ends s) {j : π}
    (unheard : queues (senders j).sig = true → s.ended = true) :
    Good senders ends { s with i := Function.update s.i j (s.i j + 1) } := by
  refine { good with sent := fun k rt => ?_ }
  obtain ⟨n, within, all, sent⟩ := good.sent k rt
  by_cases same : k = j
  · subst same
    refine ⟨n, ?_, fun running => ?_, sent⟩
    · simp only [Function.update_self]
      omega
    · have running : s.ended = false := running
      rw [unheard rt] at running
      cases running
  · refine ⟨n, ?_, fun running => ?_, sent⟩
    · simpa only [Function.update_of_ne same] using within
    · simpa only [Function.update_of_ne same] using all running

theorem Good.sigqueue [DecidableEq π] (good : Good senders ends s)
    (distinct : Distinct senders) {j : π} {outcome : Outcome}
    (queued : sigqueue senders s j outcome = some s') : Good senders ends s' := by
  rcases sigqueue_cases queued with rfl | ⟨ended, rfl⟩ | ⟨running, t, sent, rfl⟩
  · exact { good with }
  · exact good.counts fun _ => ended
  · cases outcome with
    | queued =>
        cases sent
        by_cases zero : (senders j).sig.val = 0
        · simp only [zero, if_true]
          exact good.counts fun rt => by simp [queues, zero] at rt
        · simp only [zero, if_false]
          refine good.arrive fun k rt => ?_
          have before := good.sent_running running k rt
          by_cases same : k = j
          · subst same
            simp only [System.arrive, Function.update_self, List.filter_append, before,
              List.range_succ, List.map_append]
            simp [sent_info]
          · rw [Function.update_of_ne same]
            exact (sent_arrive_other (sent_info_of_ne distinct same _) _).trans before
    | marked =>
        simp only [System.send] at sent
        split at sent <;> cases sent
        rename_i able
        exact (good.kill running (by decide)).counts fun rt => absurd (Or.inl rt) able
    | failed => cases sent

/-- The receiver goes on, with nothing taken from the kernel. -/
theorem Good.goto (good : Good senders ends s) (running : s.ended = false) {log : List Io} {pc : Pc}
    {kernel : Kernel Signo Siginfo Unit} (pending : kernel.pending = s.kernel.pending)
    (action : kernel.action = s.kernel.action) (killed : kernel.killed = s.kernel.killed)
    (mask : pc.status = none → ∀ sig, kernel.mask sig = blockable sig)
    (able : ∀ sig, kernel.mask sig = true → blockable sig = true)
    (shown : ∀ sig, printed sig log = printed sig s.log) (later : pc ≠ .block) :
    Good senders ends { s with log := log, pc := pc, kernel := kernel } where
  queued := by
    simp only [shown]
    exact good.queued.congr pending
  sent := good.sent_kept running rfl fun _ => rfl
  action := action.trans good.action
  masked running _ := mask (Kernel.ended_eq_false.mp running).1
  able := able
  silent sig some_printed := by
    rw [shown] at some_printed
    exact ⟨(good.silent sig some_printed).1, later⟩
  kept sig dies alive := good.kept sig dies (killed.symm.trans alive)

theorem Good.main (good : Good senders ends s) (running : s.ended = false)
    (went : main s = some s') : Good senders ends s' := by
  have quiet (format : String) (args : List String) (sig : Signo) :
      printed sig (s.log ++ [.printf format args]) = printed sig s.log := by
    rw [printed_snoc]
    exact List.append_nil _
  unfold SigWaitinfo.main at went
  cases here : s.pc with
  | block =>
      rw [here] at went
      cases went
      exact good.goto running rfl rfl rfl (fun _ sig => by simp [Kernel.sigprocmask])
        (fun sig => by simp [Kernel.sigprocmask]) (fun _ => rfl) nofun
  | printBlocked =>
      have masked := good.masked running (by simp [here])
      rw [here] at went
      dsimp only at went
      split at went <;> cases went
      · exact good.goto running rfl rfl rfl (fun _ => masked) good.able (quiet _ _) nofun
      · exact good.goto running rfl rfl rfl (fun _ => masked) good.able (quiet _ _) nofun
  | printDelay | printFinished =>
      rw [here] at went
      cases went
      exact good.goto running rfl rfl rfl (fun _ => good.masked running (by simp [here]))
        good.able (quiet _ _) nofun
  | sleep =>
      rw [here] at went
      cases went
      exact good.goto running rfl rfl rfl (fun _ => good.masked running (by simp [here]))
        good.able (fun _ => rfl) nofun
  | sigwaitinfo | exited status =>
      rw [here] at went
      cases went

theorem Good.mainFails (good : Good senders ends s) (running : s.ended = false)
    (failed : mainFails s = some s') : Good senders ends s' := by
  have quiet (message : String) (sig : Signo) :
      printed sig (s.log ++ [.perror message]) = printed sig s.log := by
    rw [printed_snoc]
    exact List.append_nil _
  unfold SigWaitinfo.mainFails at failed
  split at failed <;> cases failed <;>
    exact good.goto running rfl rfl rfl nofun good.able (quiet _) nofun

/-- `sigwaitinfo` returns a signal that ends the receiver, or one that it prints. -/
theorem take_cases (taken : take s = some s') :
    s.pc = .sigwaitinfo ∧ ∃ sig si rest, next s.waiting = some sig ∧ blockable sig = true ∧
      s.kernel.pending sig = si :: rest ∧
      ((sig = sigint ∨ sig = sigterm) ∧ s' = { s with
          kernel := { s.kernel with pending := Function.update s.kernel.pending sig rest }
          log := s.log ++ [.printf "terminating\n" []]
          pc := .exited 0 } ∨
        s' = { s with
          kernel := { s.kernel with pending := Function.update s.kernel.pending sig rest }
          log := s.log ++ [.got sig si (codeName si.siCode)] }) := by
  unfold SigWaitinfo.take at taken
  split at taken
  · rename_i here
    refine ⟨here, ?_⟩
    split at taken
    · cases taken
    · rename_i sig first
      have able := (Bool.and_eq_true_iff.mp (Pending.ready_of_next first)).1
      split at taken
      · cases taken
      · rename_i si kernel got
        obtain ⟨rest, pending, rfl⟩ := Kernel.sigwaitinfo_eq_some.mp got
        refine ⟨sig, si, rest, first, able, pending, ?_⟩
        dsimp only at taken
        split at taken <;> cases taken
        · rename_i stops
          exact Or.inl ⟨stops, rfl⟩
        · exact Or.inr rfl
  · cases taken

theorem Good.take (good : Good senders ends s) (running : s.ended = false)
    (taken : take s = some s') : Good senders ends s' := by
  obtain ⟨here, sig, si, rest, -, able, pending, ⟨stops, rfl⟩ | rfl⟩ := take_cases taken
  · have merges : queues sig = false := by
      rcases stops with rfl | rfl <;> rfl
    have quiet (other : Signo) :
        printed other (s.log ++ [.printf "terminating\n" []]) = printed other s.log := by
      rw [printed_snoc]
      exact List.append_nil _
    exact {
      queued := by
        simp only [quiet]
        exact good.queued.forget merges pending rfl
      sent := good.sent_kept running rfl fun _ => rfl
      action := good.action
      masked := nofun
      able := good.able
      silent := fun other shown => by
        simp only [quiet] at shown
        exact ⟨(good.silent other shown).1, nofun⟩
      kept := good.kept }
  · exact {
      queued := by
        have gone : (fun other => s.lost other ++
            printed other (s.log ++ [.got sig si (codeName si.siCode)])) =
            Function.update (fun other => s.lost other ++ printed other s.log) sig
              (s.lost sig ++ printed sig s.log ++ [si]) := by
          funext other
          by_cases same : other = sig
          · subst same
            simp [printed_snoc, Io.info]
          · simp [printed_snoc, Io.info, same, Ne.symm same]
        simp only [gone]
        exact good.queued.take pending rfl
      sent := good.sent_kept running rfl fun _ => rfl
      action := good.action
      masked := fun _ _ => good.masked running (by simp [here])
      able := good.able
      silent := fun other shown => by
        refine ⟨?_, by simp [here]⟩
        by_cases same : other = sig
        · exact same ▸ able
        · simp only [printed_snoc, Io.info, if_neg (Ne.symm same), Option.toList_none,
            List.append_nil] at shown
          exact (good.silent other shown).1
      kept := good.kept }

theorem Good.deliver (good : Good senders ends s) (running : s.ended = false) {sig : Signo}
    (delivered : deliver s sig = some s') : Good senders ends s' := by
  unfold SigWaitinfo.deliver at delivered
  split at delivered
  · cases delivered
  · rename_i kernel went
    cases delivered
    obtain ⟨-, unblocked, info, rest, pending, delivery⟩ := Kernel.deliver_effect went
    -- a signal that is still delivered has never been printed
    have unprinted : printed sig s.log = [] := by
      by_contra shown
      obtain ⟨able, later⟩ := good.silent sig shown
      rw [good.masked running later, able] at unblocked
      cases unblocked
    have first : (s.kernel.pending sig).take 1 = [info] := by rw [pending]; rfl
    have gone : (fun other =>
        Function.update s.lost sig (s.lost sig ++ (s.kernel.pending sig).take 1) other ++
          printed other s.log) =
        Function.update (fun other => s.lost other ++ printed other s.log) sig
          (s.lost sig ++ printed sig s.log ++ [info]) := by
      funext other
      by_cases same : other = sig
      · subst same
        simp [first, unprinted]
      · simp [same]
    have queued {k : Kernel Signo Siginfo Unit}
        (taken : k.pending = Function.update s.kernel.pending sig rest) :
        Kernel.Queued queues queues k s.arrived fun other =>
          Function.update s.lost sig (s.lost sig ++ (s.kernel.pending sig).take 1) other ++
            printed other s.log := by
      rw [gone]
      exact good.queued.take pending taken
    cases delivery with
    | terminates action =>
        refine ⟨queued rfl, good.sent_kept running rfl fun _ => rfl, good.action,
          fun alive => ?_, good.able, good.silent, nofun⟩
        cases (Kernel.ended_eq_false.mp alive).2
    | stops action =>
        refine ⟨queued rfl, good.sent_kept running rfl fun _ => rfl, good.action, good.masked,
          good.able, good.silent, ?_⟩
        intro other dies alive
        have differ : other ≠ sig := by
          rintro rfl
          rw [good.action] at action
          simp [dies] at action
        simp only [Function.update_of_ne differ]
        exact good.kept other dies alive
    | starts action =>
        rw [good.action] at action
        dsimp only at action
        split at action <;> cases action

variable [DecidableEq π]

theorem Good.step (good : Good senders ends s) (distinct : Distinct senders) {e : Event π}
    (stepped : s.step senders e = some s') : Good senders ends s' := by
  cases e with
  | sigqueue j outcome => exact good.sigqueue distinct stepped
  | kill sig si =>
      simp only [System.step] at stepped
      split at stepped <;> cases stepped
      rename_i able
      exact good.kill able.1 able.2.2
  | deliver sig =>
      simp only [System.step] at stepped
      split at stepped
      · cases stepped
      · rename_i running
        exact good.deliver (Bool.eq_false_iff.mpr running) stepped
  | proceed =>
      simp only [System.step] at stepped
      split at stepped
      · cases stepped
      · rename_i running
        exact good.main (Bool.eq_false_iff.mpr running) stepped
  | take =>
      simp only [System.step] at stepped
      split at stepped
      · cases stepped
      · rename_i running
        exact good.take (Bool.eq_false_iff.mpr running) stepped
  | fail =>
      simp only [System.step] at stepped
      split at stepped
      · cases stepped
      · rename_i running
        exact good.mainFails (Bool.eq_false_iff.mpr running) stepped

omit [DecidableEq π] in
theorem Good.delivered_values (good : Good senders ends s) {j : π}
    (rt : queues (senders j).sig = true) (dies : ends (senders j).sig = true)
    (alive : s.kernel.killed = none) :
    ∃ n ≤ s.i j, (s.ended = false → n = s.i j) ∧
      ((printed (senders j).sig s.log ++ s.kernel.pending (senders j).sig).filter
        (senders j).sent).map Siginfo.siValue =
          (List.range n).map fun i : Nat => wrap32 ((senders j).sigData + i) := by
  obtain ⟨n, within, running, sent⟩ := good.sent j rt
  have all := good.queued.exact _ rt
  rw [good.kept _ dies alive, List.nil_append] at all
  refine ⟨n, within, running, ?_⟩
  rw [← all, sent, List.map_map]
  rfl

/-! ## The receiver can take all that is queued -/

/-- The receiver runs, nothing can be delivered to it or end it, and the senders stand where
they stood in `s`. -/
structure Reads (senders : π → Sender) (ends : Signo → Bool) (s t : System π) : Prop where
  good : Good senders ends t
  running : t.ended = false
  quiet : ∀ sig, t.kernel.deliverable sig = false
  unended : t.kernel.pending sigint = [] ∧ t.kernel.pending sigterm = []
  i : t.i = s.i

def Pc.left : Pc → Nat
  | .block => 5
  | .printBlocked => 4
  | .printDelay => 3
  | .sleep => 2
  | .printFinished => 1
  | .sigwaitinfo | .exited _ => 0

/-- The steps of `main` to its loop, and then one for each signal. -/
def System.left (s : System π) : Nat := s.pc.left + s.kernel.backlog

omit [DecidableEq π] in
/-- A step of `main` to a place with less to do. -/
theorem main_advances {t : System π} (runs : t.pc.status = none) (outside : t.pc ≠ .sigwaitinfo) :
    ∃ u, main t = some u ∧ u.pc.status = none ∧ u.pc.left < t.pc.left ∧ u.i = t.i ∧
      u.kernel.pending = t.kernel.pending ∧ u.kernel.killed = t.kernel.killed := by
  cases here : t.pc with
  | printBlocked =>
      by_cases delay : 1 < t.argv.length
      · refine ⟨_, by rw [main, here]; exact if_pos delay, ?_⟩
        exact ⟨rfl, by simp [Pc.left], rfl, rfl, rfl⟩
      · refine ⟨_, by rw [main, here]; exact if_neg delay, ?_⟩
        exact ⟨rfl, by simp [Pc.left], rfl, rfl, rfl⟩
  | sigwaitinfo => exact absurd here outside
  | exited status =>
      rw [here] at runs
      cases runs
  | block | printDelay | sleep | printFinished =>
      refine ⟨_, by rw [main, here], ?_⟩
      exact ⟨rfl, by simp [Pc.left], rfl, rfl, rfl⟩

theorem Reads.main {t : System π} (reads : Reads senders ends s t) (distinct : Distinct senders)
    (outside : t.pc ≠ .sigwaitinfo) : ∃ e u, t.step senders e = some u ∧
      Reads senders ends s u ∧ u.left < t.left := by
  obtain ⟨runs, alive⟩ := Kernel.ended_eq_false.mp reads.running
  obtain ⟨u, went, runs', left, i, pending, killed⟩ := main_advances runs outside
  have moves : t.step senders .proceed = some u := by
    simp only [System.step, reads.running, Bool.false_eq_true, if_false, went]
  have good := reads.good.step distinct moves
  have running : u.ended = false := Kernel.ended_eq_false.mpr ⟨runs', killed.trans alive⟩
  have later : u.pc ≠ .block := by
    intro back
    have bound : t.pc.left ≤ 5 := by cases t.pc <;> simp [Pc.left]
    rw [back] at left
    exact absurd left (Nat.not_lt.mpr bound)
  refine ⟨.proceed, u, moves, ⟨good, running, fun sig => ?_, by rw [pending]; exact reads.unended,
    i.trans reads.i⟩, ?_⟩
  · -- what was pending and blocked can be blocked, and is
    have quiet := reads.quiet sig
    simp only [Kernel.deliverable, Bool.and_eq_false_iff, Bool.not_eq_false'] at quiet ⊢
    refine pending ▸ quiet.imp_right fun blocked => ?_
    rw [good.masked running later]
    exact reads.good.able sig blocked
  · simp only [System.left, Kernel.backlog, pending]
    omega

/-- One call of `sigwaitinfo`, while something is pending. -/
theorem Reads.take {t : System π} (reads : Reads senders ends s t) (distinct : Distinct senders)
    (here : t.pc = .sigwaitinfo) {waits : Signo} (waiting : t.waiting waits = true) :
    ∃ e u, t.step senders e = some u ∧ Reads senders ends s u ∧ u.left < t.left := by
  cases first : next t.waiting with
  | none =>
      have absent := Pending.next_eq_none.mp first waits
      rw [waiting] at absent
      cases absent
  | some sig =>
      obtain ⟨able, nonempty⟩ := Bool.and_eq_true_iff.mp (Pending.ready_of_next first)
      cases pending : t.kernel.pending sig with
      | nil => simp [pending] at nonempty
      | cons si rest =>
          have goesOn : ¬ (sig = sigint ∨ sig = sigterm) := by
            rintro (rfl | rfl)
            · simp [reads.unended.1] at pending
            · simp [reads.unended.2] at pending
          have moves : t.step senders .take = some { t with
              kernel := { t.kernel with pending := Function.update t.kernel.pending sig rest }
              log := t.log ++ [.got sig si (codeName si.siCode)] } := by
            simp [System.step, reads.running, SigWaitinfo.take, here, first, Kernel.sigwaitinfo,
              pending, goesOn, System.note]
          -- nothing becomes pending
          have fewer {other : Signo} (empty : t.kernel.pending other = []) :
              Function.update t.kernel.pending sig rest other = [] := by
            have differ : other ≠ sig := by
              rintro rfl
              rw [empty] at pending
              cases pending
            rw [Function.update_of_ne differ, empty]
          refine ⟨.take, _, moves, ⟨reads.good.step distinct moves, reads.running, fun other => ?_,
            ⟨fewer reads.unended.1, fewer reads.unended.2⟩, reads.i⟩, ?_⟩
          · have quiet := reads.quiet other
            simp only [Kernel.deliverable, Bool.and_eq_false_iff, Bool.not_eq_false',
              List.isEmpty_iff] at quiet ⊢
            exact quiet.imp_left fewer
          · exact Nat.add_lt_add_left (Nat.lt_of_succ_le (Kernel.backlog_take pending rfl).le) _

/-- All that is pending can be printed. -/
theorem Reads.drains {t : System π} (reads : Reads senders ends s t)
    (distinct : Distinct senders) : Leads (System.step senders) t fun u =>
      Reads senders ends s u ∧ ∀ sig, blockable sig = true → u.kernel.pending sig = [] := by
  refine (leads_of_descent (fun u => u.pc = .sigwaitinfo ∧ ∀ sig, u.waiting sig = false)
    System.left (fun u reads more => ?_) reads).trans
      fun u ⟨reads, _, empty⟩ => leads_here ⟨reads, fun sig able => ?_⟩
  · by_cases here : u.pc = .sigwaitinfo
    · have some_waits : ∃ sig, u.waiting sig = true := by
        by_contra none
        exact more ⟨here, fun sig => Bool.eq_false_iff.mpr fun waits => none ⟨sig, waits⟩⟩
      obtain ⟨sig, waits⟩ := some_waits
      exact reads.take distinct here waits
    · exact reads.main distinct here
  · simpa [System.waiting, able] using empty sig

end Kept

/-- **Queued signals arrive once and in order.**  With any number of senders, other signals
at any time, and in every interleaving: as long as the receiver was not killed, what it has
printed for a real-time signal that ends a process by default, followed by what is pending
for it, has from each sender exactly the values it has queued, in its order, up to where the
receiver has exited if it has.  While nothing can be delivered to it and neither SIGINT nor
SIGTERM is pending, a receiver that runs can come to print all of them.  A signal that is not
queued is printed at most as often as it was sent, and at most one is pending. -/
theorem queued_in_order {π : Type} [DecidableEq π] {senders : π → Sender}
    (distinct : Distinct senders)
    {argv : List String} {mask ends : Signo → Bool} {es : List (Event π)} {s : System π}
    (reached : run (System.step senders) (start π argv mask ends) es = some s) :
    (∀ j, queues (senders j).sig = true → ends (senders j).sig = true → s.kernel.killed = none →
      ∃ n ≤ s.i j, (s.ended = false → n = s.i j) ∧
        ((printed (senders j).sig s.log ++ s.kernel.pending (senders j).sig).filter
          (senders j).sent).map Siginfo.siValue =
            (List.range n).map fun i : Nat => wrap32 ((senders j).sigData + i)) ∧
    (s.ended = false → (∀ sig, s.kernel.deliverable sig = false) →
      s.kernel.pending sigint = [] → s.kernel.pending sigterm = [] →
      Leads (System.step senders) s fun t => t.i = s.i ∧ ∀ j, queues (senders j).sig = true →
        ends (senders j).sig = true → blockable (senders j).sig = true →
          ((printed (senders j).sig t.log).filter (senders j).sent).map Siginfo.siValue =
            (List.range (s.i j)).map fun i : Nat => wrap32 ((senders j).sigData + i)) ∧
    ∀ sig, (printed sig s.log ++ s.kernel.pending sig).Sublist (s.arrived sig) ∧
      (queues sig = false → (s.kernel.pending sig).length ≤ 1) := by
  have good : Good senders ends s :=
    run_invariant _ (Good senders ends) (fun _ _ _ good stepped => good.step distinct stepped)
      (start_good senders argv mask ends) reached
  refine ⟨fun j rt dies => good.delivered_values rt dies, fun running quiet unsent unsent' => ?_,
    fun sig => ⟨?_, good.queued.single sig⟩⟩
  · have reads : Reads senders ends s s := ⟨good, running, quiet, ⟨unsent, unsent'⟩, rfl⟩
    refine (reads.drains distinct).trans fun t ⟨reads', empty⟩ =>
      leads_here ⟨reads'.i, fun j rt dies able => ?_⟩
    have alive := (Kernel.ended_eq_false.mp reads'.running).2
    obtain ⟨n, -, all, values⟩ := reads'.good.delivered_values rt dies alive
    rwa [empty _ able, List.append_nil, all reads'.running, reads'.i] at values
  · refine List.Sublist.trans ?_ (good.queued.merged sig)
    rw [List.append_assoc]
    exact List.sublist_append_right _ _

/-- Two senders of the last real-time signal. -/
def pair : Bool → Sender
  | false => ⟨100, 0, Fin.last 64, 7, 2⟩
  | true => ⟨200, 0, Fin.last 64, 2147483647, 2⟩

/-- Their signals mix; the second sender's value overflows. -/
def mixed : List (Event Bool) :=
  [.proceed, .proceed, .sigqueue false .queued, .sigqueue true .queued, .take,
    .sigqueue true .queued, .sigqueue false .queued]

theorem queued_in_order_mixed : ∃ s,
    run (System.step pair) (start Bool ["recv"] (fun _ => false) fun _ => true) mixed = some s ∧
      Leads (System.step pair) s fun t =>
        ((printed (Fin.last 64) t.log).filter (pair true).sent).map Siginfo.siValue =
          (List.range 2).map fun i : Nat => wrap32 (2147483647 + i) := by
  have distinct : Distinct pair := by
    unfold Distinct
    decide
  obtain ⟨-, prints, -⟩ := queued_in_order distinct
    (rfl : run (System.step pair) (start Bool ["recv"] (fun _ => false) fun _ => true) mixed =
      some _)
  refine ⟨_, rfl, (prints rfl (by decide) rfl rfl).trans fun t ⟨_, all⟩ => ?_⟩
  exact leads_here (all true rfl rfl rfl)

end UnixDemos.Signal.SigWaitinfo
