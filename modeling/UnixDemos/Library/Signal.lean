/-
# Library.Signal — signals of one process, as the kernel keeps them

A `Kernel` holds the signal mask, the signals that are pending, what is to be done
with each, and the handlers that run, innermost first, each with the mask that its
return restores.  Signals of one number merge while they are pending, unless they
queue (real-time signals).

A signal that is pending and not blocked can be delivered at any moment, also some
steps after it could first be.  A process in a call that waits (`pause`,
`sigsuspend`) sleeps only when there is nothing to deliver, an arrival that is not
blocked wakes it, and once a handler was started the call returns when no handler
runs any more.  `sigsuspend` also swaps the mask; the first handler started in it
gets the old mask as the one to restore.

`WellFormed` is what every operation keeps, and `base` is the mask the main program
returns to when all handlers have returned: starting and ending handlers does not
change it (`base_deliver`, `base_sigreturn`).  `Queued` says what has become of the
signals that arrived, and `Nested` how the handlers of different signals interrupt each
other.  `backlog` and `handling` are what a process that is left alone brings down.
-/
import Mathlib.Algebra.BigOperators.Group.Finset.Basic
import Mathlib.Algebra.Ring.Nat
import Mathlib.Data.Fintype.Basic
import Mathlib.Logic.Function.Basic

namespace UnixDemos.Library

set_option autoImplicit false

/-- What delivery of a signal does: one of the default actions, or a handler that runs
with more signals blocked. -/
inductive Action (ς : Type) where
  | terminate
  | stop
  | handler (saMask : ς → Bool)

/-- Where a process stands in a call that waits for a signal. -/
inductive Wait where
  | running
  | asleep
  | woken
  | interrupted
  deriving DecidableEq, Repr

/-- A handler that runs: its signal, the information that came with it, its next step,
and the mask to restore. -/
structure Frame (ς ι κ : Type) where
  signo : ς
  info : ι
  pc : κ
  saved : ς → Bool

/-- `restore` is the mask from before `sigsuspend`, `killed` the signal the process
was terminated by. -/
structure Kernel (ς ι κ : Type) where
  mask : ς → Bool
  pending : ς → List ι
  action : ς → Action ς
  frames : List (Frame ς ι κ)
  wait : Wait
  restore : Option (ς → Bool)
  killed : Option ς

namespace Kernel

section Operations

variable {ς ι κ : Type} [DecidableEq ς] (k : Kernel ς ι κ)

def deliverable (sig : ς) : Bool := !(k.pending sig).isEmpty && !k.mask sig

/-- A signal arrives; `queues` says whether its number is queued. -/
def arrive (queues : ς → Bool) (sig : ς) (info : ι) : Kernel ς ι κ :=
  let queue :=
    if queues sig = true ∨ k.pending sig = [] then k.pending sig ++ [info] else k.pending sig
  { k with
    pending := Function.update k.pending sig queue
    wait := if k.wait = .asleep ∧ k.mask sig = false then .woken else k.wait }

/-- Pending signals are taken back. -/
def discard (drops : ς → Bool) : Kernel ς ι κ :=
  { k with pending := fun sig => if drops sig then [] else k.pending sig }

/-- The process is no more; `status` is what it has exited with. -/
def ended (status : Option Int) : Bool := status.isSome || k.killed.isSome

/-- A pending signal is delivered; `entry` is where a handler starts.  A process that is
stopped goes on some time later as it was. -/
def deliver (blockable : ς → Bool) (entry : κ) (sig : ς) : Option (Kernel ς ι κ) :=
  if k.wait = .asleep ∨ k.mask sig = true then none
  else
    match k.pending sig with
    | [] => none
    | info :: rest =>
        let k := { k with pending := Function.update k.pending sig rest }
        match k.action sig with
        | .terminate => some { k with killed := some sig }
        | .stop => some k
        | .handler saMask =>
            some { k with
              frames := ⟨sig, info, entry, k.restore.getD k.mask⟩ :: k.frames
              mask := fun other =>
                k.mask other || ((saMask other || other = sig) && blockable other)
              restore := none
              wait := if k.wait = .woken then .interrupted else k.wait }

/-- The innermost handler goes on to `pc`. -/
def goto (pc : κ) : Kernel ς ι κ :=
  match k.frames with
  | [] => k
  | frame :: frames => { k with frames := { frame with pc := pc } :: frames }

/-- The innermost handler returns. -/
def sigreturn : Option (Kernel ς ι κ) :=
  match k.frames with
  | [] => none
  | frame :: frames => some { k with frames := frames, mask := frame.saved }

/-- `siglongjmp` to a place outside of all handlers, where `mask` was saved. -/
def siglongjmp (mask : ς → Bool) : Kernel ς ι κ :=
  { k with mask := mask, frames := [], wait := .running, restore := none }

/-- `sigprocmask(SIG_SETMASK, &mask, ..)`. -/
def sigprocmask (blockable : ς → Bool) (mask : ς → Bool) : Kernel ς ι κ :=
  { k with mask := fun sig => mask sig && blockable sig }

/-- `sigwaitinfo` takes the oldest signal of a number. -/
def sigwaitinfo (sig : ς) : Option (ι × Kernel ς ι κ) :=
  match k.pending sig with
  | [] => none
  | info :: rest => some (info, { k with pending := Function.update k.pending sig rest })

def sigaction (sig : ς) (action : Action ς) : Kernel ς ι κ :=
  { k with action := Function.update k.action sig action }

/-- The steps the handlers have to make until all are left, each with `left` from where it
is. -/
def handling (left : κ → Nat) : Nat := (k.frames.map fun frame => left frame.pc).sum

section Waiting

variable [Fintype ς]

/-- To sleep, unless there is something to deliver. -/
def doze : Kernel ς ι κ :=
  { k with wait := if ∀ sig, k.deliverable sig = false then .asleep else .woken }

/-- `sigsuspend(&mask)`. -/
def sigsuspend (mask : ς → Bool) : Kernel ς ι κ :=
  doze { k with mask := mask, restore := some k.mask }

/-- How many signals are pending. -/
def backlog : Nat := Finset.univ.sum fun sig => (k.pending sig).length

/-- The process inside the waiting call: back to sleep after it was only stopped, or out
of the call after a handler has run. -/
def proceed : Option (Kernel ς ι κ) :=
  match k.wait with
  | .woken => if ∀ sig, k.deliverable sig = false then some k.doze else none
  | .interrupted => some { k with wait := .running }
  | _ => none

end Waiting

end Operations

/-! ## What every operation keeps -/

section WellFormed

variable {ς ι κ : Type} {k k' : Kernel ς ι κ}

/-- The mask when all handlers have returned. -/
def base (k : Kernel ς ι κ) : ς → Bool :=
  k.frames.foldl (fun _ frame => frame.saved) (k.restore.getD k.mask)

structure WellFormed (k : Kernel ς ι κ) : Prop where
  quiet : k.wait = .asleep → ∀ sig, k.deliverable sig = false
  asleep : k.wait = .asleep → k.frames = []
  woken : k.wait = .woken → k.frames = []
  restores : k.frames ≠ [] → k.restore = none

/-- In no waiting call, and not in `sigsuspend`. -/
theorem wellFormed_running (wait : k.wait = .running) (restore : k.restore = none) :
    k.WellFormed := by
  constructor <;> simp [wait, restore]

variable [DecidableEq ς]

theorem WellFormed.arrive (formed : k.WellFormed) (queues : ς → Bool) (sig : ς) (info : ι) :
    (k.arrive queues sig info).WellFormed where
  quiet sleeps other := by
    simp only [Kernel.arrive] at sleeps
    split at sleeps
    · cases sleeps
    · rename_i notWoken
      have before := formed.quiet sleeps other
      by_cases same : other = sig
      · have blocked : k.mask sig = true := by simpa [sleeps] using notWoken
        simp [deliverable, Kernel.arrive, same, blocked]
      · simpa [deliverable, Kernel.arrive, same] using before
  asleep sleeps := by
    simp only [Kernel.arrive] at sleeps
    split at sleeps
    · cases sleeps
    · exact formed.asleep sleeps
  woken wakes := by
    simp only [Kernel.arrive] at wakes
    split at wakes
    · rename_i sleeping
      exact formed.asleep sleeping.1
    · exact formed.woken wakes
  restores := formed.restores

omit [DecidableEq ς] in
theorem WellFormed.discard (formed : k.WellFormed) (drops : ς → Bool) :
    (k.discard drops).WellFormed where
  quiet sleeps sig := by
    have before := formed.quiet sleeps sig
    simp only [deliverable, Kernel.discard]
    split
    · rfl
    · exact before
  asleep := formed.asleep
  woken := formed.woken
  restores := formed.restores

/-- What delivery can do. -/
inductive Delivery (k : Kernel ς ι κ) (blockable : ς → Bool) (entry : κ) (sig : ς) (info : ι)
    (rest : List ι) : Kernel ς ι κ → Prop
  | terminates (action : k.action sig = .terminate) :
      Delivery k blockable entry sig info rest
        { k with pending := Function.update k.pending sig rest, killed := some sig }
  | stops (action : k.action sig = .stop) :
      Delivery k blockable entry sig info rest
        { k with pending := Function.update k.pending sig rest }
  | starts {saMask : ς → Bool} (action : k.action sig = .handler saMask) :
      Delivery k blockable entry sig info rest
        { k with
          pending := Function.update k.pending sig rest
          frames := ⟨sig, info, entry, k.restore.getD k.mask⟩ :: k.frames
          mask := fun other => k.mask other || ((saMask other || other = sig) && blockable other)
          restore := none
          wait := if k.wait = .woken then .interrupted else k.wait }

theorem deliver_effect {blockable : ς → Bool} {entry : κ} {sig : ς}
    (delivered : k.deliver blockable entry sig = some k') :
    k.wait ≠ .asleep ∧ k.mask sig = false ∧ ∃ info rest, k.pending sig = info :: rest ∧
      Delivery k blockable entry sig info rest k' := by
  simp only [deliver] at delivered
  split at delivered
  · cases delivered
  · rename_i able
    rw [not_or, Bool.not_eq_true] at able
    refine ⟨able.1, able.2, ?_⟩
    split at delivered
    · cases delivered
    · rename_i info rest pending
      refine ⟨info, rest, pending, ?_⟩
      split at delivered
      · rename_i action
        cases delivered
        exact .terminates action
      · rename_i action
        cases delivered
        exact .stops action
      · rename_i saMask action
        cases delivered
        exact .starts action

theorem WellFormed.deliver (formed : k.WellFormed) {blockable : ς → Bool} {entry : κ} {sig : ς}
    (delivered : k.deliver blockable entry sig = some k') : k'.WellFormed := by
  obtain ⟨awake, -, info, rest, -, delivery⟩ := deliver_effect delivered
  cases delivery with
  | terminates action =>
      exact ⟨fun sleeps => absurd sleeps awake, formed.asleep, formed.woken, formed.restores⟩
  | stops action =>
      exact ⟨fun sleeps => absurd sleeps awake, formed.asleep, formed.woken, formed.restores⟩
  | starts action =>
      have neither : ∀ w, w = .asleep ∨ w = .woken →
          (if k.wait = .woken then Wait.interrupted else k.wait) ≠ w := by
        rintro w (rfl | rfl) <;> split <;> simp_all
      exact ⟨fun sleeps => absurd sleeps (neither _ (Or.inl rfl)),
        fun sleeps => absurd sleeps (neither _ (Or.inl rfl)),
        fun wakes => absurd wakes (neither _ (Or.inr rfl)), fun _ => rfl⟩

theorem base_deliver {blockable : ς → Bool} {entry : κ} {sig : ς}
    (delivered : k.deliver blockable entry sig = some k') : k'.base = k.base := by
  obtain ⟨-, -, info, rest, -, delivery⟩ := deliver_effect delivered
  cases delivery <;> rfl

omit [DecidableEq ς]

theorem goto_frame (k : Kernel ς ι κ) (pc : κ) :
    (k.goto pc).killed = k.killed ∧ (k.goto pc).action = k.action ∧
      (k.goto pc).wait = k.wait ∧ (k.goto pc).restore = k.restore := by
  unfold Kernel.goto
  split <;> exact ⟨rfl, rfl, rfl, rfl⟩

theorem WellFormed.goto (formed : k.WellFormed) (pc : κ) :
    (k.goto pc).WellFormed ∧ (k.goto pc).base = k.base := by
  unfold Kernel.goto
  split
  · exact ⟨formed, rfl⟩
  · rename_i frame frames running
    have some_frame : k.frames ≠ [] := by simp [running]
    refine ⟨⟨formed.quiet, ?_, ?_, fun _ => formed.restores some_frame⟩, ?_⟩
    · intro sleeps
      exact absurd (formed.asleep sleeps) some_frame
    · intro wakes
      exact absurd (formed.woken wakes) some_frame
    · simp [base, running]

theorem sigreturn_eq_some :
    k.sigreturn = some k' ↔
      ∃ f fs, k.frames = f :: fs ∧ { k with frames := fs, mask := f.saved } = k' := by
  unfold sigreturn
  split <;> simp_all

theorem WellFormed.sigreturn (formed : k.WellFormed) (returned : k.sigreturn = some k') :
    k'.WellFormed := by
  obtain ⟨f, fs, frames, rfl⟩ := sigreturn_eq_some.mp returned
  have some_frame : k.frames ≠ [] := by simp [frames]
  refine ⟨?_, ?_, ?_, fun _ => formed.restores some_frame⟩
  · intro sleeps
    exact absurd (formed.asleep sleeps) some_frame
  · intro sleeps
    exact absurd (formed.asleep sleeps) some_frame
  · intro wakes
    exact absurd (formed.woken wakes) some_frame

theorem base_sigreturn (formed : k.WellFormed) (returned : k.sigreturn = some k') :
    k'.base = k.base := by
  obtain ⟨f, fs, frames, rfl⟩ := sigreturn_eq_some.mp returned
  have restore := formed.restores (by simp [frames])
  simp [base, frames, restore]

theorem WellFormed.doze [Fintype ς] (frames : k.frames = []) : k.doze.WellFormed where
  quiet sleeps := by
    simp only [Kernel.doze] at sleeps
    split at sleeps
    · assumption
    · cases sleeps
  asleep _ := frames
  woken _ := frames
  restores some_frame := absurd frames some_frame

/-- Inside a waiting call the process goes back to sleep or leaves the call. -/
theorem proceed_effect [DecidableEq ς] [Fintype ς] (went : k.proceed = some k') :
    k.wait = .woken ∧ k.doze = k' ∧ k'.wait = .asleep ∨
      k.wait = .interrupted ∧ { k with wait := .running } = k' := by
  unfold proceed at went
  split at went
  · rename_i woken
    split at went
    · rename_i quiet
      cases went
      exact Or.inl ⟨woken, rfl, if_pos quiet⟩
    · cases went
  · rename_i interrupted
    cases went
    exact Or.inr ⟨interrupted, rfl⟩
  · cases went

end WellFormed

/-! ## Signals that arrived, and what has become of them -/

section Queued

variable {ς ι κ : Type} [DecidableEq ς] {k k' : Kernel ς ι κ} {queues whole whole' : ς → Bool}
  {arrived gone : ς → List ι}

/-- Of what arrived, `gone` was delivered or taken.  What is pending is part of the rest: all
of it if the number is `whole`, and at most one signal if it does not queue. -/
structure Queued (queues whole : ς → Bool) (k : Kernel ς ι κ) (arrived gone : ς → List ι) :
    Prop where
  exact : ∀ sig, whole sig = true → arrived sig = gone sig ++ k.pending sig
  merged : ∀ sig, (gone sig ++ k.pending sig).Sublist (arrived sig)
  single : ∀ sig, queues sig = false → (k.pending sig).length ≤ 1

omit [DecidableEq ς] in
theorem Queued.congr (queued : Queued queues whole k arrived gone)
    (pending : k'.pending = k.pending) : Queued queues whole k' arrived gone := by
  obtain ⟨exact, merged, single⟩ := queued
  exact ⟨pending ▸ exact, pending ▸ merged, pending ▸ single⟩

/-- A signal arrives; `fits` says which numbers are queued now, and a number stays `whole`
only if it is. -/
theorem Queued.arrive (queued : Queued queues whole k arrived gone) (fits : ς → Bool) (sig : ς)
    (info : ι) (less : ∀ other, whole' other = true → whole other = true)
    (kept : whole' sig = true → fits sig = true) (merges : queues sig = false → fits sig = false) :
    Queued queues whole' (k.arrive fits sig info)
      (Function.update arrived sig (arrived sig ++ [info])) gone := by
  obtain ⟨exact, merged, single⟩ := queued
  constructor
  · intro other whole
    have before := exact other (less other whole)
    by_cases same : other = sig
    · subst same
      simp [Kernel.arrive, kept whole, before]
    · simpa [Kernel.arrive, same] using before
  · intro other
    by_cases same : other = sig
    · subst same
      simp only [Kernel.arrive, Function.update_self]
      split
      · rw [← List.append_assoc]
        exact (merged other).append_right _
      · exact (merged other).trans (List.sublist_append_left _ _)
    · simpa [Kernel.arrive, same] using merged other
  · intro other merges'
    by_cases same : other = sig
    · subst same
      simp only [Kernel.arrive, Function.update_self, merges merges', Bool.false_eq_true, false_or]
      split
      · rename_i empty
        simp [empty]
      · exact single other merges'
    · simpa [Kernel.arrive, same] using single other merges'

omit [DecidableEq ς] in
theorem Queued.discard (queued : Queued queues whole k arrived gone) {drops : ς → Bool}
    (kept : ∀ sig, whole sig = true → drops sig = false) :
    Queued queues whole (k.discard drops) arrived gone := by
  obtain ⟨exact, merged, single⟩ := queued
  refine ⟨fun sig whole => ?_, fun sig => ?_, fun sig merges => ?_⟩
  · simpa [Kernel.discard, kept sig whole] using exact sig whole
  · have before := merged sig
    simp only [Kernel.discard]
    split
    · rw [List.append_nil]
      exact (List.sublist_append_left _ _).trans before
    · exact before
  · have before := single sig merges
    simp only [Kernel.discard]
    split
    · exact Nat.zero_le 1
    · exact before

theorem Queued.take (queued : Queued queues whole k arrived gone) {sig : ς} {info : ι}
    {rest : List ι} (pending : k.pending sig = info :: rest)
    (taken : k'.pending = Function.update k.pending sig rest) :
    Queued queues whole k' arrived (Function.update gone sig (gone sig ++ [info])) := by
  obtain ⟨exact, merged, single⟩ := queued
  have moved (other : ς) : Function.update gone sig (gone sig ++ [info]) other ++ k'.pending other =
      gone other ++ k.pending other := by
    rw [taken]
    by_cases same : other = sig
    · subst same
      simp [pending]
    · simp [same]
  refine ⟨fun other whole => ?_, fun other => ?_, fun other merges => ?_⟩
  · rw [moved]
    exact exact other whole
  · rw [moved]
    exact merged other
  · have before := single other merges
    rw [taken]
    by_cases same : other = sig
    · subst same
      rw [pending, List.length_cons] at before
      rw [Function.update_self]
      omega
    · rwa [Function.update_of_ne same]

/-- A signal whose number is not `whole` may also be forgotten. -/
theorem Queued.forget (queued : Queued queues whole k arrived gone) {sig : ς} {info : ι}
    {rest : List ι} (incomplete : whole sig = false) (pending : k.pending sig = info :: rest)
    (taken : k'.pending = Function.update k.pending sig rest) :
    Queued queues whole k' arrived gone := by
  obtain ⟨exact, merged, single⟩ := queued.take pending taken
  have less (other : ς) :
      (gone other).Sublist (Function.update gone sig (gone sig ++ [info]) other) := by
    by_cases same : other = sig
    · subst same
      rw [Function.update_self]
      exact List.sublist_append_left _ _
    · rw [Function.update_of_ne same]
  refine ⟨fun other whole' => ?_, fun other => ?_, single⟩
  · have differ : other ≠ sig := by
      rintro rfl
      rw [incomplete] at whole'
      cases whole'
    rw [exact other whole', Function.update_of_ne differ]
  · exact ((less other).append_right _).trans (merged other)

theorem sigwaitinfo_eq_some {sig : ς} {info : ι} :
    k.sigwaitinfo sig = some (info, k') ↔ ∃ rest, k.pending sig = info :: rest ∧
      { k with pending := Function.update k.pending sig rest } = k' := by
  unfold sigwaitinfo
  split
  · rename_i empty
    simp [empty]
  · rename_i info' rest pending
    simp only [Option.some.injEq, Prod.mk.injEq, pending, List.cons.injEq]
    constructor
    · rintro ⟨rfl, taken⟩
      exact ⟨rest, ⟨rfl, rfl⟩, taken⟩
    · rintro ⟨_, ⟨rfl, rfl⟩, taken⟩
      exact ⟨rfl, taken⟩

end Queued

/-! ## What is left to do -/

section Left

variable {ς ι κ : Type} {k k' : Kernel ς ι κ}

theorem ended_eq_false {status : Option Int} :
    k.ended status = false ↔ status = none ∧ k.killed = none := by
  simp [ended]

theorem backlog_take [DecidableEq ς] [Fintype ς] {sig : ς} {info : ι} {rest : List ι}
    (pending : k.pending sig = info :: rest)
    (taken : k'.pending = Function.update k.pending sig rest) : k'.backlog + 1 = k.backlog := by
  have others : ((Finset.univ.erase sig).sum fun other => (k'.pending other).length) =
      (Finset.univ.erase sig).sum fun other => (k.pending other).length := by
    refine Finset.sum_congr rfl fun other member => ?_
    rw [taken, Function.update_of_ne (Finset.ne_of_mem_erase member)]
  rw [backlog, backlog, ← Finset.add_sum_erase _ _ (Finset.mem_univ sig),
    ← Finset.add_sum_erase _ _ (Finset.mem_univ sig), others, taken, pending,
    Function.update_self, List.length_cons]
  omega

variable {left : κ → Nat} {frame : Frame ς ι κ} {frames : List (Frame ς ι κ)}

theorem goto_eq (runs : k.frames = frame :: frames) (pc : κ) :
    k.goto pc = { k with frames := { frame with pc := pc } :: frames } := by
  rw [Kernel.goto, runs]

theorem handling_goto (runs : k.frames = frame :: frames) (pc : κ) :
    (k.goto pc).handling left + left frame.pc = k.handling left + left pc := by
  rw [goto_eq runs]
  simp only [handling, runs, List.map_cons, List.sum_cons]
  omega

theorem handling_of_frames (runs : k.frames = frame :: frames) (returned : k'.frames = frames) :
    k'.handling left + left frame.pc = k.handling left := by
  simp only [handling, runs, returned, List.map_cons, List.sum_cons]
  omega

end Left

/-! ## Handlers inside handlers -/

section Nested

variable {ς ι κ : Type} {mask : ς → Bool} {frames : List (Frame ς ι κ)}

/-- Every handler that runs has its own signal blocked, and returns to a smaller mask, which
did not block it, and under which the handlers below it have theirs blocked. -/
def Nested : (ς → Bool) → List (Frame ς ι κ) → Prop
  | _, [] => True
  | mask, frame :: frames =>
      mask frame.signo = true ∧ frame.saved frame.signo = false ∧
        (∀ sig, frame.saved sig = true → mask sig = true) ∧ Nested frame.saved frames

theorem Nested.blocked (nested : Nested mask frames) {frame : Frame ς ι κ}
    (runs : frame ∈ frames) : mask frame.signo = true := by
  induction frames generalizing mask with
  | nil => cases runs
  | cons top frames ih =>
      obtain ⟨own, -, less, below⟩ := nested
      rcases List.mem_cons.mp runs with rfl | runs
      · exact own
      · exact less _ (ih below runs)

/-- Handlers only block more. -/
theorem Nested.blocks (nested : Nested mask frames) {sig : ς}
    (blocked : frames.foldl (fun _ frame => frame.saved) mask sig = true) : mask sig = true := by
  induction frames generalizing mask with
  | nil => exact blocked
  | cons top frames ih =>
      obtain ⟨-, -, less, below⟩ := nested
      exact less sig (ih below blocked)

/-- No signal is handled twice at a time. -/
theorem Nested.nodup (nested : Nested mask frames) : (frames.map Frame.signo).Nodup := by
  induction frames generalizing mask with
  | nil => exact List.nodup_nil
  | cons top frames ih =>
      obtain ⟨-, unblocked, -, below⟩ := nested
      refine List.nodup_cons.mpr ⟨fun twice => ?_, ih below⟩
      obtain ⟨frame, runs, same⟩ := List.mem_map.mp twice
      have blocked := below.blocked runs
      rw [same, unblocked] at blocked
      cases blocked

end Nested

end Kernel

end UnixDemos.Library
