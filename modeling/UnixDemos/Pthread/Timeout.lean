/-
# Pthread.Timeout — delayed calls: timeout and timer_helper of recursive_lock.c

`timeout` puts its arguments into a record from `malloc` and gives the record to a
detached thread, which sleeps, makes the call and frees the record.  The thread is started
by `makethread` of pthread_functions.c, which gives up where a call on the attributes
fails.  It does not look at what `pthread_create` returns.

Any number of calls, by any threads, run side by side with the threads they start, one
library call a step.  A block knows the call that got it (`Block.call`), a helper the call
that started it, and calls and helpers keep what they did.

`Effect` is what a step does, in terms of who has the record: the caller (`Stage.holds`),
or whoever was to be started (`Stage.handed`).
-/
import Mathlib.Logic.Function.Basic
import UnixDemos.Library.Run

namespace UnixDemos.Pthread.Timeout

open UnixDemos.Library

set_option autoImplicit false

abbrev Addr := Nat

/-! ## State -/

/-- `struct to_info`. -/
structure ToInfo (φ α : Type) where
  fn : φ
  toArg : α
  toWait : Int

structure Block (φ α : Type) where
  info : ToInfo φ α
  call : Nat

/-- What a call or a helper does that can be seen. -/
inductive Act (φ α : Type) where
  | printf (secs : Int)
  | sleep (secs : Int)
  | call (fn : φ) (arg : α)
  | free (a : Addr)
  | fprintf (err : Int)
  deriving DecidableEq

/-- The next step of a call of `timeout`.  The first four are in `makethread`. -/
inductive Stage where
  | attrInit
  | setDetachState
  | create
  | destroy (err : Int)
  | fprintf (err : Int)
  | free (err : Int)
  | exit (err : Int)
  | returned
  deriving DecidableEq

/-- A call: its arguments, its record and where it stands. -/
structure Call (φ α : Type) where
  info : ToInfo φ α
  tip : Option Addr
  stage : Stage
  acts : List (Act φ α)

/-- The next step of `timer_helper`. -/
inductive HelperStage where
  | printf
  | sleep
  | call
  | free
  | done
  deriving DecidableEq

structure Helper (φ α : Type) where
  owner : Nat
  tip : Addr
  stage : HelperStage
  acts : List (Act φ α)

/-- `outside` is an access to memory that is not allocated. -/
structure System (φ α : Type) where
  heap : Addr → Option (Block φ α)
  calls : Nat → Option (Call φ α)
  helpers : Nat → Option (Helper φ α)
  exited : Option Int
  outside : Bool

/-- `timeout` is a new call with what `malloc` answers.  In `caller`, `err` is what the
library call returns and `tid` the thread that `pthread_create` starts. -/
inductive Event (φ α : Type) where
  | timeout (i : Nat) (info : ToInfo φ α) (block : Option Addr)
  | caller (i : Nat) (err : Int) (tid : Nat)
  | helper (tid : Nat)

/-! ## Steps -/

/-- The stages in `makethread`, and the check of what it returns. -/
def makethread : Stage → Int → Stage
  | .attrInit, err => if err ≠ 0 then .fprintf err else .setDetachState
  | .setDetachState, err => if err = 0 then .create else .destroy err
  | .create, _ => .destroy 0
  | .destroy err, _ => if err ≠ 0 then .fprintf err else .returned
  | stage, _ => stage

section Steps

variable {φ α : Type} (s : System φ α)

/-- One step of the thread: what it does and what comes next. -/
def timerHelper (info : ToInfo φ α) (tip : Addr) : HelperStage → Option (Act φ α × HelperStage)
  | .printf => some (.printf info.toWait, .sleep)
  | .sleep => some (.sleep info.toWait, .call)
  | .call => some (.call info.fn info.toArg, .free)
  | .free => some (.free tip, .done)
  | .done => none

def System.setCall (i : Nat) (c : Call φ α) : System φ α :=
  { s with calls := Function.update s.calls i (some c) }

def System.setHelper (tid : Nat) (t : Helper φ α) : System φ α :=
  { s with helpers := Function.update s.helpers tid (some t) }

def System.free (a : Addr) : System φ α := { s with heap := Function.update s.heap a none }

/-- The beginning of `timeout`. -/
def timeout (i : Nat) (info : ToInfo φ α) : Option Addr → Option (System φ α)
  | none => some (s.setCall i ⟨info, none, .returned, []⟩)
  | some a =>
      if (s.heap a).isSome then none
      else
        let s := { s with heap := Function.update s.heap a (some ⟨info, i⟩) }
        some (s.setCall i ⟨info, some a, .attrInit, []⟩)

/-- A further step of the call `c`, which has its record at `a`. -/
def advance (i : Nat) (c : Call φ α) (a : Addr) (err : Int) (tid : Nat) : Option (System φ α) :=
  let next := s.setCall i { c with stage := makethread c.stage err }
  match c.stage with
  | .create =>
      if err ≠ 0 then some next
      else if (s.helpers tid).isSome then none
      else some (next.setHelper tid ⟨i, a, .printf, []⟩)
  | .fprintf err =>
      some (s.setCall i { c with stage := .free err, acts := c.acts ++ [.fprintf err] })
  | .free err =>
      if (s.heap a).isNone then some { s with outside := true }
      else some ((s.free a).setCall i { c with stage := .exit err, acts := c.acts ++ [.free a] })
  | .exit _ => some { s with exited := some (-1) }
  | .returned => none
  | _ => some next

/-- A step of the helper `t`, which reads its record or frees it. -/
def work (tid : Nat) (t : Helper φ α) : Option (System φ α) :=
  match s.heap t.tip with
  | none => if t.stage = .done then none else some { s with outside := true }
  | some block =>
      match timerHelper block.info t.tip t.stage with
      | none => none
      | some (act, stage) =>
          let s := if stage = .done then s.free t.tip else s
          some (s.setHelper tid { t with stage, acts := t.acts ++ [act] })

def System.step : Event φ α → Option (System φ α)
  | .timeout i info block =>
      if s.exited.isSome ∨ (s.calls i).isSome then none else timeout s i info block
  | .caller i err tid =>
      match s.exited, s.calls i with
      | none, some c =>
          match c.tip with
          | none => none
          | some a => advance s i c a err tid
      | _, _ => none
  | .helper tid =>
      match s.exited, s.helpers tid with
      | none, some t => work s tid t
      | _, _ => none

def System.start : System φ α := ⟨fun _ => none, fun _ => none, fun _ => none, none, false⟩

end Steps

/-! ## What a step does -/

/-- The record is the caller's. -/
def Stage.holds : Stage → Bool
  | .destroy err => err ≠ 0
  | .exit _ => false
  | .returned => false
  | _ => true

/-- `makethread` returns 0, or has. -/
def Stage.handed : Stage → Bool
  | .destroy err => err = 0
  | .returned => true
  | _ => false

/-- What a call has done itself at a stage. -/
def Stage.acts {φ α : Type} (a : Addr) : Stage → List (Act φ α)
  | .free err => [.fprintf err]
  | .exit err => [.fprintf err, .free a]
  | _ => []

section Effects

variable {φ α : Type} {s s' : System φ α}

inductive Effect (s : System φ α) : Event φ α → System φ α → Prop where
  | noMemory {i : Nat} {info : ToInfo φ α} (new : s.calls i = none) :
      Effect s (.timeout i info none) (s.setCall i ⟨info, none, .returned, []⟩)
  | memory {i : Nat} {info : ToInfo φ α} {a : Addr} (new : s.calls i = none)
      (free : s.heap a = none) :
      Effect s (.timeout i info (some a))
        (System.setCall { s with heap := Function.update s.heap a (some ⟨info, i⟩) } i
          ⟨info, some a, .attrInit, []⟩)
  | move {i tid : Nat} {err : Int} {c : Call φ α} {a : Addr} {stage : Stage}
      {acts : List (Act φ α)} (here : s.calls i = some c) (tip : c.tip = some a)
      (holds : stage.holds = true → c.stage.holds = true)
      (handed : c.stage.handed = true → stage.handed = true)
      (created : stage.handed = true → c.stage.handed = true ∨ c.stage = .create ∧ err ≠ 0)
      (done : c.acts = c.stage.acts a → acts = stage.acts a) :
      Effect s (.caller i err tid) (s.setCall i { c with stage, acts })
  | create {i tid : Nat} {c : Call φ α} {a : Addr} (here : s.calls i = some c)
      (tip : c.tip = some a) (stage : c.stage = .create) (new : s.helpers tid = none) :
      Effect s (.caller i 0 tid)
        ((s.setCall i { c with stage := .destroy 0 }).setHelper tid ⟨i, a, .printf, []⟩)
  | free {i tid : Nat} {err e : Int} {c : Call φ α} {a : Addr} (here : s.calls i = some c)
      (tip : c.tip = some a) (stage : c.stage = .free e) :
      Effect s (.caller i err tid)
        ((s.free a).setCall i { c with stage := .exit e, acts := c.acts ++ [.free a] })
  | exit {i tid : Nat} {err : Int} :
      Effect s (.caller i err tid) { s with exited := some (-1) }
  | work {tid : Nat} {t : Helper φ α} {block : Block φ α} {act : Act φ α} {stage : HelperStage}
      (here : s.helpers tid = some t) (record : s.heap t.tip = some block)
      (next : timerHelper block.info t.tip t.stage = some (act, stage)) :
      Effect s (.helper tid) (System.setHelper (if stage = .done then s.free t.tip else s) tid
        { t with stage, acts := t.acts ++ [act] })
  | callOutside {i tid : Nat} {err e : Int} {c : Call φ α} {a : Addr} (here : s.calls i = some c)
      (tip : c.tip = some a) (stage : c.stage = .free e) (gone : s.heap a = none) :
      Effect s (.caller i err tid) { s with outside := true }
  | helperOutside {tid : Nat} {t : Helper φ α} (here : s.helpers tid = some t)
      (works : t.stage ≠ .done) (gone : s.heap t.tip = none) :
      Effect s (.helper tid) { s with outside := true }

theorem makethread_holds {stage : Stage} {err : Int}
    (holds : (makethread stage err).holds = true) : stage.holds = true := by
  cases stage with
  | destroy e => by_cases zero : e = 0 <;> simp_all [makethread, Stage.holds]
  | _ => simp_all [makethread, Stage.holds]

theorem makethread_handed {stage : Stage} {err : Int} (handed : stage.handed = true) :
    (makethread stage err).handed = true := by
  cases stage <;> simp_all [makethread, Stage.handed]

/-- `makethread` comes to return 0 only through `pthread_create`. -/
theorem create_of_makethread_handed {stage : Stage} {err : Int}
    (handed : (makethread stage err).handed = true) : stage.handed = true ∨ stage = .create := by
  cases stage with
  | attrInit => by_cases zero : err = 0 <;> simp_all [makethread, Stage.handed]
  | setDetachState => by_cases zero : err = 0 <;> simp_all [makethread, Stage.handed]
  | destroy e => by_cases zero : e = 0 <;> simp_all [makethread, Stage.handed]
  | _ => simp_all [makethread, Stage.handed]

theorem makethread_acts {stage : Stage} {err : Int} (a : Addr)
    (inside : (stage.acts a : List (Act φ α)) = []) :
    ((makethread stage err).acts a : List (Act φ α)) = [] := by
  cases stage with
  | attrInit => by_cases zero : err = 0 <;> simp [makethread, zero, Stage.acts]
  | setDetachState => by_cases zero : err = 0 <;> simp [makethread, zero, Stage.acts]
  | destroy e => by_cases zero : e = 0 <;> simp [makethread, zero, Stage.acts]
  | _ => simp_all [makethread, Stage.acts]

/-- A stage of `makethread` that starts no thread. -/
theorem Effect.makethread {i tid : Nat} {err : Int} {c : Call φ α} {a : Addr}
    (here : s.calls i = some c) (tip : c.tip = some a)
    (noActs : (c.stage.acts a : List (Act φ α)) = []) (failed : c.stage = .create → err ≠ 0) :
    Effect s (.caller i err tid)
      (s.setCall i { c with stage := Timeout.makethread c.stage err }) := by
  refine .move here tip makethread_holds makethread_handed ?_ ?_
  · intro handed
    rcases create_of_makethread_handed handed with before | isCreate
    · exact Or.inl before
    · exact Or.inr ⟨isCreate, failed isCreate⟩
  · intro acts
    rw [acts, noActs, makethread_acts a noActs]

theorem Effect.of_advance {i tid : Nat} {err : Int} {c : Call φ α} {a : Addr}
    (here : s.calls i = some c) (tip : c.tip = some a)
    (stepped : advance s i c a err tid = some s') : Effect s (.caller i err tid) s' := by
  have inMakethread := @Effect.makethread φ α s i tid err c a here tip
  cases stage : c.stage with
  | attrInit =>
      simp only [advance, stage] at stepped
      cases stepped
      simpa only [stage] using inMakethread (by rw [stage]; rfl) (by simp [stage])
  | setDetachState =>
      simp only [advance, stage] at stepped
      cases stepped
      simpa only [stage] using inMakethread (by rw [stage]; rfl) (by simp [stage])
  | create =>
      simp only [advance, stage] at stepped
      split at stepped
      · rename_i failed
        cases stepped
        simpa only [stage] using inMakethread (by rw [stage]; rfl) (fun _ => failed)
      · split at stepped
        · cases stepped
        · rename_i succeeds free
          cases stepped
          obtain rfl : err = 0 := not_not.mp succeeds
          exact .create here tip stage (by simpa using free)
  | destroy e =>
      simp only [advance, stage] at stepped
      cases stepped
      simpa only [stage] using inMakethread (by rw [stage]; rfl) (by simp [stage])
  | fprintf e =>
      simp only [advance, stage] at stepped
      cases stepped
      refine .move here tip (by simp [stage, Stage.holds]) (by simp [stage, Stage.handed])
        (by simp [Stage.handed]) ?_
      intro acts
      rw [acts, stage]
      rfl
  | free e =>
      simp only [advance, stage] at stepped
      split at stepped
      · rename_i gone
        cases stepped
        exact .callOutside here tip stage (by simpa using gone)
      · cases stepped
        exact .free here tip stage
  | exit e =>
      simp only [advance, stage] at stepped
      cases stepped
      exact .exit
  | returned =>
      simp only [advance, stage] at stepped
      cases stepped

theorem Effect.of_step {e : Event φ α} (stepped : s.step e = some s') : Effect s e s' := by
  cases e with
  | timeout i info block =>
      simp only [System.step] at stepped
      split at stepped
      · cases stepped
      · rename_i able
        rw [not_or, Bool.not_eq_true, Bool.not_eq_true, Option.isSome_eq_false_iff,
          Option.isSome_eq_false_iff, Option.isNone_iff_eq_none, Option.isNone_iff_eq_none] at able
        cases block with
        | none =>
            cases stepped
            exact .noMemory able.2
        | some a =>
            simp only [Timeout.timeout] at stepped
            split at stepped
            · cases stepped
            · rename_i free
              cases stepped
              exact .memory able.2 (by simpa using free)
  | caller i err tid =>
      simp only [System.step] at stepped
      split at stepped
      · rename_i c exited here
        cases tip : c.tip with
        | none =>
            rw [tip] at stepped
            cases stepped
        | some a =>
            rw [tip] at stepped
            exact .of_advance here tip stepped
      · cases stepped
  | helper tid =>
      simp only [System.step] at stepped
      split at stepped
      · rename_i t exited here
        simp only [Timeout.work] at stepped
        split at stepped
        · rename_i gone
          split at stepped
          · cases stepped
          · rename_i works
            cases stepped
            exact .helperOutside here works gone
        · rename_i block record
          split at stepped
          · cases stepped
          · rename_i act stage next
            cases stepped
            exact .work here record next
      · cases stepped

end Effects

end UnixDemos.Pthread.Timeout
