/-
# Library.Monitor — a mutex with a condition variable

`Monitor` is the mutex and who sleeps on the condition variable.  `pthread_cond_wait`
gives up the mutex and sleeps in one step, and on waking takes the mutex again; a thread
may also wake up without a signal.  A signal that finds nobody asleep is lost.

`Await` is the loop `lock; while (!cond) wait;` of one thread.  The loop is entered with
the mutex and with the condition true.  `Covered` is what keeps it from sleeping for ever:
if the condition holds while the thread sleeps, a signal is still due.  It is kept when
the condition is made true by a thread that has the mutex and signals afterwards.
-/
import Mathlib.Logic.Function.Basic

namespace UnixDemos.Library

set_option autoImplicit false

structure Monitor (θ : Type) where
  owner : Option θ
  asleep : θ → Bool

namespace Monitor

section Operations

variable {θ : Type} [DecidableEq θ] (m : Monitor θ) (p : θ)

def idle : Monitor θ := ⟨none, fun _ => false⟩

/-- `pthread_mutex_lock`; `none` while another thread has the mutex. -/
def lock : Option (Monitor θ) :=
  match m.owner with
  | none => some { m with owner := some p }
  | some _ => none

def unlock : Monitor θ := { m with owner := none }

/-- `pthread_cond_wait` up to its sleep. -/
def sleep : Monitor θ := { owner := none, asleep := Function.update m.asleep p true }

/-- A sleeper wakes up, for a signal or without one. -/
def wake : Monitor θ := { m with asleep := Function.update m.asleep p false }

end Operations

/-! ## Waiting for a condition -/

/-- Where a thread is in `lock; while (!cond) wait;`. -/
inductive Await where
  | locking
  | testing
  | sleeping
  | entered
  deriving DecidableEq, Repr

variable {θ : Type} [DecidableEq θ] {m m' : Monitor θ} {p q : θ} {a b : Await} {cond due : Bool}

/-- A thread that was woken has to take the mutex again before it tests. -/
def Await.step (m : Monitor θ) (p : θ) (cond : Bool) : Await → Option (Monitor θ × Await)
  | .locking => (m.lock p).map fun m => (m, .testing)
  | .testing => if cond then some (m, .entered) else some (m.sleep p, .sleeping)
  | .sleeping => if m.asleep p then none else (m.lock p).map fun m => (m, .testing)
  | .entered => none

/-- The thread has the mutex. -/
def Await.holds : Await → Bool
  | .testing | .entered => true
  | _ => false

/-- What the monitor knows of a thread at this place. -/
structure Await.At (m : Monitor θ) (p : θ) (a : Await) : Prop where
  owner : m.owner = some p ↔ a.holds = true
  asleep : m.asleep p = true → a = .sleeping

omit [DecidableEq θ] in
theorem lock_eq_some : m.lock p = some m' ↔ m.owner = none ∧ { m with owner := some p } = m' := by
  unfold lock
  cases m.owner <;> simp

omit [DecidableEq θ] in
theorem lock_isSome (free : m.owner = none) : m.lock p = some { m with owner := some p } :=
  lock_eq_some.mpr ⟨free, rfl⟩

namespace Await

/-- What one step does. -/
inductive Effect (m : Monitor θ) (p : θ) (cond : Bool) : Await → Monitor θ → Await → Prop where
  | locked (a : Await) (before : a = .locking ∨ a = .sleeping ∧ m.asleep p = false)
      (free : m.owner = none) : Effect m p cond a { m with owner := some p } .testing
  | entered (holds : cond = true) : Effect m p cond .testing m .entered
  | slept (fails : cond = false) : Effect m p cond .testing (m.sleep p) .sleeping

theorem step_effect (stepped : a.step m p cond = some (m', b)) : Effect m p cond a m' b := by
  cases a with
  | locking =>
      obtain ⟨_, locked, pair⟩ := Option.map_eq_some_iff.mp stepped
      obtain ⟨free, rfl⟩ := lock_eq_some.mp locked
      cases pair
      exact .locked _ (Or.inl rfl) free
  | testing =>
      simp only [step] at stepped
      split at stepped
      · rename_i holds
        cases stepped
        exact .entered holds
      · rename_i fails
        cases stepped
        exact .slept (Bool.eq_false_iff.mpr fails)
  | sleeping =>
      simp only [step] at stepped
      split at stepped
      · cases stepped
      · rename_i awake
        obtain ⟨_, locked, pair⟩ := Option.map_eq_some_iff.mp stepped
        obtain ⟨free, rfl⟩ := lock_eq_some.mp locked
        cases pair
        exact .locked _ (Or.inr ⟨rfl, Bool.eq_false_iff.mpr awake⟩) free
  | entered => cases stepped

theorem Effect.at (effect : Effect m p cond a m' b) (here : At m p a) : At m' p b := by
  cases effect with
  | locked a before free =>
      refine ⟨by simp [holds], fun asleep => ?_⟩
      rcases before with rfl | ⟨rfl, awake⟩
      · cases here.asleep asleep
      · rw [awake] at asleep
        cases asleep
  | entered holds' =>
      refine ⟨by simp [holds, here.owner.mpr rfl], fun asleep => ?_⟩
      cases here.asleep asleep
  | slept fails => exact ⟨by simp [sleep, holds], fun _ => rfl⟩

/-- If the condition holds while the thread sleeps, a signal is still due. -/
def Covered (m : Monitor θ) (p : θ) (cond due : Bool) : Prop :=
  m.asleep p = true → cond = true → due = true

theorem Effect.covered (effect : Effect m p cond a m' b) (covered : Covered m p cond due) :
    Covered m' p cond due := by
  cases effect with
  | locked a before free => exact covered
  | entered holds' => exact covered
  | slept fails =>
      intro _ holds'
      rw [fails] at holds'
      cases holds'

/-- A thread that can be covered gets on, once the mutex is free and no signal is due. -/
theorem step_isSome (covered : Covered m p cond false) (holds : cond = true)
    (free : a.holds = false → m.owner = none) (more : a ≠ .entered) :
    (a.step m p cond).isSome = true := by
  cases a with
  | locking => simp [step, lock_isSome (free rfl)]
  | testing => simp [step, holds]
  | sleeping =>
      have awake : m.asleep p = false := Bool.eq_false_iff.mpr fun asleep => by
        cases covered asleep holds
      simp [step, awake, lock_isSome (free rfl)]
  | entered => exact absurd rfl more

/-- How far the thread is from its next stop: the end of the loop, or sleep. -/
def left (cond : Bool) : Await → Nat
  | .locking | .sleeping => if cond then 2 else 0
  | .testing => 1
  | .entered => 0

theorem left_le (cond : Bool) (a : Await) : a.left cond ≤ 2 := by
  cases a <;> cases cond <;> decide

theorem Effect.left_lt (effect : Effect m p cond a m' b) (able : cond = true ∨ a = .testing) :
    b.left cond < a.left cond := by
  cases effect with
  | locked a before free =>
      have holds : cond = true :=
        able.resolve_right (by rcases before with rfl | ⟨rfl, -⟩ <;> nofun)
      subst holds
      rcases before with rfl | ⟨rfl, -⟩ <;> decide
  | entered holds' => exact Nat.zero_lt_one
  | slept fails =>
      subst fails
      decide

end Await

end Monitor

end UnixDemos.Library
