/-
# Library.Run — runs of a partial step function

A system is a function `step : σ → ε → Option σ`.  An event carries everything
the outside world decides (who moves, what a system call answers); `none` says
that the event cannot happen in that state.  A run is the fold of `step` over a
list of events, so every state of every run is reached by some list.

* `run_invariant`: what every step preserves, every run preserves;
* `Along ok`: every step of the run starts in a state and with an event that
  satisfy `ok`; `run_along` is the invariant rule for such runs;
* `Leads`: some run reaches a goal; such runs are put together step by step, or found by
  a number that steps bring down (`leads_of_descent`);
* `restrict`: the steps of a system that are allowed to happen.
-/
import Mathlib.Data.List.Basic

namespace UnixDemos.Library

set_option autoImplicit false

universe u v

section Run

variable {σ : Type u} {ε : Type v} (step : σ → ε → Option σ)

/-- The state after the events of a list, if all of them can happen in turn. -/
def run : σ → List ε → Option σ
  | s, [] => some s
  | s, e :: es =>
      match step s e with
      | none => none
      | some t => run t es

/-- Every step of the run starts in a state and with an event that satisfy `ok`. -/
def Along (ok : σ → ε → Prop) : σ → List ε → Prop
  | _, [] => True
  | s, e :: es =>
      ok s e ∧
        match step s e with
        | none => True
        | some t => Along ok t es

instance decidableAlong (ok : σ → ε → Prop) [∀ s e, Decidable (ok s e)] :
    ∀ s es, Decidable (Along step ok s es)
  | _, [] => isTrue trivial
  | s, e :: es =>
      haveI : Decidable (match step s e with | none => True | some t => Along step ok t es) :=
        match step s e with
        | none => isTrue trivial
        | some t => decidableAlong ok t es
      inferInstanceAs (Decidable (ok s e ∧ _))

@[simp] theorem run_nil (s : σ) : run step s [] = some s := rfl

theorem run_cons (s : σ) (e : ε) (es : List ε) :
    run step s (e :: es) = (step s e).bind fun t => run step t es := by
  simp only [run]
  cases step s e <;> rfl

theorem run_cons_some {s t : σ} {e : ε} {es : List ε} :
    run step s (e :: es) = some t ↔ ∃ m, step s e = some m ∧ run step m es = some t := by
  rw [run_cons, Option.bind_eq_some_iff]

theorem run_append (s : σ) (es fs : List ε) :
    run step s (es ++ fs) = (run step s es).bind fun t => run step t fs := by
  induction es generalizing s with
  | nil => rfl
  | cons e es ih =>
      rw [List.cons_append, run_cons, run_cons]
      cases step s e with
      | none => rfl
      | some t => exact ih t

theorem along_cons {ok : σ → ε → Prop} {s : σ} {e : ε} {es : List ε} :
    Along step ok s (e :: es) ↔ ok s e ∧ ∀ t, step s e = some t → Along step ok t es := by
  simp only [Along]
  cases step s e <;> simp

theorem along_of_forall {ok : ε → Prop} {s : σ} {es : List ε} (all : ∀ e ∈ es, ok e) :
    Along step (fun _ e => ok e) s es := by
  induction es generalizing s with
  | nil => trivial
  | cons e es ih =>
      obtain ⟨here, later⟩ := List.forall_mem_cons.mp all
      exact (along_cons step).mpr ⟨here, fun t _ => ih later⟩

theorem along_and {ok ok' : σ → ε → Prop} {s : σ} {es : List ε} (along : Along step ok s es)
    (along' : Along step ok' s es) : Along step (fun s e => ok s e ∧ ok' s e) s es := by
  induction es generalizing s with
  | nil => trivial
  | cons e es ih =>
      obtain ⟨guard, later⟩ := (along_cons step).mp along
      obtain ⟨guard', later'⟩ := (along_cons step).mp along'
      exact (along_cons step).mpr
        ⟨⟨guard, guard'⟩, fun t first => ih (later t first) (later' t first)⟩

/-- An invariant of guarded steps holds after every guarded run. -/
theorem run_along {ok : σ → ε → Prop} (inv : σ → Prop)
    (keep : ∀ s e t, inv s → ok s e → step s e = some t → inv t) {s t : σ} {es : List ε}
    (start : inv s) (along : Along step ok s es) (reached : run step s es = some t) : inv t := by
  induction es generalizing s with
  | nil =>
      cases reached
      exact start
  | cons e es ih =>
      obtain ⟨m, first, rest⟩ := (run_cons_some step).mp reached
      obtain ⟨guard, later⟩ := (along_cons step).mp along
      exact ih (keep s e m start guard first) (later m first) rest

/-- What every step preserves, every run preserves. -/
theorem run_invariant (inv : σ → Prop)
    (keep : ∀ s e t, inv s → step s e = some t → inv t) {s t : σ} {es : List ε}
    (start : inv s) (reached : run step s es = some t) : inv t := by
  induction es generalizing s with
  | nil =>
      cases reached
      exact start
  | cons e es ih =>
      obtain ⟨m, first, rest⟩ := (run_cons_some step).mp reached
      exact ih (keep s e m start first) rest

/-- Some events lead from `s` to a state that satisfies `goal`. -/
def Leads (s : σ) (goal : σ → Prop) : Prop := ∃ es t, run step s es = some t ∧ goal t

/-- The steps that `allowed` lets happen. -/
def restrict (allowed : σ → ε → Prop) [∀ s e, Decidable (allowed s e)] (s : σ) (e : ε) :
    Option σ :=
  if allowed s e then step s e else none

variable {step}

theorem restrict_eq_some {allowed : σ → ε → Prop} [∀ s e, Decidable (allowed s e)] {s t : σ}
    {e : ε} : restrict step allowed s e = some t ↔ allowed s e ∧ step s e = some t := by
  unfold restrict
  split <;> simp_all

theorem leads_here {s : σ} {goal : σ → Prop} (holds : goal s) : Leads step s goal :=
  ⟨[], s, rfl, holds⟩

theorem leads_step {s t : σ} {goal : σ → Prop} (e : ε) (first : step s e = some t)
    (later : Leads step t goal) : Leads step s goal := by
  obtain ⟨es, u, reached, holds⟩ := later
  exact ⟨e :: es, u, (run_cons_some step).mpr ⟨t, first, reached⟩, holds⟩

theorem Leads.trans {s : σ} {middle goal : σ → Prop} (first : Leads step s middle)
    (further : ∀ t, middle t → Leads step t goal) : Leads step s goal := by
  obtain ⟨es, t, reached, holds⟩ := first
  obtain ⟨fs, u, reached', holds'⟩ := further t holds
  refine ⟨es ++ fs, u, ?_, holds'⟩
  rw [run_append, reached]
  exact reached'

/-- While `goal` is not reached, some step keeps `inv` and brings `left` down. -/
theorem leads_of_descent {inv : σ → Prop} (goal : σ → Prop) (left : σ → Nat)
    (advance : ∀ s, inv s → ¬ goal s → ∃ e t, step s e = some t ∧ inv t ∧ left t < left s)
    {s : σ} (holds : inv s) : Leads step s fun t => inv t ∧ goal t := by
  induction n : left s using Nat.strongRecOn generalizing s with
  | _ n ih =>
      by_cases reached : goal s
      · exact leads_here ⟨holds, reached⟩
      · obtain ⟨e, t, stepped, holds', less⟩ := advance s holds reached
        exact leads_step e stepped (ih _ (n ▸ less) holds' rfl)

end Run

end UnixDemos.Library
