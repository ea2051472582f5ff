/-
# Library.Interleave — interleavings of two programs that commute

`Interleave as bs es` says that `es` is made of the events of `as` and of `bs`, each
in its order.  If every event of one program can be exchanged with every event of
the other (`Diamond`), then two programs that both can run from a state can run in
any interleaving, and all interleavings end in one state.
-/
import UnixDemos.Library.Run

namespace UnixDemos.Library

set_option autoImplicit false

universe u v

/-- `es` is an interleaving of `as` and `bs`. -/
inductive Interleave {ε : Type v} : List ε → List ε → List ε → Prop where
  | nil : Interleave [] [] []
  | left {as bs es : List ε} (a : ε) (rest : Interleave as bs es) :
      Interleave (a :: as) bs (a :: es)
  | right {as bs es : List ε} (b : ε) (rest : Interleave as bs es) :
      Interleave as (b :: bs) (b :: es)

section Diamond

variable {σ : Type u} {ε : Type v} (step : σ → ε → Option σ)

/-- Where both events can happen, either can follow the other, with one result. -/
def Diamond (a b : ε) : Prop :=
  ∀ s s₁ s₂, step s a = some s₁ → step s b = some s₂ →
    ∃ t, step s₁ b = some t ∧ step s₂ a = some t

variable {step}

theorem Diamond.symm {a b : ε} (diamond : Diamond step a b) : Diamond step b a := by
  intro s s₁ s₂ first second
  obtain ⟨t, after, before⟩ := diamond s s₂ s₁ second first
  exact ⟨t, before, after⟩

/-- An event moved past a whole program. -/
theorem diamond_run {e : ε} {es : List ε} {s s₁ s₂ : σ} (diamond : ∀ f ∈ es, Diamond step e f)
    (once : step s e = some s₁) (all : run step s es = some s₂) :
    ∃ t, run step s₁ es = some t ∧ step s₂ e = some t := by
  induction es generalizing s s₁ with
  | nil =>
      cases all
      exact ⟨s₁, rfl, once⟩
  | cons f es ih =>
      obtain ⟨m, first, rest⟩ := (run_cons_some step).mp all
      obtain ⟨m₁, after, before⟩ := diamond f List.mem_cons_self s s₁ m once first
      obtain ⟨t, through, last⟩ := ih (fun g member => diamond g (List.mem_cons_of_mem f member))
        before rest
      exact ⟨t, (run_cons_some step).mpr ⟨m₁, after, through⟩, last⟩

/-- Every interleaving ends where one program after the other ends. -/
theorem Interleave.run_eq {as bs es : List ε} {s sa sb : σ} (interleaved : Interleave as bs es)
    (diamond : ∀ a ∈ as, ∀ b ∈ bs, Diamond step a b) (first : run step s as = some sa)
    (second : run step s bs = some sb) :
    ∃ t, run step s es = some t ∧ run step sa bs = some t := by
  induction interleaved generalizing s sa sb with
  | nil =>
      cases first
      exact ⟨s, rfl, rfl⟩
  | left a rest ih =>
      obtain ⟨s₁, head, tail⟩ := (run_cons_some step).mp first
      obtain ⟨sb₁, other, -⟩ := diamond_run (diamond a List.mem_cons_self) head second
      obtain ⟨t, reached, same⟩ := ih
        (fun a' member => diamond a' (List.mem_cons_of_mem a member)) tail other
      exact ⟨t, (run_cons_some step).mpr ⟨s₁, head, reached⟩, same⟩
  | right b rest ih =>
      obtain ⟨s₂, head, tail⟩ := (run_cons_some step).mp second
      obtain ⟨sa₂, other, moved⟩ := diamond_run
        (fun a member => (diamond a member b List.mem_cons_self).symm) head first
      obtain ⟨t, reached, same⟩ := ih
        (fun a member b' member' => diamond a member b' (List.mem_cons_of_mem b member')) other tail
      exact ⟨t, (run_cons_some step).mpr ⟨s₂, head, reached⟩,
        (run_cons_some step).mpr ⟨sa₂, moved, same⟩⟩

end Diamond

end UnixDemos.Library
