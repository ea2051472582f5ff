/-
# Pthread.RefCountSafety — reference-count safety under the ownership discipline

`foo_rele` destroys and frees the object after it has released the mutex.  What
keeps the window safe is not the lock but the count: a thread between `lock` and
the change of `f_count` still owns the reference it called with, so when the
count drops to zero no thread can be waiting for the mutex or about to take it.

`Inv` says this step by step.  `f_count` is the number of outstanding references
at every point, the mutex is held exactly by the thread inside the critical
section, a thread on its way to the count owns a reference, and a thread on the
teardown path (`dying`) is alone: nothing is outstanding and everybody else is
outside a call.  `Inv.move` is the step rule for steps that only move a thread
and the lock; the steps that change the count, destroy or free have their own.
-/
import UnixDemos.Pthread.RefCount
import Mathlib.Algebra.BigOperators.Group.Finset.Piecewise
import Mathlib.Algebra.Order.BigOperators.Group.Finset

namespace UnixDemos.Pthread.RefCount

open UnixDemos.Library

set_option autoImplicit false

/-! ## Points of the two functions -/

/-- Between taking and releasing the mutex. -/
def Pc.critical : Pc → Bool
  | .holdPrint | .holdIncrement | .holdUnlock => true
  | .releDecrement | .releTest _ | .relePrint | .releUnlockLast | .releUnlock => true
  | _ => false

/-- Inside a call and not yet past the change of the count. -/
def Pc.owning : Pc → Bool
  | .holdLock | .holdPrint | .holdIncrement | .releLock | .releDecrement => true
  | _ => false

/-- On the way from a count of zero to the free. -/
def Pc.dying : Pc → Bool
  | .releTest value => value = 0
  | .relePrint | .releUnlockLast | .releDestroy | .releFree => true
  | _ => false

section Safety

variable {T : Type} [DecidableEq T] [Fintype T]

set_option linter.unusedSectionVars false

/-- The number of references the threads own together. -/
def System.outstanding (s : System T) : Nat := ∑ t, s.refs t

variable {s s' : System T} {t : T}

theorem refs_le_outstanding (s : System T) (t : T) : s.refs t ≤ s.outstanding :=
  Finset.single_le_sum (fun _ _ => Nat.zero_le _) (Finset.mem_univ t)

theorem outstanding_update (s s' : System T) {n : Nat}
    (refs : s'.refs = Function.update s.refs t n) :
    s'.outstanding + s.refs t = s.outstanding + n := by
  have rest : ∑ u ∈ Finset.univ.erase t, Function.update s.refs t n u =
      ∑ u ∈ Finset.univ.erase t, s.refs u :=
    Finset.sum_congr rfl fun u other => by rw [Function.update_of_ne (Finset.ne_of_mem_erase other)]
  unfold System.outstanding
  rw [refs, ← Finset.add_sum_erase _ _ (Finset.mem_univ t),
    ← Finset.add_sum_erase _ s.refs (Finset.mem_univ t), rest, Function.update_self]
  omega

/-! ## The invariant -/

/-- Live; destroyed with one thread about to free it; or freed and left alone. -/
inductive Phase (s : System T) : Prop where
  | live (destroys : s.destroys = 0) (frees : s.frees = 0) (none : ∀ t, s.pc t ≠ .releFree)
  | destroyed (destroys : s.destroys = 1) (frees : s.frees = 0) (t : T) (last : s.pc t = .releFree)
  | freed (destroys : s.destroys = 1) (frees : s.frees = 1) (given : s.outstanding = 0)
      (idle : ∀ t, s.pc t = .idle)

structure Inv (s : System T) : Prop where
  misuse : s.misuse = false
  lock : ∀ t, s.foo.fLock = some t ↔ (s.pc t).critical = true
  owns : ∀ t, (s.pc t).owning = true → 0 < s.refs t
  count : s.foo.fCount = s.outstanding
  test : ∀ t v, s.pc t = .releTest v → v = s.foo.fCount
  dying : ∀ t, (s.pc t).dying = true → s.outstanding = 0 ∧ ∀ u, u ≠ t → s.pc u = .idle
  ended : s.outstanding = 0 → s.frees = 1 ∨ ∃ t, (s.pc t).dying = true
  phase : Phase s

/-- A thread inside a call, or owning a reference, is not alone with a dying
thread. -/
theorem Inv.alone (inv : Inv s) (busy : s.pc t ≠ .idle ∨ 0 < s.refs t) :
    ∀ u, u ≠ t → (s.pc u).dying = false := by
  intro u other
  by_contra dies
  obtain ⟨given, idle⟩ := inv.dying u (by simpa using dies)
  have none := refs_le_outstanding s t
  rcases busy with inside | owns
  · exact inside (idle t (Ne.symm other))
  · omega

theorem Inv.alive (inv : Inv s) (busy : s.pc t ≠ .idle ∨ 0 < s.refs t)
    (notFree : s.pc t ≠ .releFree) : s.destroys = 0 := by
  cases inv.phase with
  | live destroys => exact destroys
  | destroyed _ _ u last =>
      have other : u ≠ t := fun same => notFree (same ▸ last)
      have := inv.alone busy u other
      simp [last, Pc.dying] at this
  | freed _ _ given idle =>
      have none := refs_le_outstanding s t
      rcases busy with inside | owns
      · exact absurd (idle t) inside
      · omega

/-! ## Moving one thread -/

theorem lock_acquire (inv : Inv s) {pc : Pc} (unlocked : s.foo.fLock = none)
    (enters : pc.critical = true) (u : T) :
    some t = some u ↔ (Function.update s.pc t pc u).critical = true := by
  by_cases same : u = t
  · subst same
    simp [enters]
  · have outside := inv.lock u
    rw [unlocked] at outside
    simp only [Function.update_of_ne same, ← outside]
    simp [Ne.symm same]

theorem lock_keep (inv : Inv s) {pc : Pc} (stays : pc.critical = (s.pc t).critical) (u : T) :
    s.foo.fLock = some u ↔ (Function.update s.pc t pc u).critical = true := by
  rw [inv.lock u]
  by_cases same : u = t
  · subst same
    simp [stays]
  · simp [Function.update_of_ne same]

theorem lock_release (inv : Inv s) {pc : Pc} (inside : (s.pc t).critical = true)
    (leaves : pc.critical = false) (u : T) :
    none = some u ↔ (Function.update s.pc t pc u).critical = true := by
  have held := (inv.lock t).mpr inside
  by_cases same : u = t
  · subst same
    simp [leaves]
  · have outside := inv.lock u
    rw [held] at outside
    simp only [Function.update_of_ne same, ← outside]
    simp [Ne.symm same]

/-- The step rule.  When one thread moves and no other is dying, the invariant of
every other thread is kept, and what is left to show concerns the thread that
moved. -/
theorem Inv.frame {pc : Pc} (inv : Inv s) (alone : ∀ u, u ≠ t → (s.pc u).dying = false)
    (moved : s'.pc = Function.update s.pc t pc) (others : ∀ u, u ≠ t → s'.refs u = s.refs u)
    (misuse : s'.misuse = false)
    (lock : ∀ u, s'.foo.fLock = some u ↔ (Function.update s.pc t pc u).critical = true)
    (owns : pc.owning = true → 0 < s'.refs t) (count : s'.foo.fCount = s'.outstanding)
    (test : ∀ v, pc = .releTest v → v = s'.foo.fCount)
    (stable : (∃ u, u ≠ t ∧ (s.pc u).critical = true) → s'.foo.fCount = s.foo.fCount)
    (dying : pc.dying = true → s'.outstanding = 0 ∧ ∀ u, u ≠ t → s.pc u = .idle)
    (ended : s'.outstanding = 0 → s'.frees = 1 ∨ pc.dying = true) (phase : Phase s') : Inv s' := by
  have elsewhere : ∀ u, u ≠ t → s'.pc u = s.pc u := fun u other => by
    rw [moved, Function.update_of_ne other]
  have here : s'.pc t = pc := by rw [moved, Function.update_self]
  refine ⟨misuse, fun u => ?_, fun u => ?_, count, fun u v => ?_, fun u => ?_, fun none => ?_, phase⟩
  · rw [lock u, moved]
  · by_cases same : u = t
    · subst same
      rw [here]
      exact owns
    · rw [elsewhere u same, others u same]
      exact inv.owns u
  · by_cases same : u = t
    · subst same
      rw [here]
      exact test v
    · rw [elsewhere u same]
      intro testing
      rw [stable ⟨u, same, by rw [testing]; rfl⟩]
      exact inv.test u v testing
  · by_cases same : u = t
    · subst same
      rw [here]
      intro dies
      obtain ⟨none, idle⟩ := dying dies
      exact ⟨none, fun w other => by rw [elsewhere w other, idle w other]⟩
    · rw [elsewhere u same, alone u same]
      simp
  · rcases ended none with freed | dies
    · exact Or.inl freed
    · exact Or.inr ⟨t, by rw [here]; exact dies⟩

/-- A step on a live object leaves it live unless it is the destroy. -/
theorem Inv.stays_live {pc : Pc} (inv : Inv s) (alive : s.destroys = 0)
    (moved : s'.pc = Function.update s.pc t pc) (destroys : s'.destroys = s.destroys)
    (frees : s'.frees = s.frees) (live : pc ≠ .releFree) : Phase s' := by
  cases inv.phase with
  | live d f none =>
      refine .live (destroys.trans d) (frees.trans f) fun u => ?_
      rw [moved]
      by_cases same : u = t
      · subst same
        rw [Function.update_self]
        exact live
      · rw [Function.update_of_ne same]
        exact none u
  | destroyed d => omega
  | freed d => omega

theorem touch_misuse (clean : s.misuse = false) (alive : s.destroys = 0) :
    (s.touch t).misuse = false := by
  simp [System.touch, clean, alive]

/-- A step that moves one thread, and perhaps the lock, on a live object. -/
theorem Inv.move (pc : Pc) (inv : Inv s) (busy : s.pc t ≠ .idle ∨ 0 < s.refs t)
    (notFree : s.pc t ≠ .releFree)
    (moved : s'.pc = Function.update s.pc t pc) (refs : s'.refs = s.refs)
    (count : s'.foo.fCount = s.foo.fCount) (destroys : s'.destroys = s.destroys)
    (frees : s'.frees = s.frees) (misuse : s.destroys = 0 → s'.misuse = false)
    (lock : ∀ u, s'.foo.fLock = some u ↔ (Function.update s.pc t pc u).critical = true)
    (owns : pc.owning = true → 0 < s.refs t) (test : ∀ v, pc ≠ .releTest v)
    (dies : pc.dying = (s.pc t).dying) (live : pc ≠ .releFree) : Inv s' := by
  have alive := inv.alive busy notFree
  have alone := inv.alone busy
  have given : s'.outstanding = s.outstanding := by
    unfold System.outstanding
    rw [refs]
  refine inv.frame alone moved (fun u _ => by rw [refs]) (misuse alive) lock (by rwa [refs])
    (by rw [count, given, inv.count]) (fun v impossible => absurd impossible (test v))
    (fun _ => count) ?_ ?_ (inv.stays_live alive moved destroys frees live)
  · rw [dies, given]
    exact inv.dying t
  · rw [dies, given, frees]
    intro none
    rcases inv.ended none with freed | ⟨u, dying⟩
    · exact Or.inl freed
    · by_cases same : u = t
      · exact Or.inr (same ▸ dying)
      · rw [alone u same] at dying
        cases dying

/-! ## The steps that change the count -/

theorem Pc.eq_idle {pc : Pc} (outside : pc.critical = false) (free : pc.owning = false)
    (living : pc.dying = false) : pc = .idle := by
  cases pc <;> simp_all [Pc.critical, Pc.owning, Pc.dying]

/-- While one thread is in the critical section every other is outside it. -/
theorem Inv.excluded (inv : Inv s) (inside : (s.pc t).critical = true) {u : T} (other : u ≠ t) :
    (s.pc u).critical = false := by
  have held := (inv.lock t).mpr inside
  by_contra also
  have := (inv.lock u).mpr (by simpa using also)
  rw [held, Option.some.injEq] at this
  exact other this.symm

theorem Inv.increment (inv : Inv s) (here : s.pc t = .holdIncrement)
    (moved : s'.pc = Function.update s.pc t .holdUnlock)
    (refs : s'.refs = Function.update s.refs t (s.refs t + 1))
    (count : s'.foo.fCount = increment s.foo.fCount) (lock : s'.foo.fLock = s.foo.fLock)
    (destroys : s'.destroys = s.destroys) (frees : s'.frees = s.frees)
    (misuse : s.destroys = 0 → s'.misuse = false) (bound : s'.outstanding < 2 ^ 31) : Inv s' := by
  have busy : s.pc t ≠ .idle ∨ 0 < s.refs t := Or.inl (by simp [here])
  have alive := inv.alive busy (by simp [here])
  have inside : (s.pc t).critical = true := by rw [here]; rfl
  have given := outstanding_update s s' refs
  refine inv.frame (inv.alone busy) moved (fun u other => by rw [refs, Function.update_of_ne other])
    (misuse alive) ?_ (by simp [Pc.owning]) ?_ (by simp) ?_ (by simp [Pc.dying]) ?_
    (inv.stays_live alive moved destroys frees (by simp))
  · rw [lock]
    exact lock_keep inv (by rw [here]; rfl)
  · unfold RefCount.increment at count
    rw [count, inv.count, wrap32_of_mem] <;> omega
  · rintro ⟨u, other, also⟩
    rw [inv.excluded inside other] at also
    cases also
  · intro none
    omega

theorem Inv.decrement (inv : Inv s) (here : s.pc t = .releDecrement)
    (moved : s'.pc = Function.update s.pc t (.releTest (decrement s.foo.fCount)))
    (refs : s'.refs = Function.update s.refs t (s.refs t - 1))
    (count : s'.foo.fCount = decrement s.foo.fCount) (lock : s'.foo.fLock = s.foo.fLock)
    (destroys : s'.destroys = s.destroys) (frees : s'.frees = s.frees)
    (misuse : s.destroys = 0 → s'.misuse = false) (bound : s.outstanding < 2 ^ 31) : Inv s' := by
  have busy : s.pc t ≠ .idle ∨ 0 < s.refs t := Or.inl (by simp [here])
  have alive := inv.alive busy (by simp [here])
  have alone := inv.alone busy
  have inside : (s.pc t).critical = true := by rw [here]; rfl
  have owns : 0 < s.refs t := inv.owns t (by rw [here]; rfl)
  have given := outstanding_update s s' refs
  have counted : RefCount.decrement s.foo.fCount = s'.outstanding := by
    unfold RefCount.decrement
    rw [inv.count, wrap32_of_mem] <;> omega
  refine inv.frame alone moved (fun u other => by rw [refs, Function.update_of_ne other])
    (misuse alive) ?_ (by simp [Pc.owning]) (count.trans counted) ?_ ?_ ?_ ?_
    (inv.stays_live alive moved destroys frees (by simp))
  · rw [lock]
    exact lock_keep inv (by rw [here]; rfl)
  · rintro v ⟨⟩
    exact count.symm
  · rintro ⟨u, other, also⟩
    rw [inv.excluded inside other] at also
    cases also
  · -- the count is zero: whoever else were inside a call would own a reference
    intro last
    have none : s'.outstanding = 0 := by
      have zero : RefCount.decrement s.foo.fCount = 0 := by simpa [Pc.dying] using last
      omega
    refine ⟨none, fun u other => Pc.eq_idle (inv.excluded inside other) ?_ (alone u other)⟩
    by_contra owning
    have has := inv.owns u (by simpa using owning)
    have kept : s'.refs u = s.refs u := by rw [refs, Function.update_of_ne other]
    have := refs_le_outstanding s' u
    omega
  · intro none
    right
    simp [Pc.dying, counted, none]

/-! ## Teardown and hand-over -/

theorem Inv.destroy (inv : Inv s) (here : s.pc t = .releDestroy)
    (moved : s'.pc = Function.update s.pc t .releFree) (refs : s'.refs = s.refs)
    (foo : s'.foo = s.foo) (destroys : s'.destroys = s.destroys + 1) (frees : s'.frees = s.frees)
    (misuse : s.destroys = 0 → s'.misuse = false) : Inv s' := by
  have busy : s.pc t ≠ .idle ∨ 0 < s.refs t := Or.inl (by simp [here])
  have alive := inv.alive busy (by simp [here])
  obtain ⟨none, idle⟩ := inv.dying t (by rw [here]; rfl)
  have given : s'.outstanding = s.outstanding := by
    unfold System.outstanding
    rw [refs]
  refine inv.frame (inv.alone busy) moved (fun u _ => by rw [refs]) (misuse alive) ?_
    (by simp [Pc.owning]) (by rw [foo, given, inv.count]) (by simp) (fun _ => by rw [foo])
    (fun _ => ⟨given.trans none, idle⟩) (fun _ => Or.inr rfl) ?_
  · rw [foo]
    exact lock_keep inv (by rw [here]; rfl)
  · have unfreed : s.frees = 0 := by
      cases inv.phase with
      | live _ f => exact f
      | destroyed d => omega
      | freed d => omega
    exact .destroyed (by omega) (by omega) t (by rw [moved, Function.update_self])

theorem Inv.free (inv : Inv s) (here : s.pc t = .releFree)
    (moved : s'.pc = Function.update s.pc t .idle) (refs : s'.refs = s.refs)
    (foo : s'.foo = s.foo) (destroys : s'.destroys = s.destroys) (frees : s'.frees = s.frees + 1)
    (misuse : s'.misuse = s.misuse) : Inv s' := by
  have busy : s.pc t ≠ .idle ∨ 0 < s.refs t := Or.inl (by simp [here])
  obtain ⟨none, idle⟩ := inv.dying t (by rw [here]; rfl)
  have given : s'.outstanding = s.outstanding := by
    unfold System.outstanding
    rw [refs]
  obtain ⟨d, f⟩ : s.destroys = 1 ∧ s.frees = 0 := by
    cases inv.phase with
    | live _ _ unfreed => exact absurd here (unfreed t)
    | destroyed d f => exact ⟨d, f⟩
    | freed _ _ _ allIdle =>
        have := allIdle t
        rw [here] at this
        cases this
  refine inv.frame (inv.alone busy) moved (fun u _ => by rw [refs]) (misuse.trans inv.misuse) ?_
    (by simp [Pc.owning]) (by rw [foo, given, inv.count]) (by simp) (fun _ => by rw [foo])
    (by simp [Pc.dying]) (fun _ => Or.inl (by omega)) ?_
  · rw [foo]
    exact lock_keep inv (by rw [here]; rfl)
  · refine .freed (destroys.trans d) (by omega) (given.trans none) fun u => ?_
    rw [moved]
    by_cases same : u = t
    · subst same
      rw [Function.update_self]
    · rw [Function.update_of_ne same]
      exact idle u same

theorem Inv.hand {u : T} (inv : Inv s) (idle : s.pc t = .idle) (owns : 0 < s.refs t) :
    Inv ((s.own t (s.refs t - 1)).own u ((s.own t (s.refs t - 1)).refs u + 1)) := by
  have given : ((s.own t (s.refs t - 1)).own u ((s.own t (s.refs t - 1)).refs u + 1)).outstanding =
      s.outstanding := by
    have taken := outstanding_update s (s.own t (s.refs t - 1)) rfl
    have put := outstanding_update (s.own t (s.refs t - 1))
      ((s.own t (s.refs t - 1)).own u ((s.own t (s.refs t - 1)).refs u + 1)) rfl
    omega
  -- only the giver can lose a reference, and the giver is outside a call
  have kept : ∀ w, w ≠ t →
      s.refs w ≤ ((s.own t (s.refs t - 1)).own u ((s.own t (s.refs t - 1)).refs u + 1)).refs w := by
    intro w other
    by_cases same : w = u
    · subst same
      simp [System.own, Function.update_of_ne other]
    · simp [System.own, Function.update_of_ne same, Function.update_of_ne other]
  refine ⟨inv.misuse, inv.lock, fun w owning => ?_, by rw [given]; exact inv.count, inv.test,
    by rw [given]; exact inv.dying, by rw [given]; exact inv.ended, ?_⟩
  · have other : w ≠ t := by
      rintro rfl
      change (s.pc w).owning = true at owning
      simp [idle, Pc.owning] at owning
    exact lt_of_lt_of_le (inv.owns w owning) (kept w other)
  · cases inv.phase with
    | live d f unfreed => exact .live d f unfreed
    | destroyed d f w last => exact .destroyed d f w last
    | freed _ _ none =>
        have := refs_le_outstanding s t
        omega

/-! ## Every run -/

theorem Inv.advance (inv : Inv s) (before : s.outstanding < 2 ^ 31)
    (after : s'.outstanding < 2 ^ 31)
    (step : s.advance t = some s') : Inv s' := by
  have clean : s.destroys = 0 → (s.touch t).misuse = false := touch_misuse inv.misuse
  unfold System.advance at step
  cases here : s.pc t with
  | idle => simp [here, System.exec] at step
  | holdLock =>
      rw [here] at step
      simp only [System.exec] at step
      split at step
      · rename_i unlocked
        cases step
        exact inv.move .holdPrint (Or.inl (by simp [here])) (by simp [here]) rfl rfl rfl rfl
          rfl clean (lock_acquire inv unlocked rfl) (fun _ => inv.owns t (by rw [here]; rfl)) (by simp)
          (by rw [here]; rfl) (by simp)
      · cases step
  | holdPrint =>
      rw [here] at step
      cases step
      exact inv.move .holdIncrement (Or.inl (by simp [here])) (by simp [here]) rfl rfl rfl rfl
        rfl clean (lock_keep inv (by rw [here]; rfl)) (fun _ => inv.owns t (by rw [here]; rfl)) (by simp)
        (by rw [here]; rfl) (by simp)
  | holdIncrement =>
      rw [here] at step
      cases step
      exact inv.increment here rfl rfl rfl rfl rfl rfl clean after
  | holdUnlock =>
      rw [here] at step
      cases step
      exact inv.move .idle (Or.inl (by simp [here])) (by simp [here]) rfl rfl rfl rfl
        rfl clean (lock_release inv (by rw [here]; rfl) rfl) (by simp [Pc.owning]) (by simp)
        (by rw [here]; rfl) (by simp)
  | releLock =>
      rw [here] at step
      simp only [System.exec] at step
      split at step
      · rename_i unlocked
        cases step
        exact inv.move .releDecrement (Or.inl (by simp [here])) (by simp [here]) rfl rfl rfl rfl
          rfl clean (lock_acquire inv unlocked rfl) (fun _ => inv.owns t (by rw [here]; rfl)) (by simp)
          (by rw [here]; rfl) (by simp)
      · cases step
  | releDecrement =>
      rw [here] at step
      cases step
      exact inv.decrement here rfl rfl rfl rfl rfl rfl clean before
  | releTest value =>
      rw [here] at step
      cases step
      by_cases zero : value = 0
      · exact inv.move (t := t) .relePrint (Or.inl (by simp [here])) (by simp [here])
          (by simp [System.goto, System.touch, zero]) rfl rfl rfl rfl clean
          (lock_keep inv (by rw [here]; rfl)) (by simp [Pc.owning]) (by simp)
          (by simp [here, zero, Pc.dying]) (by simp)
      · exact inv.move (t := t) .releUnlock (Or.inl (by simp [here])) (by simp [here])
          (by simp [System.goto, System.touch, zero]) rfl rfl rfl rfl clean
          (lock_keep inv (by rw [here]; rfl)) (by simp [Pc.owning]) (by simp)
          (by simp [here, zero, Pc.dying]) (by simp)
  | relePrint =>
      rw [here] at step
      cases step
      exact inv.move .releUnlockLast (Or.inl (by simp [here])) (by simp [here]) rfl rfl rfl rfl
        rfl clean (lock_keep inv (by rw [here]; rfl)) (by simp [Pc.owning]) (by simp)
        (by rw [here]; rfl) (by simp)
  | releUnlockLast =>
      rw [here] at step
      cases step
      exact inv.move .releDestroy (Or.inl (by simp [here])) (by simp [here]) rfl rfl rfl rfl
        rfl clean (lock_release inv (by rw [here]; rfl) rfl) (by simp [Pc.owning]) (by simp)
        (by rw [here]; rfl) (by simp)
  | releDestroy =>
      rw [here] at step
      cases step
      exact inv.destroy here rfl rfl rfl rfl rfl clean
  | releFree =>
      rw [here] at step
      cases step
      exact inv.free here rfl rfl rfl rfl rfl (by simp [System.goto, System.touch, here, Pc.uses])
  | releUnlock =>
      rw [here] at step
      cases step
      exact inv.move .idle (Or.inl (by simp [here])) (by simp [here]) rfl rfl rfl rfl
        rfl clean (lock_release inv (by rw [here]; rfl) rfl) (by simp [Pc.owning]) (by simp)
        (by rw [here]; rfl) (by simp)

theorem Inv.next {e : Event T} (inv : Inv s) (before : s.outstanding < 2 ^ 31)
    (after : s'.outstanding < 2 ^ 31) (step : s.next e = some s') : Inv s' := by
  cases e with
  | fooHold t =>
      simp only [System.next] at step
      split at step
      · rename_i may
        cases step
        exact inv.move .holdLock (Or.inr may.2) (by simp [may.1]) rfl rfl rfl rfl rfl
          (fun _ => inv.misuse) (lock_keep inv (by rw [may.1]; rfl)) (fun _ => may.2) (by simp)
          (by rw [may.1]; rfl) (by simp)
      · cases step
  | fooRele t =>
      simp only [System.next] at step
      split at step
      · rename_i may
        cases step
        exact inv.move .releLock (Or.inr may.2) (by simp [may.1]) rfl rfl rfl rfl rfl
          (fun _ => inv.misuse) (lock_keep inv (by rw [may.1]; rfl)) (fun _ => may.2) (by simp)
          (by rw [may.1]; rfl) (by simp)
      · cases step
  | hand t u =>
      simp only [System.next] at step
      split at step
      · rename_i may
        cases step
        exact inv.hand may.1 may.2
      · cases step
  | step t => exact inv.advance before after step

/-- After the step fewer than 2^31 references are outstanding. -/
def Bounded (s : System T) (e : Event T) : Prop := ∀ s' ∈ s.next e, s'.outstanding < 2 ^ 31

instance (s : System T) (e : Event T) : Decidable (Bounded s e) :=
  inferInstanceAs (Decidable (∀ s' ∈ s.next e, s'.outstanding < 2 ^ 31))

theorem outstanding_start (fp : Foo T) (owner : T) : (System.start fp owner).outstanding = 1 := by
  unfold System.outstanding System.start
  simp [Finset.sum_update_of_mem]

theorem start_inv {fp : Foo T} {owner : T} (count : fp.fCount = 1) (unlocked : fp.fLock = none) :
    Inv (System.start fp owner) := by
  have one := outstanding_start fp owner
  refine ⟨rfl, fun t => ?_, fun t owning => ?_, ?_, fun t v testing => ?_, fun t dying => ?_,
    fun none => ?_, .live rfl rfl fun t last => ?_⟩
  · simp [System.start, unlocked, Pc.critical]
  · simp [System.start, Pc.owning] at owning
  · rw [one]
    exact count
  · simp [System.start] at testing
  · simp [System.start, Pc.dying] at dying
  · omega
  · simp [System.start] at last

theorem run_inv {fp : Foo T} {owner : T} {events : List (Event T)} (count : fp.fCount = 1)
    (unlocked : fp.fLock = none) (bounded : Along System.next Bounded (System.start fp owner) events)
    (reached : run System.next (System.start fp owner) events = some s) : Inv s := by
  have both : Inv s ∧ s.outstanding < 2 ^ 31 := by
    refine run_along System.next (fun s => Inv s ∧ s.outstanding < 2 ^ 31) ?_
      ⟨start_inv count unlocked, by rw [outstanding_start]; decide⟩ bounded reached
    rintro s e s' ⟨inv, before⟩ within step
    have after := within s' step
    exact ⟨inv.next before after step, after⟩
  exact both.1

theorem fooAlloc_spec {mallocOk : Bool} {err id : Int} {fp : Foo T}
    (alloc : fooAlloc T mallocOk err id = some fp) : fp.fCount = 1 ∧ fp.fLock = none := by
  unfold fooAlloc at alloc
  split at alloc
  · split at alloc
    · cases alloc
    · cases alloc
      exact ⟨rfl, rfl⟩
  · cases alloc

/-- A thread on the teardown path is never blocked. -/
theorem advance_of_dying (dying : (s.pc t).dying = true) : (s.advance t).isSome = true := by
  unfold System.advance
  cases here : s.pc t <;> simp_all [Pc.dying, System.exec]

theorem Inv.no_use_after_destroy (inv : Inv s) (destroyed : s.destroys ≠ 0) (t : T) :
    (s.pc t).uses = false := by
  cases inv.phase with
  | live d => exact absurd d destroyed
  | destroyed _ _ u last =>
      by_cases same : t = u
      · rw [same, last]
        rfl
      · rw [(inv.dying u (by rw [last]; rfl)).2 t same]
        rfl
  | freed _ _ _ idle =>
      rw [idle t]
      rfl

/-- **Reference-count safety.**  In every state that any number of threads can
reach on an object from `foo_alloc`, in any interleaving of the single steps of
`foo_hold` and `foo_rele` called by owners only, with fewer than 2^31 references
outstanding throughout:

* whenever the mutex is free and the object live, `f_count` is the number of
  outstanding references;
* the object is destroyed and freed at most once, in this order, and only when
  no reference is outstanding;
* once none is outstanding it has been freed, or the thread that gave up the last
  one is on its way there and never blocked; so when all threads are outside it
  was destroyed and freed exactly once;
* no step has used the lock or a field after the destroy, and after it no thread
  stands at such a step. -/
theorem fooRefs_safe (mallocOk : Bool) (err id : Int) (fp : Foo T)
    (alloc : fooAlloc T mallocOk err id = some fp) (owner : T) (events : List (Event T))
    (bounded : Along System.next Bounded (System.start fp owner) events) (s : System T)
    (reached : run System.next (System.start fp owner) events = some s) :
    (s.foo.fLock = none → s.destroys = 0 → s.foo.fCount = s.outstanding) ∧
    s.frees ≤ s.destroys ∧ s.destroys ≤ 1 ∧ (s.destroys ≠ 0 → s.outstanding = 0) ∧
    (s.outstanding = 0 → s.frees = 1 ∨ ∃ t, (s.pc t).dying = true ∧ (s.advance t).isSome = true) ∧
    (s.outstanding = 0 → (∀ t, s.pc t = .idle) → s.destroys = 1 ∧ s.frees = 1) ∧
    s.misuse = false ∧ (s.destroys ≠ 0 → ∀ t, (s.pc t).uses = false) := by
  obtain ⟨count, unlocked⟩ := fooAlloc_spec alloc
  have inv := run_inv count unlocked bounded reached
  refine ⟨fun _ _ => inv.count, ?_, ?_, fun destroyed => ?_, fun none => ?_, fun none idle => ?_,
    inv.misuse, inv.no_use_after_destroy⟩
  · cases inv.phase <;> omega
  · cases inv.phase <;> omega
  · cases inv.phase with
    | live d => exact absurd d destroyed
    | destroyed _ _ t last => exact (inv.dying t (by rw [last]; rfl)).1
    | freed _ _ none => exact none
  · rcases inv.ended none with freed | ⟨t, dying⟩
    · exact Or.inl freed
    · exact Or.inr ⟨t, dying, advance_of_dying dying⟩
  · have freed : s.frees = 1 := by
      rcases inv.ended none with freed | ⟨t, dying⟩
      · exact freed
      · rw [idle t] at dying
        cases dying
    cases inv.phase <;> omega

end Safety

/-- Thread 0 takes a second reference and hands it over, and both threads give
theirs up at the same time; the last one tears the object down. -/
def handOver : List (Event (Fin 2)) :=
  [.fooHold 0, .step 0, .step 0, .step 0, .step 0, .hand 0 1,
   .fooRele 0, .fooRele 1, .step 1, .step 1, .step 1, .step 1,
   .step 0, .step 0, .step 0, .step 0, .step 0, .step 0, .step 0]

theorem fooRefs_safe_handOver :
    ∃ s, run System.next (System.start ⟨1, none, 7⟩ (0 : Fin 2)) handOver = some s ∧
      s.outstanding = 0 ∧ (∀ t, s.pc t = .idle) ∧ s.destroys = 1 ∧ s.frees = 1 ∧
      s.misuse = false := by
  have bounded : Along System.next Bounded (System.start ⟨1, none, 7⟩ (0 : Fin 2)) handOver := by
    decide
  obtain ⟨s, reached⟩ : ∃ s, run System.next (System.start ⟨1, none, 7⟩ (0 : Fin 2)) handOver =
      some s := ⟨_, rfl⟩
  have given : s.outstanding = 0 ∧ ∀ t, s.pc t = .idle := by
    cases reached
    decide
  obtain ⟨-, -, -, -, -, once, clean, -⟩ := fooRefs_safe true 0 7 ⟨1, none, 7⟩ rfl 0 handOver bounded s
    reached
  exact ⟨s, reached, given.1, given.2, (once given.1 given.2).1, (once given.1 given.2).2, clean⟩

end UnixDemos.Pthread.RefCount
