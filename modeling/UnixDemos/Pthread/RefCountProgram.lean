/-
# Pthread.RefCountProgram — the two threads of pthread_mutex.c

`main` allocates two objects and starts two threads that share them.  `thr_fn1`
takes and gives back `n` references to the first object and `m` to the second;
`thr_fn2` does the same and also gives back the reference `main` got from
`foo_alloc`.  Here every call is one step, and a call on an object that was
already freed sets `misuse`.

Nothing orders the two threads, and `thr_fn1` owns no reference of its own when
it starts.  If `thr_fn2` makes its last `foo_rele` of an object before `thr_fn1`
made its first `foo_hold` of it, the object is gone when `thr_fn1` gets there.
That is the only way it can go wrong, overflow of the count apart.
-/
import UnixDemos.Pthread.RefCount
import Mathlib.Data.List.Count

namespace UnixDemos.Pthread.RefCountProgram

open UnixDemos.Library
open UnixDemos.Pthread.RefCount (Foo)

set_option autoImplicit false

/-! ## The program -/

/-- The two global pointers. -/
inductive Var where
  | fooVal1
  | fooVal2
  deriving DecidableEq, Repr

inductive Call where
  | hold (v : Var)
  | rele (v : Var)
  deriving DecidableEq, Repr

def Call.var : Call → Var
  | .hold v => v
  | .rele v => v

def thrFn1 (n m : Nat) : List Call :=
  List.replicate n (.hold .fooVal1) ++ List.replicate m (.hold .fooVal2) ++
    List.replicate n (.rele .fooVal1) ++ List.replicate m (.rele .fooVal2)

def thrFn2 (n m : Nat) : List Call :=
  List.replicate n (.hold .fooVal1) ++ List.replicate m (.hold .fooVal2) ++
    List.replicate (n + 1) (.rele .fooVal1) ++ List.replicate (m + 1) (.rele .fooVal2)

/-- An object is `none` once it is freed. -/
structure State where
  object : Var → Option (Foo Unit)
  frees : Var → Nat
  misuse : Bool
  todo1 : List Call
  todo2 : List Call

inductive Thread where
  | first
  | second
  deriving DecidableEq, Repr

def State.exec (p : State) : Call → State
  | .hold v =>
      match p.object v with
      | none => { p with misuse := true }
      | some fp => { p with object := Function.update p.object v (some (RefCount.fooHold fp)) }
  | .rele v =>
      match p.object v with
      | none => { p with misuse := true }
      | some fp =>
          match RefCount.fooRele fp with
          | none =>
              { p with
                object := Function.update p.object v none
                frees := Function.update p.frees v (p.frees v + 1) }
          | some fp' => { p with object := Function.update p.object v (some fp') }

/-- The scheduler lets one thread make its next call. -/
def State.step (p : State) : Thread → Option State
  | .first =>
      match p.todo1 with
      | [] => none
      | c :: rest => some ({ p with todo1 := rest }.exec c)
  | .second =>
      match p.todo2 with
      | [] => none
      | c :: rest => some ({ p with todo2 := rest }.exec c)

/-- `main` after both `foo_alloc` calls succeeded and both threads exist. -/
def State.start (n m : Nat) : State where
  object
    | .fooVal1 => some ⟨1, none, 1⟩
    | .fooVal2 => some ⟨1, none, 2⟩
  frees _ := 0
  misuse := false
  todo1 := thrFn1 n m
  todo2 := thrFn2 n m

/-- How often each thread holds an object. -/
def loops (n m : Nat) : Var → Nat
  | .fooVal1 => n
  | .fooVal2 => m

/-- No call was made on a freed object, and each object was freed exactly once. -/
def State.Safe (p : State) : Prop := p.misuse = false ∧ ∀ v, p.frees v = 1

/-! ## When it is safe -/

/-- `thr_fn2` makes its last release of an object only after `thr_fn1` made its
first hold of it, unless it makes none. -/
def Ordered (n m : Nat) (p : State) : Thread → Prop
  | .first => True
  | .second => ∀ c ∈ p.todo2.head?, c = .rele c.var → p.todo2.count c = 1 →
      p.todo1.count (.hold c.var) < loops n m c.var ∨ loops n m c.var = 0

instance (n m : Nat) (p : State) : ∀ th, Decidable (Ordered n m p th)
  | .first => isTrue trivial
  | .second => inferInstanceAs (Decidable (∀ c ∈ p.todo2.head?, _))

def State.nextCall (p : State) : Thread → Option Call
  | .first => p.todo1.head?
  | .second => p.todo2.head?

/-- No `foo_hold` finds `f_count` at `INT_MAX`. -/
def NoOverflow (p : State) (th : Thread) : Prop :=
  ∀ c ∈ p.nextCall th, ∀ fp ∈ p.object c.var, c = .hold c.var → fp.fCount < intMax

instance (p : State) (th : Thread) : Decidable (NoOverflow p th) :=
  inferInstanceAs (Decidable (∀ c ∈ p.nextCall th, _))

section Safety

variable {n m : Nat} {p p' : State} {v : Var}

/-- In a thread's remaining calls, holds of an object come before releases of it,
and as long as a hold is left all `total` releases are. -/
structure Pending (v : Var) (k total : Nat) (todo : List Call) : Prop where
  holdsFirst : todo.Pairwise fun a b => a = .rele v → b ≠ .hold v
  counts : (todo.count (.rele v) = total ∧ todo.count (.hold v) ≤ k) ∨
    (todo.count (.hold v) = 0 ∧ todo.count (.rele v) ≤ total)

theorem Pending.tail {k total : Nat} {c : Call} {rest : List Call}
    (pending : Pending v k total (c :: rest)) : Pending v k total rest := by
  obtain ⟨later, holdsFirst⟩ := List.pairwise_cons.mp pending.holdsFirst
  refine ⟨holdsFirst, ?_⟩
  have counts := pending.counts
  rw [List.count_cons, List.count_cons] at counts
  by_cases release : c = .rele v
  · subst release
    have noHold : rest.count (.hold v) = 0 :=
      List.count_eq_zero.mpr fun member => later _ member rfl rfl
    simp at counts
    omega
  · simp [release] at counts
    by_cases hold : c = .hold v
    · subst hold
      simp at counts
      omega
    · simp [hold] at counts
      omega

theorem Pending.noHold {k total : Nat} {rest : List Call}
    (pending : Pending v k total (.rele v :: rest)) : rest.count (.hold v) = 0 :=
  List.count_eq_zero.mpr fun member =>
    (List.pairwise_cons.mp pending.holdsFirst).1 _ member rfl rfl

/-- The books of one object.  A live object's count and the holds to come make up
the releases to come; a freed one has no call left. -/
structure Account (v : Var) (k total₁ total₂ : Nat) (object : Option (Foo Unit)) (frees : Nat)
    (todo₁ todo₂ : List Call) : Prop where
  first : Pending v k total₁ todo₁
  second : Pending v k total₂ todo₂
  live : ∀ fp, object = some fp → frees = 0 ∧ 0 < fp.fCount ∧ fp.fCount ≤ intMax ∧
    fp.fCount + todo₁.count (.hold v) + todo₂.count (.hold v) =
      todo₁.count (.rele v) + todo₂.count (.rele v)
  freed : object = none → frees = 1 ∧ todo₁.count (.hold v) = 0 ∧ todo₁.count (.rele v) = 0 ∧
    todo₂.count (.hold v) = 0 ∧ todo₂.count (.rele v) = 0

section Account

variable {k total₁ total₂ frees : Nat} {object : Option (Foo Unit)} {rest todo₁ todo₂ : List Call}

theorem Account.swap (account : Account v k total₁ total₂ object frees todo₁ todo₂) :
    Account v k total₂ total₁ object frees todo₂ todo₁ := by
  refine ⟨account.second, account.first, fun fp isLive => ?_, fun isFreed => ?_⟩
  · have := account.live fp isLive
    omega
  · have := account.freed isFreed
    tauto

/-- A call on another object leaves the books alone. -/
theorem Account.other {c : Call}
    (account : Account v k total₁ total₂ object frees (c :: rest) todo₂)
    (notHold : c ≠ .hold v) (notRele : c ≠ .rele v) :
    Account v k total₁ total₂ object frees rest todo₂ := by
  have holds : (c :: rest).count (.hold v) = rest.count (.hold v) := List.count_cons_of_ne notHold
  have reles : (c :: rest).count (.rele v) = rest.count (.rele v) := List.count_cons_of_ne notRele
  refine ⟨account.first.tail, account.second, fun fp isLive => ?_, fun isFreed => ?_⟩
  · rw [← holds, ← reles]
    exact account.live fp isLive
  · rw [← holds, ← reles]
    exact account.freed isFreed

theorem Account.hold (account : Account v k total₁ total₂ object frees (.hold v :: rest) todo₂)
    (room : ∀ fp, object = some fp → fp.fCount < intMax) :
    ∃ fp, object = some fp ∧
      Account v k total₁ total₂ (some (RefCount.fooHold fp)) frees rest todo₂ := by
  cases here : object with
  | none =>
      have := (account.freed here).2.1
      simp at this
  | some fp =>
      obtain ⟨unfreed, positive, -, balance⟩ := account.live fp here
      have small := room fp here
      have counted : (RefCount.fooHold fp).fCount = fp.fCount + 1 := by
        unfold intMax at small
        exact wrap32_of_mem (by omega) (by omega)
      simp at balance
      refine ⟨fp, rfl, account.first.tail, account.second, ?_, by simp⟩
      rintro _ ⟨⟩
      rw [counted]
      omega

/-- A release is safe unless it is the last one while the other thread has not
begun and still will. -/
theorem Account.rele (account : Account v k total₁ total₂ object frees (.rele v :: rest) todo₂)
    (enough : k ≤ total₂)
    (ordered : total₂ = k → rest.count (.rele v) = 0 → todo₂.count (.hold v) < k ∨ k = 0) :
    ∃ fp, object = some fp ∧
      Account v k total₁ total₂ (RefCount.fooRele fp)
        (if RefCount.fooRele fp = none then frees + 1 else frees) rest todo₂ := by
  cases here : object with
  | none =>
      have := (account.freed here).2.2.1
      simp at this
  | some fp =>
      obtain ⟨unfreed, positive, small, balance⟩ := account.live fp here
      have counted : RefCount.decrement fp.fCount = fp.fCount - 1 := by
        unfold intMax at small
        exact wrap32_of_mem (by omega) (by omega)
      have noHold := account.first.noHold
      simp [noHold] at balance
      refine ⟨fp, rfl, account.first.tail, account.second, ?_, ?_⟩
      · intro fp' isLive
        obtain ⟨left, rfl⟩ : RefCount.decrement fp.fCount ≠ 0 ∧
            { fp with fCount := RefCount.decrement fp.fCount } = fp' := by
          simpa [RefCount.fooRele] using isLive
        rw [counted] at left
        simp only [isLive, reduceCtorEq, if_false, counted, noHold]
        omega
      · intro isFreed
        have last : RefCount.decrement fp.fCount = 0 := by simpa [RefCount.fooRele] using isFreed
        rw [counted] at last
        rw [if_pos isFreed]
        have counts := account.second.counts
        omega

end Account

/-! ## One call -/

theorem exec_hold {fp : Foo Unit} (here : p.object v = some fp) :
    p.exec (.hold v) =
      { p with object := Function.update p.object v (some (RefCount.fooHold fp)) } := by
  simp [State.exec, here]

theorem exec_rele {fp : Foo Unit} (here : p.object v = some fp) :
    p.exec (.rele v) =
      { p with
        object := Function.update p.object v (RefCount.fooRele fp)
        frees := Function.update p.frees v
          (if RefCount.fooRele fp = none then p.frees v + 1 else p.frees v) } := by
  cases result : RefCount.fooRele fp <;> simp [State.exec, here, result]

theorem exec_todo (p : State) (c : Call) :
    (p.exec c).todo1 = p.todo1 ∧ (p.exec c).todo2 = p.todo2 := by
  cases c <;> simp only [State.exec] <;> split <;> (try split) <;> exact ⟨rfl, rfl⟩

/-- A call keeps the books of every object when it keeps those of its own. -/
theorem exec_accounts (books : Var → Option (Foo Unit) → Nat → Prop) {c : Call}
    (clean : p.misuse = false)
    (other : ∀ v, c ≠ .hold v → c ≠ .rele v → books v (p.object v) (p.frees v))
    (hold : ∀ v, c = .hold v → ∃ fp, p.object v = some fp ∧
      books v (some (RefCount.fooHold fp)) (p.frees v))
    (rele : ∀ v, c = .rele v → ∃ fp, p.object v = some fp ∧
      books v (RefCount.fooRele fp)
        (if RefCount.fooRele fp = none then p.frees v + 1 else p.frees v)) :
    (p.exec c).misuse = false ∧ ∀ v, books v ((p.exec c).object v) ((p.exec c).frees v) := by
  cases c with
  | hold w =>
      obtain ⟨fp, here, kept⟩ := hold w rfl
      rw [exec_hold here]
      refine ⟨clean, fun v => ?_⟩
      by_cases same : v = w
      · subst same
        simpa using kept
      · simpa [Function.update_of_ne same] using other v (by simp [Ne.symm same]) (by simp)
  | rele w =>
      obtain ⟨fp, here, kept⟩ := rele w rfl
      rw [exec_rele here]
      refine ⟨clean, fun v => ?_⟩
      by_cases same : v = w
      · subst same
        simpa using kept
      · simpa [Function.update_of_ne same] using other v (by simp) (by simp [Ne.symm same])

/-! ## Every run -/

structure Inv (n m : Nat) (p : State) : Prop where
  misuse : p.misuse = false
  accounts : ∀ v, Account v (loops n m v) (loops n m v) (loops n m v + 1) (p.object v) (p.frees v)
    p.todo1 p.todo2

/-- The calls of a thread with `a` and `b` releases, of which both threads are cases. -/
def holdsThenReleases (n m a b : Nat) : List Call :=
  List.replicate n (Call.hold .fooVal1) ++ List.replicate m (Call.hold .fooVal2) ++
    List.replicate a (Call.rele .fooVal1) ++ List.replicate b (Call.rele .fooVal2)

theorem count_hold (n m a b : Nat) (v : Var) :
    (holdsThenReleases n m a b).count (.hold v) = loops n m v := by
  cases v <;> simp [holdsThenReleases, List.count_replicate, loops]

theorem count_rele (n m a b : Nat) (v : Var) :
    (holdsThenReleases n m a b).count (.rele v) = loops a b v := by
  cases v <;> simp [holdsThenReleases, List.count_replicate, loops]

theorem pending_start (n m a b : Nat) (v : Var) :
    Pending v (loops n m v) (loops a b v) (holdsThenReleases n m a b) := by
  refine ⟨?_, Or.inl ⟨count_rele n m a b v, (count_hold n m a b v).le⟩⟩
  simp only [holdsThenReleases, List.pairwise_append, List.pairwise_replicate, List.mem_append,
    List.mem_replicate]
  grind

theorem start_inv (n m : Nat) : Inv n m (State.start n m) := by
  have first : (State.start n m).todo1 = holdsThenReleases n m n m := rfl
  have second : (State.start n m).todo2 = holdsThenReleases n m (n + 1) (m + 1) := rfl
  have more (v : Var) : loops (n + 1) (m + 1) v = loops n m v + 1 := by cases v <;> rfl
  refine ⟨rfl, fun v => ?_⟩
  rw [first, second, ← more]
  refine ⟨pending_start n m n m v, pending_start n m (n + 1) (m + 1) v, fun fp isLive => ?_,
    fun isFreed => ?_⟩
  · have fresh : fp.fCount = 1 := by cases v <;> cases isLive <;> rfl
    rw [count_hold, count_hold, count_rele, count_rele, more, fresh]
    exact ⟨rfl, by decide, by decide, by omega⟩
  · cases v <;> cases isFreed

/-- One call of either thread. -/
theorem Inv.step {th : Thread} (inv : Inv n m p) (room : NoOverflow p th)
    (ordered : Ordered n m p th)
    (step : p.step th = some p') : Inv n m p' := by
  cases th with
  | first =>
      simp only [State.step] at step
      cases todo : p.todo1 with
      | nil => simp [todo] at step
      | cons c rest =>
          rw [todo] at step
          cases step
          have accounts := inv.accounts
          rw [todo] at accounts
          have kept := exec_accounts (p := { p with todo1 := rest }) (c := c)
            (fun v object frees => Account v (loops n m v) (loops n m v) (loops n m v + 1)
              object frees rest p.todo2) inv.misuse
            (fun v notHold notRele => (accounts v).other notHold notRele)
            (fun v isHold => by
              subst isHold
              exact (accounts v).hold fun fp here =>
                room (.hold v) (by simp [State.nextCall, todo]) fp here rfl)
            (fun v isRele => by
              subst isRele
              exact (accounts v).rele (Nat.le_succ _) (by omega))
          have todos := exec_todo { p with todo1 := rest } c
          exact ⟨kept.1, fun v => by rw [todos.1, todos.2]; exact kept.2 v⟩
  | second =>
      simp only [State.step] at step
      cases todo : p.todo2 with
      | nil => simp [todo] at step
      | cons c rest =>
          rw [todo] at step
          cases step
          have accounts := fun v => (inv.accounts v).swap
          rw [todo] at accounts
          have kept := exec_accounts (p := { p with todo2 := rest }) (c := c)
            (fun v object frees => Account v (loops n m v) (loops n m v + 1) (loops n m v)
              object frees rest p.todo1) inv.misuse
            (fun v notHold notRele => (accounts v).other notHold notRele)
            (fun v isHold => by
              subst isHold
              exact (accounts v).hold fun fp here =>
                room (.hold v) (by simp [State.nextCall, todo]) fp here rfl)
            (fun v isRele => by
              subst isRele
              exact (accounts v).rele (Nat.le_refl _) fun _ last =>
                ordered (.rele v) (by simp [todo]) rfl (by simp [todo, last]))
          have todos := exec_todo { p with todo2 := rest } c
          exact ⟨kept.1, fun v => by rw [todos.1, todos.2]; exact (kept.2 v).swap⟩

/-! ## When the order is wrong -/

/-- An object is gone that `thr_fn1` will still take a reference to. -/
def Doomed (v : Var) (p : State) : Prop := p.object v = none ∧ 0 < p.todo1.count (.hold v)

theorem exec_misuse {c : Call} (misused : p.misuse = true) : (p.exec c).misuse = true := by
  cases c <;> simp only [State.exec] <;> split <;> (try split) <;> first | rfl | exact misused

/-- A call on a freed object is misuse; a call on another leaves it freed. -/
theorem exec_freed {c : Call} (gone : p.object v = none) :
    (p.exec c).misuse = true ∨
      ((p.exec c).object v = none ∧ c ≠ .hold v) := by
  cases c with
  | hold w =>
      by_cases same : w = v
      · subst same
        simp [State.exec, gone]
      · cases here : p.object w <;>
          simp [State.exec, here, gone, same, Function.update_of_ne (Ne.symm same)]
  | rele w =>
      by_cases same : w = v
      · subst same
        simp [State.exec, gone]
      · cases here : p.object w with
        | none => simp [State.exec, here]
        | some fp =>
            cases result : RefCount.fooRele fp <;>
              simp [State.exec, here, result, gone, Function.update_of_ne (Ne.symm same)]

theorem step_doomed {th : Thread} (doomed : p.misuse = true ∨ Doomed v p)
    (step : p.step th = some p') : p'.misuse = true ∨ Doomed v p' := by
  cases th with
  | first =>
      simp only [State.step] at step
      cases todo : p.todo1 with
      | nil => simp [todo] at step
      | cons c rest =>
          rw [todo] at step
          cases step
          rcases doomed with misused | ⟨gone, waiting⟩
          · exact Or.inl (exec_misuse misused)
          · rcases exec_freed (p := { p with todo1 := rest }) (c := c) gone with misused | ⟨stays, other⟩
            · exact Or.inl misused
            · rw [todo, List.count_cons_of_ne other] at waiting
              exact Or.inr ⟨stays, by rw [(exec_todo _ c).1]; exact waiting⟩
  | second =>
      simp only [State.step] at step
      cases todo : p.todo2 with
      | nil => simp [todo] at step
      | cons c rest =>
          rw [todo] at step
          cases step
          rcases doomed with misused | ⟨gone, waiting⟩
          · exact Or.inl (exec_misuse misused)
          · rcases exec_freed (p := { p with todo2 := rest }) (c := c) gone with misused | ⟨stays, -⟩
            · exact Or.inl misused
            · exact Or.inr ⟨stays, by rw [(exec_todo _ c).1]; exact waiting⟩

/-- The step that breaks the order frees the object under `thr_fn1`. -/
theorem Inv.doomed_of_not_ordered {th : Thread} (inv : Inv n m p) (unordered : ¬ Ordered n m p th)
    (step : p.step th = some p') : ∃ v, Doomed v p' := by
  cases th with
  | first => exact absurd trivial unordered
  | second =>
      simp only [Ordered, not_forall] at unordered
      obtain ⟨c, next, release, last, notBegun⟩ := unordered
      obtain ⟨v, rfl⟩ : ∃ v, c = .rele v := ⟨_, release⟩
      obtain ⟨rest, todo⟩ : ∃ rest, p.todo2 = .rele v :: rest := List.head?_eq_some_iff.mp next
      change ¬ (p.todo1.count (.hold v) < loops n m v ∨ loops n m v = 0) at notBegun
      simp only [State.step, todo] at step
      cases step
      have account := inv.accounts v
      rw [todo] at account last
      have holds := account.first.counts
      have noHold := account.second.noHold
      refine ⟨v, ?_, ?_⟩
      · cases here : p.object v with
        | none =>
            have := (account.freed here).2.2.2.2
            omega
        | some fp =>
            have balance := (account.live fp here).2.2.2
            have one : fp.fCount = 1 := by
              rw [List.count_cons_of_ne (by simp), noHold] at balance
              omega
            have result : RefCount.fooRele fp = none := by
              simp [RefCount.fooRele, RefCount.decrement, one, wrap32]
            simp [State.exec, here, result]
      · rw [(exec_todo _ _).1]
        change 0 < p.todo1.count (.hold v)
        omega

/-- **When the two threads are safe.**  Whatever the number of rounds and the
schedule, as long as no count overflows: in every state of a run that keeps the
order no call was made on a freed object and none was freed twice; and a run in
which both threads finish is safe exactly when it keeps the order. -/
theorem program_safe_iff (n m : Nat) (schedule : List Thread) (p : State)
    (room : Along State.step NoOverflow (State.start n m) schedule)
    (reached : run State.step (State.start n m) schedule = some p) :
    (Along State.step (Ordered n m) (State.start n m) schedule →
      p.misuse = false ∧ ∀ v, p.frees v ≤ 1) ∧
    (p.todo1 = [] → p.todo2 = [] →
      (p.Safe ↔ Along State.step (Ordered n m) (State.start n m) schedule)) := by
  have kept : Along State.step (Ordered n m) (State.start n m) schedule → Inv n m p := by
    intro ordered
    exact run_along State.step (Inv n m)
      (fun s e t inv guards step => inv.step guards.1 guards.2 step) (start_inv n m)
      (along_and State.step room ordered) reached
  refine ⟨fun ordered => ?_, fun done1 done2 => ⟨fun safe => ?_, fun ordered => ?_⟩⟩
  · have inv := kept ordered
    refine ⟨inv.misuse, fun v => ?_⟩
    cases here : p.object v with
    | none => exact ((inv.accounts v).freed here).1.le
    | some fp => exact ((inv.accounts v).live fp here).1.le.trans (Nat.zero_le 1)
  · -- follow the run: the first step that breaks the order dooms it
    have start := start_inv n m
    clear kept
    revert room reached start
    generalize State.start n m = q
    intro room reached inv
    induction schedule generalizing q with
    | nil => trivial
    | cons th schedule ih =>
        obtain ⟨next, first, rest⟩ := (run_cons_some State.step).mp reached
        obtain ⟨fits, later⟩ := (along_cons State.step).mp room
        have ordered : Ordered n m q th := by
          by_contra unordered
          obtain ⟨v, doomed⟩ := inv.doomed_of_not_ordered unordered first
          have misused := run_invariant State.step (fun p => p.misuse = true ∨ Doomed v p)
            (fun s e t => step_doomed) (Or.inr doomed) rest
          rcases misused with misused | ⟨-, waiting⟩
          · rw [safe.1] at misused
            cases misused
          · simp [done1] at waiting
        refine (along_cons State.step).mpr ⟨ordered, fun t step => ?_⟩
        rw [first, Option.some.injEq] at step
        subst step
        exact ih next (later next first) rest (inv.step fits ordered first)
  · have inv := kept ordered
    refine ⟨inv.misuse, fun v => ?_⟩
    cases here : p.object v with
    | none => exact ((inv.accounts v).freed here).1
    | some fp =>
        have := (inv.accounts v).live fp here
        simp [done1, done2] at this
        omega

end Safety

/-- `thr_fn1` first: every release of `thr_fn2` comes late enough. -/
theorem program_safe_iff_first_thread_first :
    ∃ p, run State.step (State.start 20 22)
        (List.replicate 84 .first ++ List.replicate 86 .second) = some p ∧ p.Safe := by
  have observed : (run State.step (State.start 20 22)
      (List.replicate 84 .first ++ List.replicate 86 .second)).map
        (fun p => (p.todo1, p.todo2)) = some ([], []) := by
    decide +kernel
  obtain ⟨p, reached, shape⟩ := Option.map_eq_some_iff.mp observed
  simp only [Prod.mk.injEq] at shape
  have both := program_safe_iff 20 22 _ p (by decide +kernel) reached
  exact ⟨p, reached, (both.2 shape.1 shape.2).mpr (by decide +kernel)⟩

/-- The program as it stands, with `thr_fn2` scheduled first: it frees both
objects, and every call of `thr_fn1` is made on freed memory. -/
theorem second_thread_first :
    ¬ ∀ (n m : Nat) (schedule : List Thread) (p : State),
      run State.step (State.start n m) schedule = some p → p.todo1 = [] → p.todo2 = [] → p.Safe := by
  intro alwaysSafe
  have observed : (run State.step (State.start 20 22)
      (List.replicate 86 .second ++ List.replicate 84 .first)).map
        (fun p => (p.misuse, p.todo1, p.todo2)) = some (true, [], []) := by
    decide +kernel
  obtain ⟨p, reached, shape⟩ := Option.map_eq_some_iff.mp observed
  simp only [Prod.mk.injEq] at shape
  have safe := alwaysSafe 20 22 _ p reached shape.2.1 shape.2.2
  rw [safe.1] at shape
  cases shape.1

end UnixDemos.Pthread.RefCountProgram
