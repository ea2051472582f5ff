/-
# IPC.SemLock — the semaphore lock of sem_lock.c and the counter under it

`s_alloc` opens a fresh semaphore with value 1 and removes its name again;
`s_lock`, `s_trylock` and `s_unlock` are the three semaphore operations on it.
Threads go through rounds: get the lock, load `cnt`, store `cnt + 1`, unlock.  The
increment is two steps, so two threads inside at once could lose one.  A round
whose `s_trylock` fails is skipped; a round whose `s_lock` would block waits.

`Permit` ties everything together: either the semaphore is at 1 and every thread
is outside, or it is at 0 and exactly one thread is inside, and what that thread
has loaded and stored so far says how `cnt` stands to the rounds completed.
-/
import UnixDemos.Library.Decimal
import UnixDemos.Library.Run

namespace UnixDemos.IPC.SemLock

open UnixDemos.Library

set_option autoImplicit false

/-! ## The lock -/

/-- What `sem_open` with `O_CREAT | O_EXCL` answers. -/
inductive SemOpen where
  | created
  | eexist
  | failed
  deriving DecidableEq, Repr

/-- `struct slock`: the name, without its NUL, and the semaphore's value. -/
structure Slock where
  name : Bytes
  value : Nat
  deriving DecidableEq, Repr

/-- `_POSIX_NAME_MAX`. -/
def posixNameMax : Nat := 14

/-- `snprintf(name, sizeof(name), "%ld.%d", pid, cnt)`: what fits in front of the NUL. -/
def semName (pid cnt : Int) : Bytes :=
  (printInt pid ++ [46] ++ printInt cnt).take (posixNameMax - 1)

/-- The loop of `s_alloc` over the answers of `sem_open`, with the static counter;
`none` while every answer so far was `EEXIST`. -/
def sAllocLoop (pid : Int) : Int → List SemOpen → Option (Option Slock × Int)
  | _, [] => none
  | cnt, .created :: _ => some (some ⟨semName pid cnt, 1⟩, wrap32 (cnt + 1))
  | cnt, .eexist :: answers => sAllocLoop pid (wrap32 (cnt + 1)) answers
  | cnt, .failed :: _ => some (none, wrap32 (cnt + 1))

/-- `s_alloc`: the lock, or NULL, and the counter afterwards. -/
def sAlloc (malloc : Bool) (pid cnt : Int) (answers : List SemOpen) : Option (Option Slock × Int) :=
  if malloc then sAllocLoop pid cnt answers else some (none, cnt)

/-- `sem_wait`; `none` while it blocks. -/
def sLock (value : Nat) : Option Nat := if 0 < value then some (value - 1) else none

/-- `sem_trywait` that is not interrupted; `none` when it returns -1. -/
def sTrylock (value : Nat) : Option Nat := if 0 < value then some (value - 1) else none

/-- `sem_post`. -/
def sUnlock (value : Nat) : Nat := value + 1

theorem sAlloc_value {malloc : Bool} {pid cnt cnt' : Int} {answers : List SemOpen} {lock : Slock}
    (returned : sAlloc malloc pid cnt answers = some (some lock, cnt')) : lock.value = 1 := by
  have loop : ∀ answers cnt, sAllocLoop pid cnt answers = some (some lock, cnt') →
      lock.value = 1 := by
    intro answers
    induction answers with
    | nil => nofun
    | cons answer answers ih =>
        intro cnt returned
        cases answer with
        | created =>
            cases returned
            rfl
        | eexist => exact ih _ returned
        | failed => cases returned
  cases malloc with
  | true => exact loop answers cnt returned
  | false => cases returned

/-! ## Threads -/

/-- How a round gets the lock. -/
inductive Acquire where
  | lock
  | trylock
  deriving DecidableEq, Repr

inductive Pc where
  | outside
  | acquired
  | loaded (v : Int)
  | stored
  deriving DecidableEq, Repr

/-- `completed` records, for each round completed, the thread that did it. -/
structure System (τ : Type) where
  value : Nat
  cnt : Int
  pc : τ → Pc
  todo : τ → List Acquire
  completed : List τ

/-- A step of a thread; `fails` is an `s_trylock` that returns -1. -/
structure Move (τ : Type) where
  thread : τ
  fails : Bool

section System

variable {τ : Type} [DecidableEq τ] (s : System τ) (t : τ)

def System.enter (value : Nat) (rest : List Acquire) : System τ :=
  { s with
    value := value
    pc := Function.update s.pc t .acquired
    todo := Function.update s.todo t rest }

def System.step (m : Move τ) : Option (System τ) :=
  let t := m.thread
  match s.pc t with
  | .outside =>
      match s.todo t with
      | [] => none
      | .lock :: rest =>
          if m.fails then none else (sLock s.value).map fun value => s.enter t value rest
      | .trylock :: rest =>
          if m.fails then some { s with todo := Function.update s.todo t rest }
          else (sTrylock s.value).map fun value => s.enter t value rest
  | .acquired =>
      if m.fails then none else some { s with pc := Function.update s.pc t (.loaded s.cnt) }
  | .loaded v =>
      if m.fails then none
      else some { s with cnt := wrap32 (v + 1), pc := Function.update s.pc t .stored }
  | .stored =>
      if m.fails then none
      else
        some { s with
          value := sUnlock s.value
          pc := Function.update s.pc t .outside
          completed := s.completed ++ [t] }

/-- The static counter is 0, every thread before its first round. -/
def start (lock : Slock) (program : τ → List Acquire) : System τ :=
  ⟨lock.value, 0, fun _ => .outside, program, []⟩

def System.finished : Prop := s.pc t = .outside ∧ s.todo t = []

end System

/-! ## What a step can do -/

section Steps

variable {τ : Type} [DecidableEq τ] {s s' : System τ}

inductive Effect (s : System τ) (t : τ) : System τ → Prop where
  | skips {rest : List Acquire} (pc : s.pc t = .outside) (next : s.todo t = .trylock :: rest) :
      Effect s t { s with todo := Function.update s.todo t rest }
  | enters {how : Acquire} {rest : List Acquire} (pc : s.pc t = .outside)
      (next : s.todo t = how :: rest) (free : 0 < s.value) :
      Effect s t (s.enter t (s.value - 1) rest)
  | loads (pc : s.pc t = .acquired) :
      Effect s t { s with pc := Function.update s.pc t (.loaded s.cnt) }
  | stores {v : Int} (pc : s.pc t = .loaded v) :
      Effect s t { s with cnt := wrap32 (v + 1), pc := Function.update s.pc t .stored }
  | leaves (pc : s.pc t = .stored) :
      Effect s t { s with
        value := sUnlock s.value
        pc := Function.update s.pc t .outside
        completed := s.completed ++ [t] }

theorem step_effect {m : Move τ} (step : s.step m = some s') : Effect s m.thread s' := by
  obtain ⟨t, fails⟩ := m
  simp only [System.step] at step
  cases pc : s.pc t with
  | outside =>
      simp only [pc] at step
      cases next : s.todo t with
      | nil => simp [next] at step
      | cons how rest =>
          have entered : ∀ {acquire : Nat → Option Nat}, acquire = sLock →
              (acquire s.value).map (fun value => s.enter t value rest) = some s' →
              Effect s t s' := by
            rintro _ rfl result
            unfold sLock at result
            split at result
            · cases result
              exact .enters pc next ‹_›
            · cases result
          cases how <;> simp only [next] at step <;> split at step
          · cases step
          · exact entered rfl step
          · cases step
            exact .skips pc next
          · exact entered rfl step
  | acquired =>
      simp only [pc] at step
      split at step <;> cases step
      exact .loads pc
  | loaded v =>
      simp only [pc] at step
      split at step <;> cases step
      exact .stores pc
  | stored =>
      simp only [pc] at step
      split at step <;> cases step
      exact .leaves pc

/-! ## The permit -/

/-- How `cnt` stands to the `n` rounds completed while a thread is inside. -/
def Inside (n : Nat) (cnt : Int) : Pc → Prop
  | .outside => False
  | .acquired => cnt = wrap32 n
  | .loaded v => v = cnt ∧ cnt = wrap32 n
  | .stored => cnt = wrap32 (n + 1)

inductive Permit (s : System τ) : Prop where
  | free (value : s.value = 1) (out : ∀ t, s.pc t = .outside)
      (count : s.cnt = wrap32 s.completed.length) : Permit s
  | held (t : τ) (value : s.value = 0) (others : ∀ u, u ≠ t → s.pc u = .outside)
      (own : Inside s.completed.length s.cnt (s.pc t)) : Permit s

theorem wrap32_succ (v : Int) : wrap32 (wrap32 v + 1) = wrap32 (v + 1) := by
  unfold wrap32
  omega

/-- The thread that moves while it is inside is the one that holds the permit. -/
theorem Permit.holder {t : τ} (permit : Permit s) (inside : s.pc t ≠ .outside) :
    s.value = 0 ∧ (∀ u, u ≠ t → s.pc u = .outside) ∧
      Inside s.completed.length s.cnt (s.pc t) := by
  cases permit with
  | free value out count => exact absurd (out t) inside
  | held u value others own =>
      have same : t = u := by
        by_contra other
        exact inside (others t other)
      subst same
      exact ⟨value, others, own⟩

/-- The holder goes on inside. -/
theorem held_update {t : τ} {value : Nat} {cnt : Int} {todo : τ → List Acquire} {x : Pc}
    (value_eq : value = 0) (others : ∀ u, u ≠ t → s.pc u = .outside)
    (own : Inside s.completed.length cnt x) :
    Permit ⟨value, cnt, Function.update s.pc t x, todo, s.completed⟩ := by
  refine .held t value_eq (fun u other => ?_) ?_
  · show Function.update s.pc t x u = .outside
    rw [Function.update_of_ne other]
    exact others u other
  · show Inside s.completed.length cnt (Function.update s.pc t x t)
    rw [Function.update_self]
    exact own

theorem Permit.step {t : τ} (permit : Permit s) (effect : Effect s t s') : Permit s' := by
  cases effect with
  | skips pc next =>
      cases permit with
      | free value out count => exact .free value out count
      | held u value others own => exact .held u value others own
  | enters pc next free =>
      cases permit with
      | free value out count =>
          exact held_update (by rw [value]) (fun u _ => out u) count
      | held u value others own => rw [value] at free; cases free
  | loads pc =>
      obtain ⟨value, others, own⟩ := permit.holder (by rw [pc]; nofun)
      rw [pc] at own
      exact held_update value others ⟨rfl, own⟩
  | stores pc =>
      obtain ⟨value, others, own⟩ := permit.holder (by rw [pc]; nofun)
      rw [pc] at own
      obtain ⟨rfl, count⟩ := own
      refine held_update value others ?_
      show wrap32 (s.cnt + 1) = _
      rw [count, wrap32_succ]
  | leaves pc =>
      obtain ⟨value, others, own⟩ := permit.holder (by rw [pc]; nofun)
      rw [pc] at own
      refine .free (by rw [sUnlock, value]) (fun u => ?_) ?_
      · show Function.update s.pc t .outside u = .outside
        by_cases same : u = t
        · rw [same, Function.update_self]
        · rw [Function.update_of_ne same]
          exact others u same
      · show s.cnt = wrap32 ((s.completed ++ [t]).length)
        rw [List.length_append, List.length_singleton]
        exact own

theorem run_permit {lock : Slock} {program : τ → List Acquire} {moves : List (Move τ)}
    (fresh : lock.value = 1) (reached : run System.step (start lock program) moves = some s) :
    Permit s :=
  run_invariant System.step Permit (fun _ _ _ permit step => permit.step (step_effect step))
    (.free fresh (fun _ => rfl) (by show (0 : Int) = wrap32 0; decide)) reached

/-! ## Rounds that only wait -/

/-- The rounds of a thread that never uses `s_trylock`: done, under way, to do. -/
def Accounts (program : τ → List Acquire) (s : System τ) : Prop :=
  ∀ t, (∀ how ∈ s.todo t, how = .lock) ∧
    s.completed.count t + (if s.pc t = .outside then 0 else 1) + (s.todo t).length =
      (program t).length

theorem Accounts.step {program : τ → List Acquire} {t : τ} (accounts : Accounts program s)
    (effect : Effect s t s') : Accounts program s' := by
  intro u
  obtain ⟨waits, total⟩ := accounts u
  by_cases same : u = t
  · subst same
    cases effect with
    | skips pc next =>
        have lock := waits .trylock (by rw [next]; exact List.mem_cons_self)
        cases lock
    | enters pc next free =>
        rw [next] at waits total
        simp only [System.enter, Function.update_self]
        refine ⟨fun how member => waits how (List.mem_cons_of_mem _ member), ?_⟩
        simp only [pc, List.length_cons, reduceIte] at total
        simp only [reduceCtorEq, reduceIte]
        omega
    | loads pc =>
        refine ⟨waits, ?_⟩
        simpa [pc] using total
    | stores pc =>
        refine ⟨waits, ?_⟩
        simpa [pc] using total
    | leaves pc =>
        refine ⟨waits, ?_⟩
        simp only [pc, reduceCtorEq, reduceIte] at total
        simp only [Function.update_self, List.count_append, List.count_singleton_self, reduceIte]
        omega
  · have apart : t ≠ u := fun eq => same eq.symm
    cases effect <;>
      simpa [System.enter, Function.update_of_ne same, List.count_append, apart]
        using ⟨waits, total⟩

theorem run_accounts {lock : Slock} {program : τ → List Acquire} {moves : List (Move τ)}
    (waits : ∀ t, ∀ how ∈ program t, how = .lock)
    (reached : run System.step (start lock program) moves = some s) : Accounts program s :=
  run_invariant System.step (Accounts program)
    (fun _ _ _ accounts step => accounts.step (step_effect step))
    (fun t => ⟨waits t, by simp [start]⟩) reached

end Steps

/-! ## Results -/

section Results

variable {τ : Type} [DecidableEq τ]

/-- **Mutual exclusion and no lost increment**, for any threads, any programs of
rounds and any schedule, on a lock that `s_alloc` returned. -/
theorem semLock_counts {malloc : Bool} {pid cnt cnt' : Int} {answers : List SemOpen} {lock : Slock}
    (allocated : sAlloc malloc pid cnt answers = some (some lock, cnt'))
    {program : τ → List Acquire} {moves : List (Move τ)} {s : System τ}
    (reached : run System.step (start lock program) moves = some s) :
    (s.value = 0 ∨ s.value = 1) ∧
      (∀ t u, s.pc t ≠ .outside → s.pc u ≠ .outside → t = u) ∧
      ((∀ t, s.finished t) → s.cnt = wrap32 s.completed.length) := by
  cases run_permit (sAlloc_value allocated) reached with
  | free value out count =>
      exact ⟨Or.inr value, fun t _ inside => absurd (out t) inside, fun _ => count⟩
  | held t value others own =>
      have holder : ∀ u, s.pc u ≠ .outside → u = t := by
        intro u inside
        by_contra other
        exact inside (others u other)
      refine ⟨Or.inl value, fun u v first second => ?_, fun finished => ?_⟩
      · rw [holder u first, holder v second]
      · rw [(finished t).1] at own
        exact own.elim

end Results

def tryProgram : Bool → List Acquire
  | true => [.lock]
  | false => [.trylock, .trylock]

/-- One thread tries while the other is inside, skips that round and gets the next. -/
def tryWhileHeld : List (Move Bool) :=
  [⟨true, false⟩, ⟨true, false⟩, ⟨false, true⟩, ⟨true, false⟩, ⟨true, false⟩, ⟨false, false⟩,
    ⟨false, false⟩, ⟨false, false⟩, ⟨false, false⟩]

theorem semLock_counts_try_while_held :
    ∃ s, sAlloc true 42 0 [.eexist, .created] = some (some ⟨semName 42 1, 1⟩, 2) ∧
      run System.step (start ⟨semName 42 1, 1⟩ tryProgram) tryWhileHeld = some s ∧
      s.completed = [true, false] ∧ s.cnt = wrap32 2 := by
  have allocated : sAlloc true 42 0 [.eexist, .created] = some (some ⟨semName 42 1, 1⟩, 2) := by
    decide +kernel
  have observed : (run System.step (start ⟨semName 42 1, 1⟩ tryProgram) tryWhileHeld).map
      (fun s => (s.completed, [s.pc true, s.pc false], [s.todo true, s.todo false])) =
        some ([true, false], [.outside, .outside], [[], []]) := by
    decide +kernel
  obtain ⟨s, reached, shape⟩ := Option.map_eq_some_iff.mp observed
  simp only [Prod.mk.injEq, List.cons.injEq, and_true] at shape
  obtain ⟨completed, pcs, todos⟩ := shape
  have finished : ∀ t, s.finished t := by
    intro t
    cases t
    · exact ⟨pcs.2, todos.2⟩
    · exact ⟨pcs.1, todos.1⟩
  have count := (semLock_counts allocated reached).2.2 finished
  rw [completed] at count
  exact ⟨s, allocated, reached, completed, count⟩

/-! ## semlock_test.c -/

/-- The two threads of semlock_test.c. -/
inductive Thread where
  | tid1
  | tid2
  deriving DecidableEq, Repr

/-- `thr_fn1` and `thr_fn2` are the same loop. -/
def thrFn : List Acquire := List.replicate 1000000 .lock

theorem length_completed (completed : List Thread) :
    completed.length = completed.count .tid1 + completed.count .tid2 := by
  induction completed with
  | nil => rfl
  | cons t completed ih => cases t <;> simp [ih] <;> omega

/-- What semlock_test.c prints after both joins. -/
theorem semlockTest_prints {malloc : Bool} {pid cnt cnt' : Int} {answers : List SemOpen}
    {lock : Slock} (allocated : sAlloc malloc pid cnt answers = some (some lock, cnt'))
    {moves : List (Move Thread)} {s : System Thread}
    (reached : run System.step (start lock fun _ => thrFn) moves = some s)
    (joined : ∀ t, s.finished t) : s.cnt = 2000000 := by
  have rounds : ∀ t, s.completed.count t = 1000000 := by
    intro t
    have total := (run_accounts (fun _ how member => List.eq_of_mem_replicate member) reached t).2
    rw [(joined t).1, (joined t).2, List.length_replicate] at total
    simpa only [reduceIte, List.length_nil, Nat.add_zero] using total
  cases run_permit (sAlloc_value allocated) reached with
  | free value out count =>
      rw [count, length_completed, rounds, rounds]
      decide
  | held t value others own =>
      rw [(joined t).1] at own
      exact own.elim

end UnixDemos.IPC.SemLock
