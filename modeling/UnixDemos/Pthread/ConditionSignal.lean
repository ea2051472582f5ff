/-
# Pthread.ConditionSignal — the task of condition_signal.c

`main` creates two threads and joins them.  `process_task` waits under `qlock` until `tp`
is set and prints the message; `enqueue_msg` takes the lock, allocates the task, copies
the message into it, gives the lock back and signals.  `delay` returns at some time.

`malloc` and `memcpy` are two steps, so that between them `tp` points to a task whose
message is whatever the memory held.  A use of `tp` while it is `NULL` is a fault, which
ends the process, as does a return from `main` or a call of `exit`.
-/
import UnixDemos.Library.CString
import UnixDemos.Library.Monitor
import UnixDemos.Library.Run

namespace UnixDemos.Pthread.ConditionSignal

open UnixDemos.Library Monitor

set_option autoImplicit false

/-! ## State and steps -/

inductive Thread where
  | processTask
  | enqueueMsg
  deriving DecidableEq, Repr

/-- `struct task`. -/
structure Task where
  msg : Bytes
  size : msg.length = 64
  deriving DecidableEq

/-- `"Hello, there"`. -/
def hello : Bytes := [72, 101, 108, 108, 111, 44, 32, 116, 104, 101, 114, 101]

/-- `memcpy(tp->msg, msg, strlen(msg) + 1)`. -/
def Task.memcpy (t : Task) : Task :=
  ⟨overwrite t.msg (hello ++ [0]), by rw [length_overwrite (by rw [t.size]; decide), t.size]⟩

/-- Where `process_task` is; `awaiting .entered` is behind its loop. -/
inductive TaskPc where
  | absent
  | awaiting (a : Await)
  | unlocking
  | returned
  deriving DecidableEq, Repr

inductive EnqueuePc where
  | absent
  | locking
  | delaying
  | allocating
  | copying
  | unlocking
  | signalling
  | returned
  deriving DecidableEq, Repr

inductive MainPc where
  | create1
  | create2
  | join1
  | join2
  deriving DecidableEq, Repr

inductive Io where
  | task (msg : Bytes) (terminated : Bool)
  | exited (status : Int)
  | fprintf (message : String)
  deriving DecidableEq, Repr

structure System where
  main : MainPc
  task : TaskPc
  enqueue : EnqueuePc
  qlock : Monitor Thread
  tp : Option Task
  out : List Io
  /-- The status of the process once it has ended. -/
  status : Option Int
  /-- The thread that used `tp` while it was `NULL`. -/
  fault : Option Thread

/-- `error` is a call that fails, `memory` the answer of `malloc`. -/
inductive Event where
  | main (error : Bool)
  | processTask
  | enqueueMsg (memory : Option Task)
  | spurious
  deriving DecidableEq

namespace System

variable (s : System)

def exit (message : String) : System :=
  { s with out := s.out ++ [.fprintf message], status := some (-1) }

def runMain (error : Bool) : Option System :=
  match s.main with
  | .create1 =>
      if error then some (s.exit "pthread_create error: %s\n")
      else some { s with main := .create2, task := .awaiting .locking }
  | .create2 =>
      if error then some (s.exit "pthread_create error: %s\n")
      else some { s with main := .join1, enqueue := .locking }
  | .join1 =>
      if error then some (s.exit "pthread_join error: %s\n")
      else if s.task = .returned then some { s with main := .join2, out := s.out ++ [.exited 0] }
      else none
  | .join2 =>
      if error then some (s.exit "pthread_join error: %s\n")
      else if s.enqueue = .returned then
        some { s with out := s.out ++ [.exited 0], status := some 0 }
      else none

def processTask : Option System :=
  match s.task with
  | .absent | .returned => none
  | .awaiting .entered =>
      match s.tp with
      | none => some { s with fault := some .processTask }
      | some t =>
          some { s with
            task := .unlocking
            out := s.out ++ [.task (cstr t.msg) (decide (0 ∈ t.msg))] }
  | .awaiting a =>
      match a.step s.qlock .processTask s.tp.isSome with
      | none => none
      | some (qlock, a) => some { s with qlock := qlock, task := .awaiting a }
  | .unlocking => some { s with qlock := s.qlock.unlock, task := .returned }

def enqueueMsg (memory : Option Task) : Option System :=
  match s.enqueue with
  | .absent | .returned => none
  | .locking =>
      match s.qlock.lock .enqueueMsg with
      | none => none
      | some qlock => some { s with qlock := qlock, enqueue := .delaying }
  | .delaying => some { s with enqueue := .allocating }
  | .allocating => some { s with tp := memory, enqueue := .copying }
  | .copying =>
      match s.tp with
      | none => some { s with fault := some .enqueueMsg }
      | some t => some { s with tp := some t.memcpy, enqueue := .unlocking }
  | .unlocking => some { s with qlock := s.qlock.unlock, enqueue := .signalling }
  | .signalling =>
      -- only `process_task` ever sleeps on `qready`
      some { s with qlock := s.qlock.wake .processTask, enqueue := .returned }

def step : Event → Option System
  | .main error => if s.status = none ∧ s.fault = none then s.runMain error else none
  | .processTask => if s.status = none ∧ s.fault = none then s.processTask else none
  | .enqueueMsg memory =>
      if s.status = none ∧ s.fault = none then s.enqueueMsg memory else none
  | .spurious =>
      if s.status = none ∧ s.fault = none ∧ s.qlock.asleep .processTask = true then
        some { s with qlock := s.qlock.wake .processTask }
      else none

end System

def start : System where
  main := .create1
  task := .absent
  enqueue := .absent
  qlock := .idle
  tp := none
  out := []
  status := none
  fault := none

/-- No call fails; `memory` is read only by the step that calls `malloc`. -/
def Event.Calm : Event → Prop
  | .main error => error = false
  | .enqueueMsg memory => memory ≠ none
  | _ => True

/-! ## What every step keeps -/

def TaskPc.owns : TaskPc → Bool
  | .awaiting a => a.holds
  | .unlocking => true
  | _ => false

/-- `process_task` has left its loop. -/
def TaskPc.passed : TaskPc → Bool
  | .awaiting a => a = .entered
  | .unlocking | .returned => true
  | .absent => false

/-- `process_task` has printed. -/
def TaskPc.printed : TaskPc → Bool
  | .unlocking | .returned => true
  | _ => false

def EnqueuePc.owns : EnqueuePc → Bool
  | .delaying | .allocating | .copying | .unlocking => true
  | _ => false

/-- `malloc` was called, and `pthread_cond_signal` was not. -/
def EnqueuePc.due : EnqueuePc → Bool
  | .copying | .unlocking | .signalling => true
  | _ => false

/-- The message was copied. -/
def EnqueuePc.copied : EnqueuePc → Bool
  | .unlocking | .signalling | .returned => true
  | _ => false

/-- What `process_task` prints of a task that is ready. -/
def greeting : Io := .task hello true

def Io.isTask : Io → Bool
  | .task .. => true
  | _ => false

structure Shape (s : System) : Prop where
  task : s.task = .absent ↔ s.main = .create1
  enqueue : s.enqueue = .absent ↔ s.main = .create1 ∨ s.main = .create2
  joined : s.main = .join2 → s.task = .returned
  taskOwns : s.qlock.owner = some .processTask ↔ s.task.owns = true
  enqueueOwns : s.qlock.owner = some .enqueueMsg ↔ s.enqueue.owns = true
  asleep : s.qlock.asleep .processTask = true → s.task = .awaiting .sleeping
  set : s.tp.isSome = true → s.enqueue.due = true ∨ s.enqueue = .returned
  ready : s.enqueue.copied = true → ∃ t, s.tp = some t ∧ cstr t.msg = hello ∧ 0 ∈ t.msg
  passed : s.task.passed = true → s.tp.isSome = true
  covered : Await.Covered s.qlock .processTask s.tp.isSome s.enqueue.due
  running : s.status = none → s.out =
    (if s.task.printed then [greeting] else []) ++ if s.main = .join2 then [.exited 0] else []
  returned : s.status = some 0 → s.out = [greeting, .exited 0, .exited 0]
  tasks : s.out.filter Io.isTask = if s.task.printed then [greeting] else []
  fault : s.fault ≠ some .processTask

theorem start_shape : Shape start where
  task := by decide
  enqueue := by decide
  joined := nofun
  taskOwns := by decide
  enqueueOwns := by decide
  asleep := nofun
  set := nofun
  ready := nofun
  passed := nofun
  covered := nofun
  running _ := rfl
  returned := nofun
  tasks := rfl
  fault := nofun

section Steps

variable {s s' : System}

theorem Shape.exit (shape : Shape s) (message : String) : Shape (s.exit message) :=
  { shape with
    running := nofun
    returned := nofun
    tasks := by
      show (s.out ++ [Io.fprintf message]).filter Io.isTask = _
      rw [List.filter_append, shape.tasks]
      exact List.append_nil _ }

theorem Shape.runMain (shape : Shape s) (alive : s.status = none) {error : Bool}
    (stepped : s.runMain error = some s') : Shape s' := by
  have out := shape.running alive
  unfold System.runMain at stepped
  split at stepped
  · rename_i here
    have absent := shape.task.mpr here
    have later := shape.enqueue.mpr (Or.inl here)
    split at stepped
    · cases stepped
      exact shape.exit _
    · cases stepped
      have asleep : s.qlock.asleep .processTask = false := Bool.eq_false_iff.mpr fun sleeps => by
        rw [shape.asleep sleeps] at absent
        cases absent
      have free := shape.taskOwns
      rw [absent] at free
      exact { shape with
        task := by simp
        enqueue := by simp [later]
        joined := nofun
        taskOwns := free
        asleep := fun sleeps => by rw [asleep] at sleeps; cases sleeps
        passed := nofun
        running := fun _ => by simp [out, absent, here, TaskPc.printed]
        tasks := by rw [shape.tasks, absent]; rfl }
  · rename_i here
    have created : s.task ≠ .absent := fun absent => by
      rw [shape.task.mp absent] at here
      cases here
    have later := shape.enqueue.mpr (Or.inr here)
    have unowned := shape.enqueueOwns
    have early := shape.set
    rw [later] at unowned early
    split at stepped
    · cases stepped
      exact shape.exit _
    · cases stepped
      exact { shape with
        task := by simp [created]
        enqueue := by simp
        joined := nofun
        enqueueOwns := unowned
        set := fun some_task => by simp [EnqueuePc.due] at early; simp [early] at some_task
        ready := nofun
        covered := fun _ some_task => by simp [EnqueuePc.due] at early; simp [early] at some_task
        running := fun _ => by simp [out, here] }
  · rename_i here
    split at stepped
    · cases stepped
      exact shape.exit _
    · split at stepped
      · rename_i done
        cases stepped
        exact { shape with
          task := by simp [done]
          enqueue := by simpa [here] using shape.enqueue
          joined := fun _ => done
          running := fun _ => by simp [out, here]
          returned := fun ended => by simp [alive] at ended
          tasks := by
            rw [List.filter_append, shape.tasks]
            exact List.append_nil _ }
      · cases stepped
  · rename_i here
    split at stepped
    · cases stepped
      exact shape.exit _
    · split at stepped
      · rename_i done
        cases stepped
        exact { shape with
          running := nofun
          returned := fun _ => by simp [out, shape.joined here, here, TaskPc.printed]
          tasks := by
            rw [List.filter_append, shape.tasks]
            exact List.append_nil _ }
      · cases stepped

/-- One step of the loop of `process_task`. -/
theorem Shape.awaits (shape : Shape s) {a b : Await} {qlock : Monitor Thread}
    (here : s.task = .awaiting a)
    (effect : Await.Effect s.qlock .processTask s.tp.isSome a qlock b) :
    Shape { s with qlock := qlock, task := .awaiting b } := by
  have place : Await.At s.qlock .processTask a := by
    refine ⟨shape.taskOwns.trans (by rw [here]; rfl), fun asleep => ?_⟩
    have sleeping := shape.asleep asleep
    rw [here] at sleeping
    exact TaskPc.awaiting.inj sleeping
  have place' := effect.at place
  have created : s.main ≠ .create1 := fun early => by
    rw [shape.task.mpr early] at here
    cases here
  have unjoined : s.main ≠ .join2 := fun late => by
    rw [shape.joined late] at here
    cases here
  refine { shape with
    task := by simp [created]
    joined := fun late => absurd late unjoined
    taskOwns := place'.owner
    enqueueOwns := ?_
    asleep := fun asleep => by rw [place'.asleep asleep]
    passed := ?_
    covered := effect.covered shape.covered
    running := fun alive => by simp [shape.running alive, here, TaskPc.printed]
    tasks := by rw [shape.tasks, here]; rfl }
  · -- the mutex goes from nobody to this thread, or from it to nobody
    rw [← shape.enqueueOwns]
    cases effect with
    | locked a before free => simp [free]
    | entered holds => exact Iff.rfl
    | slept fails => simp [Monitor.sleep, place.owner.mpr rfl]
  · cases effect with
    | locked a before free =>
        intro passed
        cases passed
    | entered holds => exact fun _ => holds
    | slept fails =>
        intro passed
        cases passed

theorem Shape.processTask (shape : Shape s) (alive : s.status = none)
    (stepped : s.processTask = some s') : Shape s' := by
  unfold System.processTask at stepped
  split at stepped
  · cases stepped
  · cases stepped
  · -- the task is there, and with the lock here its message is complete
    rename_i here
    have some_task := shape.passed (by rw [here]; rfl)
    have mine := shape.taskOwns.mpr (by rw [here]; rfl)
    have copied : s.enqueue.copied = true := by
      have unowned : s.enqueue.owns ≠ true := fun owns => by
        rw [shape.enqueueOwns.mpr owns] at mine
        cases mine
      have after := shape.set some_task
      cases enqueue : s.enqueue <;> simp_all [EnqueuePc.due, EnqueuePc.owns, EnqueuePc.copied]
    obtain ⟨t, points, message, terminated⟩ := shape.ready copied
    have created : s.main ≠ .create1 := fun early => by
      rw [shape.task.mpr early] at here
      cases here
    have unjoined : s.main ≠ .join2 := fun late => by
      rw [shape.joined late] at here
      cases here
    have silent : s.task.printed = false := by rw [here]; rfl
    split at stepped
    · rename_i null
      rw [points] at null
      cases null
    · rename_i u points'
      obtain rfl : t = u := Option.some.inj (points.symm.trans points')
      cases stepped
      have entry : Io.task (cstr t.msg) (decide (0 ∈ t.msg)) = greeting := by
        simp [message, terminated, greeting]
      rw [entry]
      exact { shape with
        task := by simp [created]
        joined := fun late => absurd late unjoined
        taskOwns := by simp [mine, TaskPc.owns]
        asleep := fun asleep => by simpa [here] using shape.asleep asleep
        passed := fun _ => some_task
        running := fun _ => by simp [shape.running alive, here, TaskPc.printed, unjoined]
        returned := fun ended => by simp [alive] at ended
        tasks := by
          rw [List.filter_append, shape.tasks, silent]
          rfl }
  · rename_i here
    split at stepped
    · cases stepped
    · rename_i went
      cases stepped
      exact shape.awaits here (Await.step_effect went)
  · rename_i here
    cases stepped
    have mine := shape.taskOwns.mpr (by rw [here]; rfl)
    have created : s.main ≠ .create1 := fun early => by
      rw [shape.task.mpr early] at here
      cases here
    exact { shape with
      task := by simp [created]
      joined := fun _ => rfl
      taskOwns := by simp [Monitor.unlock, TaskPc.owns]
      enqueueOwns := by
        rw [← shape.enqueueOwns]
        simp [Monitor.unlock, mine]
      asleep := fun asleep => by simpa [here] using shape.asleep asleep
      passed := fun _ => shape.passed (by rw [here]; rfl)
      running := fun alive => by simp [shape.running alive, here, TaskPc.printed]
      tasks := by rw [shape.tasks, here]; rfl }

theorem Shape.enqueueMsg (shape : Shape s) {memory : Option Task}
    (stepped : s.enqueueMsg memory = some s') : Shape s' := by
  -- while `tp` is not set yet, `process_task` is in front of its loop's end
  have early (pc : EnqueuePc) (here : s.enqueue = pc) (before : pc.due = false)
      (unfinished : pc ≠ .returned) : s.tp = none := by
    rcases task : s.tp with _ | t
    · rfl
    · rcases shape.set (by rw [task]; rfl) with due | done
      · rw [here, before] at due
        cases due
      · exact absurd (here ▸ done) unfinished
  have created (here : s.enqueue ≠ .absent) : s.main ≠ .create1 ∧ s.main ≠ .create2 :=
    not_or.mp fun absent => here (shape.enqueue.mpr absent)
  unfold System.enqueueMsg at stepped
  split at stepped
  · cases stepped
  · cases stepped
  · rename_i here
    have started := created (by simp [here])
    have null := early .locking here rfl nofun
    split at stepped
    · cases stepped
    · rename_i qlock locked
      cases stepped
      obtain ⟨free, rfl⟩ := lock_eq_some.mp locked
      exact { shape with
        enqueue := by simp [started]
        taskOwns := by
          rw [← shape.taskOwns]
          simp [free]
        enqueueOwns := by simp [EnqueuePc.owns]
        set := fun set => by simp [null] at set
        ready := nofun
        covered := fun _ set => by simp [null] at set }
  · rename_i here
    have started := created (by simp [here])
    have null := early .delaying here rfl nofun
    cases stepped
    exact { shape with
      enqueue := by simp [started]
      enqueueOwns := by
        rw [shape.enqueueOwns, here]
        rfl
      set := fun set => by simp [null] at set
      ready := nofun
      covered := fun _ set => by simp [null] at set }
  · rename_i here
    have started := created (by simp [here])
    have null := early .allocating here rfl nofun
    cases stepped
    exact { shape with
      enqueue := by simp [started]
      enqueueOwns := by
        rw [shape.enqueueOwns, here]
        rfl
      set := fun _ => Or.inl rfl
      ready := nofun
      passed := fun passed => by simpa [null] using shape.passed passed
      covered := fun _ _ => rfl }
  · rename_i here
    have started := created (by simp [here])
    split at stepped
    · cases stepped
      exact { shape with fault := nofun }
    · rename_i t points
      cases stepped
      exact { shape with
        enqueue := by simp [started]
        enqueueOwns := by
          rw [shape.enqueueOwns, here]
          rfl
        set := fun _ => Or.inl rfl
        ready := fun _ => ⟨_, rfl, cstr_overwrite (by decide) _, by simp [Task.memcpy, overwrite]⟩
        passed := fun _ => rfl
        covered := fun _ _ => rfl }
  · rename_i here
    have started := created (by simp [here])
    have mine := shape.enqueueOwns.mpr (by rw [here]; rfl)
    cases stepped
    exact { shape with
      enqueue := by simp [started]
      taskOwns := by
        rw [← shape.taskOwns]
        simp [Monitor.unlock, mine]
      enqueueOwns := by simp [Monitor.unlock, EnqueuePc.owns]
      set := fun _ => Or.inl rfl
      ready := fun _ => shape.ready (by rw [here]; rfl)
      covered := fun _ _ => rfl }
  · rename_i here
    have started := created (by simp [here])
    cases stepped
    have awake : (s.qlock.wake .processTask).asleep .processTask ≠ true := by simp [Monitor.wake]
    exact { shape with
      enqueue := by simp [started]
      enqueueOwns := by
        rw [show (s.qlock.wake .processTask).owner = s.qlock.owner from rfl, shape.enqueueOwns,
          here]
        rfl
      asleep := fun asleep => absurd asleep awake
      set := fun _ => Or.inr rfl
      ready := fun _ => shape.ready (by rw [here]; rfl)
      covered := fun asleep => absurd asleep awake }

theorem Shape.step (shape : Shape s) {e : Event} (stepped : s.step e = some s') : Shape s' := by
  unfold System.step at stepped
  split at stepped <;> split at stepped
  · rename_i alive
    exact shape.runMain alive.1 stepped
  · cases stepped
  · rename_i alive
    exact shape.processTask alive.1 stepped
  · cases stepped
  · exact shape.enqueueMsg stepped
  · cases stepped
  · cases stepped
    have awake : (s.qlock.wake .processTask).asleep .processTask ≠ true := by simp [Monitor.wake]
    exact { shape with
      asleep := fun asleep => absurd asleep awake
      covered := fun asleep => absurd asleep awake }
  · cases stepped

theorem run_shape {es : List Event} (reached : run System.step start es = some s) : Shape s :=
  run_invariant System.step Shape (fun _ _ _ shape stepped => shape.step stepped) start_shape
    reached

/-! ## Both threads finish -/

def MainPc.left : MainPc → Nat
  | .create1 => 4
  | .create2 => 3
  | .join1 => 2
  | .join2 => 1

def EnqueuePc.left : EnqueuePc → Nat
  | .absent | .locking => 6
  | .delaying => 5
  | .allocating => 4
  | .copying => 3
  | .unlocking => 2
  | .signalling => 1
  | .returned => 0

def TaskPc.left (set : Bool) : TaskPc → Nat
  | .absent => Await.locking.left set + 2
  | .awaiting a => a.left set + 2
  | .unlocking => 1
  | .returned => 0

/-- A step of `main` or `enqueue_msg` outweighs all that `process_task` can do. -/
def System.left (s : System) : Nat :=
  (match s.status with
    | none => 5 * s.main.left
    | some _ => 0) + 5 * s.enqueue.left + s.task.left s.tp.isSome

theorem TaskPc.left_le (set : Bool) (pc : TaskPc) : pc.left set ≤ 4 := by
  cases pc with
  | absent => exact Nat.add_le_add_right (Await.left_le ..) 2
  | awaiting a => exact Nat.add_le_add_right (Await.left_le ..) 2
  | unlocking | returned => simp [left]

/-- No call has failed so far: the process runs, or `main` has returned. -/
structure Sane (s : System) : Prop where
  status : s.status = none ∨ s.status = some 0
  fault : s.fault = none
  allocated : s.enqueue = .copying → s.tp.isSome = true

theorem Sane.step (sane : Sane s) (shape : Shape s) {e : Event} (calm : e.Calm)
    (stepped : s.step e = some s') : Sane s' := by
  have unharmed := (shape.step stepped).fault
  obtain ⟨status, fault, allocated⟩ := sane
  cases e with
  | main error =>
      obtain rfl : error = false := calm
      simp only [System.step] at stepped
      split at stepped
      · unfold System.runMain at stepped
        split at stepped <;> simp only [Bool.false_eq_true, if_false] at stepped
        · cases stepped
          exact ⟨status, fault, allocated⟩
        · cases stepped
          exact ⟨status, fault, nofun⟩
        · split at stepped <;> cases stepped
          exact ⟨status, fault, allocated⟩
        · split at stepped <;> cases stepped
          exact ⟨Or.inr rfl, fault, allocated⟩
      · cases stepped
  | processTask =>
      simp only [System.step] at stepped
      split at stepped
      · unfold System.processTask at stepped
        split at stepped
        · cases stepped
        · cases stepped
        · split at stepped <;> cases stepped
          · exact absurd rfl unharmed
          · exact ⟨status, fault, allocated⟩
        · split at stepped <;> cases stepped
          exact ⟨status, fault, allocated⟩
        · cases stepped
          exact ⟨status, fault, allocated⟩
      · cases stepped
  | enqueueMsg memory =>
      simp only [System.step] at stepped
      split at stepped
      · unfold System.enqueueMsg at stepped
        split at stepped
        · cases stepped
        · cases stepped
        · split at stepped <;> cases stepped
          exact ⟨status, fault, nofun⟩
        · cases stepped
          exact ⟨status, fault, nofun⟩
        · cases stepped
          exact ⟨status, fault, fun _ => Option.isSome_iff_ne_none.mpr calm⟩
        · rename_i here
          split at stepped
          · rename_i null
            simp [null] at allocated
            exact absurd here allocated
          · cases stepped
            exact ⟨status, fault, nofun⟩
        · cases stepped
          exact ⟨status, fault, nofun⟩
        · cases stepped
          exact ⟨status, fault, nofun⟩
      · cases stepped
  | spurious =>
      simp only [System.step] at stepped
      split at stepped <;> cases stepped
      exact ⟨status, fault, allocated⟩

def blank : Task := ⟨zeros 64, rfl⟩

/-- One more step in the direction of the end. -/
def Advances (s : System) : Prop :=
  ∃ e s', e.Calm ∧ s.step e = some s' ∧ s'.left < s.left

theorem advances_main (running : s.status = none) (sane : Sane s)
    (moved : s.runMain false = some s') (less : s'.left < s.left) : Advances s :=
  ⟨.main false, s', rfl, by simp only [System.step, running, sane.fault, and_self, if_true, moved],
    less⟩

theorem advances_task (running : s.status = none) (sane : Sane s)
    (moved : s.processTask = some s') (less : s'.left < s.left) : Advances s :=
  ⟨.processTask, s', trivial,
    by simp only [System.step, running, sane.fault, and_self, if_true, moved], less⟩

theorem advances_enqueue (running : s.status = none) (sane : Sane s)
    (moved : s.enqueueMsg (some blank) = some s') (less : s'.left < s.left) : Advances s :=
  ⟨.enqueueMsg (some blank), s', nofun,
    by simp only [System.step, running, sane.fault, and_self, if_true, moved], less⟩

/-- `process_task` steps in its loop, to a place nearer to its end. -/
theorem advances_await (running : s.status = none) (sane : Sane s) {a : Await}
    (here : s.task = .awaiting a) (inside : a ≠ .entered)
    (able : (a.step s.qlock .processTask s.tp.isSome).isSome = true)
    (nearer : s.tp.isSome = true ∨ a = .testing) : Advances s := by
  obtain ⟨⟨qlock, b⟩, went⟩ := Option.isSome_iff_exists.mp able
  have moved : s.processTask = some { s with qlock := qlock, task := .awaiting b } := by
    unfold System.processTask
    cases a <;> first | exact absurd rfl inside | simp only [here, went]
  refine advances_task running sane moved ?_
  have less := (Await.step_effect went).left_lt nearer
  simp only [System.left, running, here, TaskPc.left]
  omega

/-- `enqueue_msg` gets the lock, if not at once then after `process_task` has gone to
sleep. -/
theorem advances_locking (shape : Shape s) (sane : Sane s) (running : s.status = none)
    (here : s.enqueue = .locking) : Advances s := by
  have null : s.tp = none := by
    rcases task : s.tp with _ | t
    · rfl
    · have := shape.set (by rw [task]; rfl)
      simp [here, EnqueuePc.due] at this
  rcases owner : s.qlock.owner with _ | thread
  · refine advances_enqueue running sane (by rw [System.enqueueMsg, here, lock_isSome owner]) ?_
    simp [System.left, running, here, EnqueuePc.left]
  · cases thread with
    | enqueueMsg =>
        have owns := shape.enqueueOwns.mp owner
        rw [here] at owns
        cases owns
    | processTask =>
        have owns := shape.taskOwns.mp owner
        have testing : s.task = .awaiting .testing := by
          have passed := shape.passed
          rcases task : s.task with _ | (_ | _ | _ | _) | _ | _ <;>
            simp_all [TaskPc.owns, Await.holds, TaskPc.passed]
        exact advances_await running sane testing (by simp) (by simp [Await.step, null])
          (Or.inr rfl)

theorem advances_unfinished (shape : Shape s) (sane : Sane s) (running : s.status = none)
    (created : s.enqueue ≠ .absent) (unfinished : s.enqueue ≠ .returned) : Advances s := by
  have task (set : Bool) := s.task.left_le set
  cases here : s.enqueue with
  | absent => exact absurd here created
  | locking => exact advances_locking shape sane running here
  | delaying =>
      refine advances_enqueue running sane (by rw [System.enqueueMsg, here]) ?_
      simp [System.left, running, here, EnqueuePc.left]
  | allocating =>
      refine advances_enqueue running sane (by rw [System.enqueueMsg, here]) ?_
      have before := task true
      simp only [System.left, running, here, EnqueuePc.left, Option.isSome_some]
      omega
  | copying =>
      obtain ⟨t, points⟩ := Option.isSome_iff_exists.mp (sane.allocated here)
      refine advances_enqueue running sane (by rw [System.enqueueMsg, here, points]) ?_
      simp [System.left, running, here, EnqueuePc.left, points]
  | unlocking =>
      refine advances_enqueue running sane (by rw [System.enqueueMsg, here]) ?_
      simp [System.left, running, here, EnqueuePc.left]
  | signalling =>
      refine advances_enqueue running sane (by rw [System.enqueueMsg, here]) ?_
      simp [System.left, running, here, EnqueuePc.left]
  | returned => exact absurd here unfinished

/-- Once `enqueue_msg` has returned, nothing keeps `process_task` from its end. -/
theorem advances_returned (shape : Shape s) (sane : Sane s) (running : s.status = none)
    (here : s.enqueue = .returned) (created : s.task ≠ .absent) (unfinished : s.task ≠ .returned) :
    Advances s := by
  obtain ⟨t, points, -⟩ := shape.ready (by rw [here]; rfl)
  have set : s.tp.isSome = true := by rw [points]; rfl
  rcases task : s.task with _ | a | _ | _
  · exact absurd task created
  · by_cases entered : a = .entered
    · subst entered
      refine advances_task running sane (by rw [System.processTask, task, points]) ?_
      simp [System.left, running, task, TaskPc.left]
    · have covered := shape.covered
      rw [here] at covered
      have free : a.holds = false → s.qlock.owner = none := by
        intro waits
        rcases owner : s.qlock.owner with _ | thread
        · rfl
        · cases thread with
          | processTask =>
              have owns := shape.taskOwns.mp owner
              rw [task, TaskPc.owns, waits] at owns
              cases owns
          | enqueueMsg =>
              have owns := shape.enqueueOwns.mp owner
              rw [here] at owns
              cases owns
      exact advances_await running sane task entered
        (Await.step_isSome covered set free entered) (Or.inl set)
  · refine advances_task running sane (by rw [System.processTask, task]) ?_
    simp [System.left, running, task, TaskPc.left]
  · exact absurd task unfinished

theorem Shape.advances (shape : Shape s) (sane : Sane s) (running : s.status = none) :
    Advances s := by
  cases main : s.main with
  | create1 =>
      refine advances_main running sane (by rw [System.runMain, main]; exact if_neg nofun) ?_
      simp [System.left, running, main, MainPc.left, shape.task.mpr main, TaskPc.left]
  | create2 =>
      have early := shape.enqueue.mpr (Or.inr main)
      refine advances_main running sane (by rw [System.runMain, main]; exact if_neg nofun) ?_
      simp [System.left, running, main, MainPc.left, early, EnqueuePc.left]
  | join1 =>
      have started : s.enqueue ≠ .absent ∧ s.task ≠ .absent :=
        ⟨fun absent => by simpa [main] using shape.enqueue.mp absent,
          fun absent => by simpa [main] using shape.task.mp absent⟩
      by_cases finished : s.enqueue = .returned
      · by_cases done : s.task = .returned
        · refine advances_main running sane
            (by rw [System.runMain, main]; exact (if_neg nofun).trans (if_pos done)) ?_
          simp [System.left, running, main, MainPc.left]
        · exact advances_returned shape sane running finished started.2 done
      · exact advances_unfinished shape sane running started.1 finished
  | join2 =>
      by_cases finished : s.enqueue = .returned
      · refine advances_main running sane
          (by rw [System.runMain, main]; exact (if_neg nofun).trans (if_pos finished)) ?_
        simp [System.left, running, main, MainPc.left]
      · refine advances_unfinished shape sane running (fun absent => ?_) finished
        simpa [main] using shape.enqueue.mp absent

theorem Shape.finishes (shape : Shape s) (sane : Sane s) :
    Leads System.step s fun t => t.status = some 0 := by
  induction n : s.left using Nat.strong_induction_on generalizing s with
  | _ n ih =>
      rcases sane.status with running | ended
      · obtain ⟨e, s', calm, stepped, less⟩ := shape.advances sane running
        exact leads_step e stepped
          (ih _ (n ▸ less) (shape.step stepped) (sane.step shape calm stepped) rfl)
      · exact leads_here ended

end Steps

/-- **condition_signal.c.**  In every interleaving, with any spurious wakeups and whichever
calls fail, `process_task` never uses `tp` while it is `NULL` and prints the message at
most once, and then whole.  If `process_task` sleeps although `tp` is set, the signal is
still to come.  As long as no call has failed the program can be brought to its end, where
its output is the message and the two statuses. -/
theorem task_delivered {es : List Event} {s : System}
    (reached : run System.step start es = some s) :
    s.fault ≠ some .processTask ∧
      (s.out.filter Io.isTask = [] ∨ s.out.filter Io.isTask = [.task hello true]) ∧
      (s.qlock.asleep .processTask = true → s.tp ≠ none → s.enqueue.due = true) ∧
      (s.status = some 0 → s.out = [.task hello true, .exited 0, .exited 0]) ∧
      ((∀ e ∈ es, e.Calm) → Leads System.step s fun t => t.status = some 0) := by
  have shape := run_shape reached
  refine ⟨shape.fault, ?_, ?_, shape.returned, fun calm => ?_⟩
  · rw [shape.tasks]
    split
    · exact Or.inr rfl
    · exact Or.inl rfl
  · intro asleep set
    exact shape.covered asleep (Option.isSome_iff_ne_none.mpr set)
  · have both : Shape s ∧ Sane s :=
      run_along System.step (fun s => Shape s ∧ Sane s)
        (fun s e t inv calm stepped =>
          ⟨inv.1.step stepped, inv.2.step inv.1 calm stepped⟩)
        ⟨start_shape, Or.inl rfl, rfl, nofun⟩ (along_of_forall System.step calm) reached
    exact both.1.finishes both.2

/-- `process_task` sleeps, is woken without a signal, and sleeps again; then the task is
allocated. -/
def sleepsTwice : List Event :=
  [.main false, .processTask, .processTask, .spurious, .processTask, .processTask, .main false,
    .enqueueMsg (some blank), .enqueueMsg (some blank), .enqueueMsg (some blank)]

theorem task_delivered_sleepsTwice : ∃ s, run System.step start sleepsTwice = some s ∧
    s.qlock.asleep .processTask = true ∧ s.enqueue.due = true ∧
      Leads System.step s fun t => t.status = some 0 := by
  obtain ⟨-, -, covered, -, finishes⟩ :=
    task_delivered (rfl : run System.step start sleepsTwice = some _)
  exact ⟨_, rfl, rfl, covered rfl nofun, finishes (by simp [sleepsTwice, Event.Calm])⟩

end UnixDemos.Pthread.ConditionSignal
