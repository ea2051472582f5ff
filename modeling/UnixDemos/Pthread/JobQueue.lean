/-
# Pthread.JobQueue — the job queue of job_queue.c as a heap of records

`struct job` records live in a heap indexed by address; a pointer is an optional
address, `none` for NULL.  Reading or writing a field through NULL, or through an
address nothing was allocated at, is a `Fault`, so a call that returns `.ok` made
no bad access.  Every writer holds `q_lock` from its first line to its last, so
one call is one step here and the lock itself is not part of the state.

Records come from `malloc` with arbitrary contents, and `job_remove` leaves the
links of the record it takes out as they were; nothing below assumes anything
about the links of a record that is not queued.
-/
import UnixDemos.Library.Links
import UnixDemos.Library.Run

namespace UnixDemos.Pthread.JobQueue

open UnixDemos.Library

set_option autoImplicit false

abbrev Addr := Nat

structure Job where
  jId : Int
  jPrev : Option Addr
  jNext : Option Addr
  deriving DecidableEq, Repr

inductive Fault where
  | nullPointer
  | badPointer
  deriving DecidableEq, Repr

/-- The heap of job records and the two pointers of `struct queue`. -/
structure Queue where
  jobs : Addr → Option Job
  qHead : Option Addr
  qTail : Option Addr

namespace Queue

/-! ## Field access -/

/-- Read the record behind a pointer. -/
def load (q : Queue) : Option Addr → Except Fault Job
  | none => .error .nullPointer
  | some a =>
      match q.jobs a with
      | none => .error .badPointer
      | some j => .ok j

/-- Rewrite the record at `a`, if there is one. -/
def modify (q : Queue) (a : Addr) (f : Job → Job) : Queue :=
  { q with jobs := Function.update q.jobs a ((q.jobs a).map f) }

/-- Write through a pointer. -/
def store (q : Queue) (p : Option Addr) (f : Job → Job) : Except Fault Queue :=
  match p with
  | none => .error .nullPointer
  | some a =>
      match q.jobs a with
      | none => .error .badPointer
      | some _ => .ok (q.modify a f)

def setNext (q : Queue) (p v : Option Addr) : Except Fault Queue :=
  q.store p fun j => { j with jNext := v }

def setPrev (q : Queue) (p v : Option Addr) : Except Fault Queue :=
  q.store p fun j => { j with jPrev := v }

def getNext (q : Queue) (p : Option Addr) : Except Fault (Option Addr) := do
  let j ← q.load p
  return j.jNext

def getPrev (q : Queue) (p : Option Addr) : Except Fault (Option Addr) := do
  let j ← q.load p
  return j.jPrev

end Queue

/-! ## The queue operations -/

/-- `err` is what `pthread_rwlock_init` answers; the pointers are set before it
is called, whatever it answers. -/
def queueInit (err : Int) (q : Queue) : Queue × Int :=
  ({ q with qHead := none, qTail := none }, if err ≠ 0 then err else 0)

def jobInsert (q : Queue) (jp : Addr) : Except Fault Queue := do
  let q ← q.setNext (some jp) q.qHead
  let q ← q.setPrev (some jp) none
  let q ←
    if q.qHead ≠ none then q.setPrev q.qHead (some jp)
    else pure { q with qTail := some jp }
  return { q with qHead := some jp }

def jobAppend (q : Queue) (jp : Addr) : Except Fault Queue := do
  let q ← q.setPrev (some jp) q.qTail
  let q ← q.setNext (some jp) none
  let q ←
    if q.qTail ≠ none then q.setNext q.qTail (some jp)
    else pure { q with qHead := some jp }
  return { q with qTail := some jp }

def jobRemove (q : Queue) (jp : Addr) : Except Fault Queue := do
  if some jp = q.qHead then
    let q := { q with qHead := ← q.getNext (some jp) }
    if q.qTail = some jp then
      return { q with qTail := none }
    else
      q.setPrev (← q.getNext (some jp)) none
  else if some jp = q.qTail then
    let q := { q with qTail := ← q.getPrev (some jp) }
    if some jp = q.qHead then
      return { q with qHead := none }
    else
      q.setNext (← q.getPrev (some jp)) none
  else
    let q ← q.setNext (← q.getPrev (some jp)) (← q.getNext (some jp))
    q.setPrev (← q.getNext (some jp)) (← q.getPrev (some jp))

/-! ## Sequences of calls -/

/-- What a client does: allocate a record (with whatever contents), or call one
of the three operations on one. -/
inductive Call where
  | malloc (jp : Addr) (j : Job)
  | jobInsert (jp : Addr)
  | jobAppend (jp : Addr)
  | jobRemove (jp : Addr)

def Queue.call (q : Queue) : Call → Except Fault Queue
  | .malloc jp j => .ok { q with jobs := Function.update q.jobs jp (some j) }
  | .jobInsert jp => JobQueue.jobInsert q jp
  | .jobAppend jp => JobQueue.jobAppend q jp
  | .jobRemove jp => JobQueue.jobRemove q jp

/-- The process before `queue_init`: no job allocated, the two pointers of the
freshly allocated queue arbitrary. -/
def Queue.blank (head tail : Option Addr) : Queue := ⟨fun _ => none, head, tail⟩

/-! ## The list the queue stands for -/

/-- The abstract queue: which records exist and which are queued, head first. -/
structure Ledger where
  allocated : List Addr
  queued : List Addr
  deriving DecidableEq, Repr

/-- The plain-list meaning of a call; `none` where the client may not make it. -/
def Ledger.call (s : Ledger) : Call → Option Ledger
  | .malloc jp _ =>
      if jp ∈ s.allocated then none else some { s with allocated := jp :: s.allocated }
  | .jobInsert jp =>
      if jp ∈ s.allocated ∧ jp ∉ s.queued then some { s with queued := jp :: s.queued } else none
  | .jobAppend jp =>
      if jp ∈ s.allocated ∧ jp ∉ s.queued then some { s with queued := s.queued ++ [jp] } else none
  | .jobRemove jp =>
      if jp ∈ s.queued then some { s with queued := s.queued.erase jp } else none

def Ledger.empty : Ledger := ⟨[], []⟩

section Ledger

variable {s s' : Ledger} {jp : Addr}

theorem call_malloc {j : Job} : s.call (.malloc jp j) = some s' ↔
    jp ∉ s.allocated ∧ { s with allocated := jp :: s.allocated } = s' := by
  simp only [Ledger.call, Option.ite_none_left_eq_some, Option.some.injEq]

theorem call_jobInsert : s.call (.jobInsert jp) = some s' ↔
    (jp ∈ s.allocated ∧ jp ∉ s.queued) ∧ { s with queued := jp :: s.queued } = s' := by
  simp only [Ledger.call, Option.ite_none_right_eq_some, Option.some.injEq]

theorem call_jobAppend : s.call (.jobAppend jp) = some s' ↔
    (jp ∈ s.allocated ∧ jp ∉ s.queued) ∧ { s with queued := s.queued ++ [jp] } = s' := by
  simp only [Ledger.call, Option.ite_none_right_eq_some, Option.some.injEq]

theorem call_jobRemove : s.call (.jobRemove jp) = some s' ↔
    jp ∈ s.queued ∧ { s with queued := s.queued.erase jp } = s' := by
  simp only [Ledger.call, Option.ite_none_right_eq_some, Option.some.injEq]

end Ledger

namespace Queue

/-! ## Links of the heap -/

variable (q : Queue)

def next (a : Addr) : Option Addr := (q.jobs a).bind Job.jNext

def prev (a : Addr) : Option Addr := (q.jobs a).bind Job.jPrev

def Allocated (a : Addr) : Prop := (q.jobs a).isSome

variable {q}

theorem load_ok {a : Addr} (alloc : q.Allocated a) :
    ∃ j, q.load (some a) = pure j ∧ q.jobs a = some j := by
  obtain ⟨j, found⟩ := Option.isSome_iff_exists.mp alloc
  exact ⟨j, by simp only [load, found]; rfl, found⟩

theorem store_ok {a : Addr} (alloc : q.Allocated a) (f : Job → Job) :
    q.store (some a) f = pure (q.modify a f) := by
  obtain ⟨j, found⟩ := Option.isSome_iff_exists.mp alloc
  simp only [store, found]
  rfl

/-- The queue after `a -> j_next = v`. -/
def withNext (q : Queue) (a : Addr) (v : Option Addr) : Queue :=
  q.modify a fun j => { j with jNext := v }

/-- The queue after `a -> j_prev = v`. -/
def withPrev (q : Queue) (a : Addr) (v : Option Addr) : Queue :=
  q.modify a fun j => { j with jPrev := v }

theorem setNext_ok {a : Addr} (alloc : q.Allocated a) (v : Option Addr) :
    q.setNext (some a) v = pure (q.withNext a v) := store_ok alloc _

theorem setPrev_ok {a : Addr} (alloc : q.Allocated a) (v : Option Addr) :
    q.setPrev (some a) v = pure (q.withPrev a v) := store_ok alloc _

theorem getNext_ok {a : Addr} (alloc : q.Allocated a) : q.getNext (some a) = pure (q.next a) := by
  obtain ⟨j, loaded, found⟩ := load_ok alloc
  simp [getNext, loaded, next, found]

theorem getPrev_ok {a : Addr} (alloc : q.Allocated a) : q.getPrev (some a) = pure (q.prev a) := by
  obtain ⟨j, loaded, found⟩ := load_ok alloc
  simp [getPrev, loaded, prev, found]

@[simp] theorem allocated_modify {a b : Addr} {f : Job → Job} :
    (q.modify a f).Allocated b ↔ q.Allocated b := by
  by_cases same : b = a
  · subst same
    simp [Allocated, modify]
  · simp [Allocated, modify, Function.update_of_ne same]

@[simp] theorem allocated_withNext {a b : Addr} {v : Option Addr} :
    (q.withNext a v).Allocated b ↔ q.Allocated b := allocated_modify

@[simp] theorem allocated_withPrev {a b : Addr} {v : Option Addr} :
    (q.withPrev a v).Allocated b ↔ q.Allocated b := allocated_modify

@[simp] theorem allocated_pointers {h t : Option Addr} {b : Addr} :
    ({ q with qHead := h, qTail := t } : Queue).Allocated b ↔ q.Allocated b := Iff.rfl

@[simp] theorem next_pointers {h t : Option Addr} :
    ({ q with qHead := h, qTail := t } : Queue).next = q.next := rfl

@[simp] theorem prev_pointers {h t : Option Addr} :
    ({ q with qHead := h, qTail := t } : Queue).prev = q.prev := rfl

theorem next_withNext {a : Addr} (alloc : q.Allocated a) (v : Option Addr) :
    (q.withNext a v).next = Function.update q.next a v := by
  obtain ⟨j, found⟩ := Option.isSome_iff_exists.mp alloc
  funext b
  by_cases same : b = a
  · subst same
    simp [next, withNext, modify, found]
  · simp [next, withNext, modify, Function.update_of_ne same]

theorem prev_withPrev {a : Addr} (alloc : q.Allocated a) (v : Option Addr) :
    (q.withPrev a v).prev = Function.update q.prev a v := by
  obtain ⟨j, found⟩ := Option.isSome_iff_exists.mp alloc
  funext b
  by_cases same : b = a
  · subst same
    simp [prev, withPrev, modify, found]
  · simp [prev, withPrev, modify, Function.update_of_ne same]

@[simp] theorem prev_withNext {a : Addr} {v : Option Addr} : (q.withNext a v).prev = q.prev := by
  funext b
  by_cases same : b = a
  · subst same
    cases found : q.jobs b <;> simp [prev, withNext, modify, found]
  · simp [prev, withNext, modify, Function.update_of_ne same]

@[simp] theorem next_withPrev {a : Addr} {v : Option Addr} : (q.withPrev a v).next = q.next := by
  funext b
  by_cases same : b = a
  · subst same
    cases found : q.jobs b <;> simp [next, withPrev, modify, found]
  · simp [next, withPrev, modify, Function.update_of_ne same]

@[simp] theorem qHead_withNext {a : Addr} {v : Option Addr} : (q.withNext a v).qHead = q.qHead := rfl
@[simp] theorem qTail_withNext {a : Addr} {v : Option Addr} : (q.withNext a v).qTail = q.qTail := rfl
@[simp] theorem qHead_withPrev {a : Addr} {v : Option Addr} : (q.withPrev a v).qHead = q.qHead := rfl
@[simp] theorem qTail_withPrev {a : Addr} {v : Option Addr} : (q.withPrev a v).qTail = q.qTail := rfl

end Queue

end UnixDemos.Pthread.JobQueue
