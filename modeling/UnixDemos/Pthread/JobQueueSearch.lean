/-
# Pthread.JobQueueSearch — job_find and traverse_jobs

Both readers follow `j_next` from `q_head` to NULL; `job_find` leaves the loop at the
first record with the id it looks for.  Nothing in the loop bounds it, so it runs on
fuel here, and it reads through pointers, so it may fault.  On a heap that holds a
queue it does neither: it looks at the queued records in order, each once
(`walk_represents`), whatever the links of other records are.
-/
import UnixDemos.Pthread.JobQueueRefinement

namespace UnixDemos.Pthread.JobQueue

open UnixDemos.Library

set_option autoImplicit false

/-- `struct queue` with its lock, of which the readers are counted. -/
structure Shared where
  queue : Queue
  readers : Nat

/-- `for (jp = qp -> q_head; jp != NULL; jp = jp -> j_next)`, left early at a record that
satisfies `stop`: the records looked at, and the pointer at the end.  The outer `none` is
a loop that still runs when the fuel is used up. -/
def walk (q : Queue) (stop : Job → Bool) :
    Nat → Option Addr → Option (Except Fault (List Addr × Option Addr))
  | _, none => some (.ok ([], none))
  | 0, some _ => none
  | fuel + 1, some a =>
      match q.load (some a) with
      | .error fault => some (.error fault)
      | .ok j =>
          if stop j then some (.ok ([a], some a))
          else (walk q stop fuel j.jNext).map (Except.map fun (visited, jp) => (a :: visited, jp))

/-- `rdlock` is what `pthread_rwlock_rdlock` answers. -/
def jobFind (rdlock : Int) (fuel : Nat) (qp : Shared) (id : Int) :
    Option (Except Fault (Shared × List Addr × Option Addr)) :=
  if rdlock ≠ 0 then some (.ok (qp, [], none))
  else
    let qp := { qp with readers := qp.readers + 1 }
    let loop := walk qp.queue (fun j => j.jId = id) fuel qp.queue.qHead
    loop.map (Except.map fun (visited, jp) => ({ qp with readers := qp.readers - 1 }, visited, jp))

inductive Out where
  | printf (text : String)
  | fprintf (format : String) (err : Int)
  | exit (status : Int)
  deriving DecidableEq, Repr

/-- The id behind a pointer. -/
def Queue.idOf (q : Queue) (a : Addr) : Option Int := (q.jobs a).map Job.jId

/-- What is printed for the records the loop looked at. -/
def printIds (q : Queue) (visited : List Addr) : List Out :=
  (visited.filterMap q.idOf).map fun id => .printf (" " ++ toString id)

def traverseJobs (rdlock : Int) (fuel : Nat) (qp : Shared) :
    Option (Except Fault (Shared × List Out)) :=
  if rdlock ≠ 0 then
    some (.ok (qp, [.fprintf "pthread_rwlock_rdlock error: %s\n" rdlock, .exit (-1)]))
  else
    let qp := { qp with readers := qp.readers + 1 }
    let loop := walk qp.queue (fun _ => false) fuel qp.queue.qHead
    loop.map (Except.map fun (visited, _) =>
      ({ qp with readers := qp.readers - 1 },
        [.printf "delay before traversing\n", .printf "Queue:"] ++ printIds qp.queue visited ++
          [.printf "\n"]))

/-! ## The loop on a queue -/

/-- The records at which the loop stops. -/
def Queue.meets (q : Queue) (stop : Job → Bool) (a : Addr) : Bool := (q.jobs a).any stop

section Walk

variable {q : Queue} {l : List Addr} {p : Option Addr} {fuel : Nat} (stop : Job → Bool)

theorem walk_of_seg (alloc : ∀ a ∈ l, q.Allocated a) (seg : Seg q.next p l none)
    (enough : l.length ≤ fuel) :
    walk q stop fuel p =
      some (.ok (l.take (l.findIdx (q.meets stop) + 1), l.find? (q.meets stop))) := by
  induction l generalizing p fuel with
  | nil =>
      obtain rfl : p = none := seg
      simp [walk]
  | cons a l ih =>
      obtain ⟨rfl, later⟩ := seg
      obtain ⟨fuel, rfl⟩ : ∃ n, fuel = n + 1 := Nat.exists_eq_add_one.mpr (by
        rw [List.length_cons] at enough
        omega)
      rw [List.forall_mem_cons] at alloc
      obtain ⟨j, loaded, found⟩ := Queue.load_ok alloc.1
      have next : q.next a = j.jNext := by simp [Queue.next, found]
      have here : q.meets stop a = stop j := by simp [Queue.meets, found]
      rw [next] at later
      have rest := ih alloc.2 later (Nat.le_of_succ_le_succ enough)
      rw [walk, loaded]
      show (if stop j = true then _ else _) = _
      cases stops : stop j with
      | true => simp [here, stops, List.findIdx_cons]
      | false => simp [here, stops, List.findIdx_cons, rest, Except.map]

/-- On a heap that holds the queue `l` the loop ends, at the first record of `l` that
satisfies `stop`, and looks at no record of any other kind. -/
theorem walk_represents (represents : q.Represents l) (enough : l.length ≤ fuel) :
    walk q stop fuel q.qHead =
      some (.ok (l.take (l.findIdx (q.meets stop) + 1), l.find? (q.meets stop))) :=
  walk_of_seg stop represents.allocated represents.linked.forward enough

end Walk

/-- `traverse_jobs` prints the ids of the queue from head to tail. -/
theorem traverseJobs_represents {q : Queue} {l : List Addr} {fuel : Nat} (readers : Nat)
    (represents : q.Represents l) (enough : l.length ≤ fuel) :
    traverseJobs 0 fuel ⟨q, readers⟩ =
      some (.ok (⟨q, readers⟩, [.printf "delay before traversing\n", .printf "Queue:"] ++
        printIds q l ++ [.printf "\n"])) := by
  have whole : l.take (l.findIdx (q.meets fun _ => false) + 1) = l := by
    have never : ∀ a ∈ l, q.meets (fun _ => false) a = false := by simp [Queue.meets]
    rw [List.findIdx_eq_length_of_false never]
    exact List.take_of_length_le (Nat.le_succ _)
  simp only [traverseJobs, ne_eq, not_true_eq_false, if_false, walk_represents _ represents enough,
    whole, Option.map_some, Except.map, Nat.add_sub_cancel]

/-- **Search of a reachable queue.**  After every sequence of calls the ledger admits, the
loop of `job_find` ends after at most as many rounds as jobs are queued.  It looks only at
queued jobs, returns the one with the id that is nearest to the head, or NULL if there is
none, and leaves queue and lock as they were.  A lock that cannot be had gives NULL. -/
theorem jobFind_nearest (err : Int) (head tail : Option Addr) {calls : List Call} {s : Ledger}
    (admitted : run Ledger.call Ledger.empty calls = some s) :
    ∃ q, calls.foldlM Queue.call (queueInit err (Queue.blank head tail)).1 = .ok q ∧
      q.Represents s.queued ∧
      ∀ (id rdlock : Int) (readers fuel : Nat), s.queued.length ≤ fuel →
        ∃ visited, (∀ a ∈ visited, a ∈ s.queued) ∧
          jobFind rdlock fuel ⟨q, readers⟩ id = some (.ok (⟨q, readers⟩, visited,
            if rdlock = 0 then s.queued.find? fun a => q.idOf a = some id else none)) := by
  obtain ⟨q, returns, refines⟩ :=
    simulates (queueInit_refines err head tail) (by simp [Ledger.empty]) admitted
  refine ⟨q, returns, refines.queued, fun id rdlock readers fuel enough => ?_⟩
  have sameId : q.meets (fun j => j.jId = id) = fun a => decide (q.idOf a = some id) := by
    funext a
    cases found : q.jobs a <;> simp [Queue.meets, Queue.idOf, found]
  by_cases locked : rdlock = 0
  · refine ⟨s.queued.take (s.queued.findIdx (q.meets fun j => j.jId = id) + 1), fun a member =>
      List.mem_of_mem_take member, ?_⟩
    simp only [jobFind, locked, ne_eq, not_true_eq_false, if_false, if_true,
      walk_represents _ refines.queued enough, sameId, Option.map_some, Except.map,
      Nat.add_sub_cancel]
  · exact ⟨[], by simp, by simp [jobFind, locked]⟩

/-- Three jobs, two of them with the id 7; the removed one still points at a queued one. -/
def sharedId : List Call :=
  [.malloc 1 ⟨7, none, none⟩, .malloc 2 ⟨7, none, none⟩, .malloc 3 ⟨8, none, none⟩,
    .jobAppend 1, .jobAppend 2, .jobInsert 3, .jobRemove 1]

theorem jobFind_nearest_shared_id :
    run Ledger.call Ledger.empty sharedId = some ⟨[3, 2, 1], [3, 2]⟩ ∧
    ∃ q, sharedId.foldlM Queue.call (queueInit 0 (Queue.blank none none)).1 = .ok q ∧
      q.Represents [3, 2] ∧
      ∀ (id rdlock : Int) (readers fuel : Nat), 2 ≤ fuel →
        ∃ visited, (∀ a ∈ visited, a ∈ [3, 2]) ∧
          jobFind rdlock fuel ⟨q, readers⟩ id = some (.ok (⟨q, readers⟩, visited,
            if rdlock = 0 then [3, 2].find? fun a => q.idOf a = some id else none)) :=
  have admitted : run Ledger.call Ledger.empty sharedId = some ⟨[3, 2, 1], [3, 2]⟩ := by decide
  ⟨admitted, jobFind_nearest 0 none none admitted⟩

end UnixDemos.Pthread.JobQueue
