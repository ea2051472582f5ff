/-
# Pthread.JobQueueReader — the reader thread of job_queue.c beside the writer

`thr_fn2` leaves its loop when `q_head` and `q_tail` are the same pointer.  It reads
them without the lock, so here in two steps, in either order, with anything the writer
does between them.

With two jobs or more in the queue the head has an odd id and the tail an even one, so
the pointers differ even if they were not loaded at the same time (`seen_apart`).  With
no job both are NULL.  With exactly one job they are the same, and the loop ends with
that job in the queue.
-/
import UnixDemos.Pthread.JobQueueProgram

namespace UnixDemos.Pthread.JobQueue

open UnixDemos.Library

set_option autoImplicit false

/-! ## Both threads -/

/-- Where `thr_fn1` is: before the iteration `i` of a loop, or at its end. -/
inductive Pc1 where
  | inserting (i : Nat)
  | removing (i : Nat)
  | returned
  deriving DecidableEq, Repr

/-- Where `thr_fn2` is.  In the guard it has loaded neither, one or the other of the two
pointers. -/
inductive Pc2 where
  | sleeping
  | guard (head tail : Option (Option Addr))
  | traversing
  | done
  deriving DecidableEq, Repr

inductive Status where
  | running
  | exited (status : Int)
  | crashed (fault : Fault)
  deriving DecidableEq, Repr

structure Program where
  globals : Globals
  thr1 : Pc1
  thr2 : Pc2
  status : Status

/-- What happens next.  `insert` comes with the answer of `malloc`, `leave` is `thr_fn1`
leaving a loop, and `traverse` comes with the answer of `pthread_rwlock_rdlock`. -/
inductive Label where
  | insert (block : Option (Addr × Job))
  | remove
  | leave
  | wake
  | loadHead
  | loadTail
  | traverse (rdlock : Int) (fuel : Nat)
  deriving DecidableEq, Repr

namespace Program

variable (n : Nat) (s : Program)

/-- An iteration of `thr_fn1` ends, at `pc` or in a fault.  In either case it has printed
`text`. -/
def iterate (text : String) (pc : Pc1) : Except Fault Globals → Program
  | .error fault => { s with globals := s.globals.print text, status := .crashed fault }
  | .ok g => { s with globals := g, thr1 := pc }

/-- `qp -> q_head != qp -> q_tail`, once both are loaded. -/
def evaluate : Option (Option Addr) → Option (Option Addr) → Program
  | some head, some tail =>
      if head ≠ tail then { s with thr2 := .traversing }
      else { s with globals := s.globals.print "Done\n", thr2 := .done }
  | head, tail => { s with thr2 := .guard head tail }

/-- `traverse_jobs` and the `delay` after it.  It holds the lock throughout, and
`thr_fn1` waits. -/
def traverse (rdlock : Int) (fuel : Nat) : Option Program :=
  match traverseJobs rdlock fuel ⟨s.globals.queue, 0⟩ with
  | none => none
  | some (.error fault) => some { s with status := .crashed fault }
  | some (.ok (qp, out)) =>
      some { s with
        globals := { s.globals with queue := qp.queue, out := s.globals.out ++ out }
        thr2 := .guard none none
        status := if rdlock ≠ 0 then .exited (-1) else .running }

def step (e : Label) : Option Program :=
  if s.status ≠ .running then none
  else
    match e, s.thr1, s.thr2 with
    | .insert block, .inserting i, _ =>
        if i < n ∧ (block.all fun b => (s.globals.queue.jobs b.1).isNone) then
          some (s.iterate "inserting\n" (.inserting (i + 1)) (insertJob s.globals i block))
        else none
    | .remove, .removing i, _ =>
        if i < n then
          some (s.iterate "deleting\n" (.removing (i + 1)) (removeJob s.globals i))
        else none
    | .leave, .inserting i, _ => if i < n then none else some { s with thr1 := .removing 0 }
    | .leave, .removing i, _ => if i < n then none else some { s with thr1 := .returned }
    | .wake, _, .sleeping => some { s with thr2 := .guard none none }
    | .loadHead, _, .guard none tail => some (s.evaluate (some s.globals.queue.qHead) tail)
    | .loadTail, _, .guard head none => some (s.evaluate head (some s.globals.queue.qTail))
    | .traverse rdlock fuel, _, .traversing => s.traverse rdlock fuel
    | _, _, _ => none

/-- Both threads are created. -/
def start (err : Int) (head tail : Option Addr) : Program :=
  ⟨Globals.start err head tail, .inserting 0, .sleeping, .running⟩

/-- How many jobs were inserted and not removed. -/
def queued : Nat :=
  match s.thr1 with
  | .inserting i => i
  | .removing i => n - i
  | .returned => 0

end Program

/-! ## What a step can do -/

inductive Effect (n : Nat) (s : Program) : Label → Program → Prop where
  | crashed (e : Label) (out : List Out) (fault : Fault) :
      Effect n s e { s with globals := { s.globals with out := out }, status := .crashed fault }
  | inserted {i : Nat} {jp : Addr} {contents : Job} {g : Globals} (here : s.thr1 = .inserting i)
      (more : i < n) (free : s.globals.queue.jobs jp = none)
      (body : insertJob s.globals i (some (jp, contents)) = .ok g) :
      Effect n s (.insert (some (jp, contents)))
        { s with globals := g, thr1 := .inserting (i + 1) }
  | removed {i : Nat} {g : Globals} (here : s.thr1 = .removing i) (more : i < n)
      (body : removeJob s.globals i = .ok g) :
      Effect n s .remove { s with globals := g, thr1 := .removing (i + 1) }
  | allInserted {i : Nat} (here : s.thr1 = .inserting i) (ended : ¬ i < n) :
      Effect n s .leave { s with thr1 := .removing 0 }
  | allRemoved {i : Nat} (here : s.thr1 = .removing i) (ended : ¬ i < n) :
      Effect n s .leave { s with thr1 := .returned }
  | woke (here : s.thr2 = .sleeping) : Effect n s .wake { s with thr2 := .guard none none }
  | loadedHead {tail : Option (Option Addr)} (here : s.thr2 = .guard none tail) :
      Effect n s .loadHead (s.evaluate (some s.globals.queue.qHead) tail)
  | loadedTail {head : Option (Option Addr)} (here : s.thr2 = .guard head none) :
      Effect n s .loadTail (s.evaluate head (some s.globals.queue.qTail))
  | traversed {rdlock : Int} {fuel : Nat} (out : List Out) (status : Status)
      (here : s.thr2 = .traversing) :
      Effect n s (.traverse rdlock fuel)
        { s with
          globals := { s.globals with out := s.globals.out ++ out }
          thr2 := .guard none none
          status := status }

section Interleaving

variable {n : Nat} {s s' : Program} {e : Label}

/-- A reader gives the queue back as it was. -/
theorem queue_traverseJobs {rdlock : Int} {fuel : Nat} {qp qp' : Shared} {out : List Out}
    (returns : traverseJobs rdlock fuel qp = some (.ok (qp', out))) : qp'.queue = qp.queue := by
  unfold traverseJobs at returns
  split at returns
  · cases returns
    rfl
  · obtain ⟨result, -, mapped⟩ := Option.map_eq_some_iff.mp returns
    cases result with
    | error fault => cases mapped
    | ok visited =>
        cases mapped
        rfl

theorem step_effect (stepped : s.step n e = some s') : Effect n s e s' := by
  unfold Program.step at stepped
  split at stepped
  · cases stepped
  · split at stepped
    · rename_i block i here
      split at stepped
      · rename_i able
        cases stepped
        cases block with
        | none => exact .crashed ..
        | some b =>
            obtain ⟨jp, contents⟩ := b
            cases body : insertJob s.globals i (some (jp, contents)) with
            | error fault => exact .crashed ..
            | ok g => exact .inserted here able.1 (by simpa using able.2) body
      · cases stepped
    · rename_i i here
      split at stepped
      · rename_i more
        cases stepped
        cases body : removeJob s.globals i with
        | error fault => exact .crashed ..
        | ok g => exact .removed here more body
      · cases stepped
    · rename_i i here
      split at stepped
      · cases stepped
      · rename_i ended
        cases stepped
        exact .allInserted here ended
    · rename_i i here
      split at stepped
      · cases stepped
      · rename_i ended
        cases stepped
        exact .allRemoved here ended
    · rename_i here
      cases stepped
      exact .woke here
    · rename_i tail here
      cases stepped
      exact .loadedHead here
    · rename_i head here
      cases stepped
      exact .loadedTail here
    · rename_i rdlock fuel here
      unfold Program.traverse at stepped
      split at stepped
      · cases stepped
      · cases stepped
        exact .crashed _ s.globals.out _
      · rename_i qp out returns
        cases stepped
        rw [queue_traverseJobs returns]
        exact .traversed out _ here
    · cases stepped

/-! ## The invariant -/

/-- The ids in the queue are those from `Pc1.first` to before `Pc1.limit`. -/
def Pc1.first (n : Nat) : Pc1 → Nat
  | .inserting _ => 0
  | .removing i => i
  | .returned => n

def Pc1.limit (n : Nat) : Pc1 → Nat
  | .inserting i => i
  | _ => n

/-- All jobs were inserted and removed. -/
def Pc1.drained (n : Nat) (pc : Pc1) : Prop := pc = .removing n ∨ pc = .returned

theorem Pc1.drained.window_eq_nil {n : Nat} {pc : Pc1} (drained : pc.drained n) :
    window (pc.first n) (pc.limit n) = [] := by
  rcases drained with rfl | rfl <;> exact window_self n

/-- A pointer loaded at some time: the job of an id with this parity, or NULL from the
drained queue. -/
def Seen (n : Nat) (s : Program) (parity : Nat) (p : Option Addr) : Prop :=
  (p = none ∧ s.thr1.drained n) ∨
    ∃ i < s.thr1.limit n, i % 2 = parity ∧ s.globals.jpArr i = p

structure Good (n : Nat) (s : Program) : Prop where
  stored : Stored s.globals (s.thr1.limit n) (window (s.thr1.first n) (s.thr1.limit n))
  within : s.thr1.first n ≤ n ∧ s.thr1.limit n ≤ n
  begun : s.thr2 ≠ .sleeping → s.thr1 ≠ .inserting 0
  head : ∀ p tail, s.thr2 = .guard (some p) tail → Seen n s 1 p
  tail : ∀ p head, s.thr2 = .guard head (some p) → Seen n s 0 p
  done : s.thr2 = .done → s.thr1.drained n

/-- `thr_fn1` moved on; what `thr_fn2` has loaded stays what it is. -/
theorem Seen.mono {parity : Nat} {p : Option Addr} (seen : Seen n s parity p)
    (drained : s.thr1.drained n → s'.thr1.drained n)
    (limit : s.thr1.limit n ≤ s'.thr1.limit n)
    (kept : ∀ i < s.thr1.limit n, s'.globals.jpArr i = s.globals.jpArr i) :
    Seen n s' parity p := by
  rcases seen with ⟨null, empty⟩ | ⟨i, below, parity, stands⟩
  · exact Or.inl ⟨null, drained empty⟩
  · exact Or.inr ⟨i, Nat.lt_of_lt_of_le below limit, parity, (kept i below).trans stands⟩

/-- An odd and an even job are not the same. -/
theorem seen_apart (good : Good n s) {p : Option Addr} (odd : Seen n s 1 p) (even : Seen n s 0 p) :
    s.thr1.drained n := by
  rcases odd with ⟨-, empty⟩ | ⟨i, belowI, oddI, standsI⟩
  · exact empty
  · rcases even with ⟨-, empty⟩ | ⟨j, belowJ, evenJ, standsJ⟩
    · exact empty
    · obtain ⟨a, atI, idI⟩ := good.stored.numbered i belowI
      obtain ⟨b, atJ, idJ⟩ := good.stored.numbered j belowJ
      have same : a = b := by
        rw [standsI] at atI
        rw [standsJ, atI] at atJ
        exact Option.some.inj atJ
      subst same
      rw [idI] at idJ
      have : (i : Int) = j := Option.some.inj idJ
      omega

/-- Once a job was queued, an empty queue means that all were queued and removed. -/
theorem drained_of_queued (good : Good n s) (awake : s.thr2 ≠ .sleeping)
    (none_queued : s.queued n = 0) : s.thr1.drained n := by
  have begun := good.begun awake
  have within := good.within
  unfold Program.queued at none_queued
  cases pc : s.thr1 with
  | inserting i =>
      simp only [pc] at none_queued begun
      exact absurd (congrArg Pc1.inserting none_queued) begun
  | removing i =>
      simp only [pc, Pc1.first] at none_queued within
      exact Or.inl (congrArg Pc1.removing (by omega))
  | returned => exact Or.inr rfl

theorem queued_eq (s : Program) : s.queued n = s.thr1.limit n - s.thr1.first n := by
  unfold Program.queued
  cases s.thr1 with
  | inserting i => rfl
  | removing i => rfl
  | returned => exact (Nat.sub_self n).symm

/-- What a load finds, if it is not exactly one job that is queued. -/
theorem Good.loads (good : Good n s) (awake : s.thr2 ≠ .sleeping) (several : s.queued n ≠ 1) :
    Seen n s 1 s.globals.queue.qHead ∧ Seen n s 0 s.globals.queue.qTail := by
  have linked := good.stored.queued.linked
  by_cases empty : s.queued n = 0
  · have drained := drained_of_queued good awake empty
    rw [drained.window_eq_nil] at linked
    exact ⟨Or.inl ⟨linked.head_eq_none.mpr rfl, drained⟩,
      Or.inl ⟨linked.tail_eq_none.mpr rfl, drained⟩⟩
  · rw [queued_eq] at several empty
    obtain ⟨⟨i, inI, odd, first⟩, ⟨j, inJ, even, last⟩⟩ :=
      @window_ends (s.thr1.first n) (s.thr1.limit n) (by omega)
    have belowI := (mem_window.mp inI).2
    have belowJ := (mem_window.mp inJ).2
    obtain ⟨a, atI, -⟩ := good.stored.numbered i belowI
    obtain ⟨b, atJ, -⟩ := good.stored.numbered j belowJ
    refine ⟨Or.inr ⟨i, belowI, odd, ?_⟩, Or.inr ⟨j, belowJ, even, ?_⟩⟩
    · obtain ⟨rest, shape⟩ := List.head?_eq_some_iff.mp first
      rw [linked.head_eq, shape, List.filterMap_cons, atI]
      rfl
    · obtain ⟨front, shape⟩ := List.getLast?_eq_some_iff.mp last
      rw [linked.tail_eq, shape, List.filterMap_append]
      simp [atJ]

/-- `thr_fn1` takes a step. -/
theorem Good.advance (good : Good n s) (thr2 : s'.thr2 = s.thr2)
    (stored : Stored s'.globals (s'.thr1.limit n) (window (s'.thr1.first n) (s'.thr1.limit n)))
    (within : s'.thr1.first n ≤ n ∧ s'.thr1.limit n ≤ n) (begun : s'.thr1 ≠ .inserting 0)
    (drained : s.thr1.drained n → s'.thr1.drained n)
    (limit : s.thr1.limit n ≤ s'.thr1.limit n)
    (kept : ∀ i < s.thr1.limit n, s'.globals.jpArr i = s.globals.jpArr i) : Good n s' where
  stored := stored
  within := within
  begun := fun _ => begun
  head p tail here := (good.head p tail (thr2 ▸ here)).mono drained limit kept
  tail p head here := (good.tail p head (thr2 ▸ here)).mono drained limit kept
  done here := drained (good.done (thr2 ▸ here))

/-- `thr_fn2` takes a step that loads nothing. -/
theorem Good.restart (good : Good n s) (thr1 : s'.thr1 = s.thr1)
    (queue : s'.globals.queue = s.globals.queue) (jpArr : s'.globals.jpArr = s.globals.jpArr)
    (begun : s.thr1 ≠ .inserting 0) (thr2 : s'.thr2 = .guard none none ∨ s'.thr2 = .traversing) :
    Good n s' := by
  have stored := good.stored
  refine ⟨?_, thr1 ▸ good.within, fun _ => thr1 ▸ begun, ?_, ?_, ?_⟩
  · rw [thr1]
    exact ⟨queue ▸ jpArr ▸ stored.queued, queue ▸ jpArr ▸ stored.numbered,
      queue ▸ jpArr ▸ stored.known, stored.below⟩
  · rcases thr2 with here | here <;> simp [here]
  · rcases thr2 with here | here <;> simp [here]
  · rcases thr2 with here | here <;> simp [here]

/-- `thr_fn2` has loaded another pointer, and may be at the end of its loop. -/
theorem Good.evaluate (good : Good n s) (begun : s.thr1 ≠ .inserting 0)
    {head tail : Option (Option Addr)} (odd : ∀ p, head = some p → Seen n s 1 p)
    (even : ∀ p, tail = some p → Seen n s 0 p) : Good n (s.evaluate head tail) := by
  have waits : Good n { s with thr2 := .guard head tail } := by
    refine ⟨good.stored, good.within, fun _ => begun, ?_, ?_, by simp⟩
    · rintro p _ ⟨⟩
      exact odd p rfl
    · rintro p _ ⟨⟩
      exact even p rfl
  cases head with
  | none => exact waits
  | some h =>
      cases tail with
      | none => exact waits
      | some t =>
          simp only [Program.evaluate]
          split
          · exact good.restart rfl rfl rfl begun (Or.inr rfl)
          · rename_i same
            obtain rfl : h = t := not_not.mp same
            have drained := seen_apart good (odd h rfl) (even h rfl)
            have stored := good.stored
            exact ⟨⟨stored.queued, stored.numbered, stored.known, stored.below⟩, good.within,
              fun _ => begun, by simp, by simp, fun _ => drained⟩

/-! ## Conditions on a step -/

/-- `thr_fn2` begins to evaluate its guard after a job was queued. -/
def Begins (s : Program) : Label → Prop
  | .wake => s.thr1 ≠ .inserting 0
  | _ => True

/-- No pointer is loaded while exactly one job is queued. -/
def Several (n : Nat) (s : Program) : Label → Prop
  | .loadHead => s.queued n ≠ 1
  | .loadTail => s.queued n ≠ 1
  | _ => True

instance (s : Program) : (e : Label) → Decidable (Begins s e)
  | .wake => inferInstanceAs (Decidable (_ ≠ _))
  | .insert _ => isTrue trivial
  | .remove => isTrue trivial
  | .leave => isTrue trivial
  | .loadHead => isTrue trivial
  | .loadTail => isTrue trivial
  | .traverse _ _ => isTrue trivial

instance (n : Nat) (s : Program) : (e : Label) → Decidable (Several n s e)
  | .loadHead => inferInstanceAs (Decidable (_ ≠ _))
  | .loadTail => inferInstanceAs (Decidable (_ ≠ _))
  | .insert _ => isTrue trivial
  | .remove => isTrue trivial
  | .leave => isTrue trivial
  | .wake => isTrue trivial
  | .traverse _ _ => isTrue trivial

theorem Effect.good (good : Good n s) (begins : Begins s e) (several : Several n s e)
    (effect : Effect n s e s') : Good n s' := by
  have stored := good.stored
  have within := good.within
  cases effect with
  | crashed e out fault =>
      exact ⟨{ stored with }, within, good.begun, good.head, good.tail, good.done⟩
  | @inserted i jp contents g here more free body =>
      simp only [here, Pc1.first, Pc1.limit, window_zero] at stored
      have notIn : ¬ s.globals.queue.Allocated jp := by simp [Queue.Allocated, free]
      obtain ⟨g', returns, stored', jpArr, -⟩ := stored.insert notIn
      cases body.symm.trans returns
      refine good.advance rfl (window_zero (i + 1) ▸ stored') ⟨Nat.zero_le n, more⟩ (by simp)
        ?_ ?_ ?_
      · simp [here, Pc1.drained]
      · simp [here, Pc1.limit]
      · intro j below
        have apart : j ≠ i := by
          rw [here] at below
          exact Nat.ne_of_lt below
        dsimp only
        rw [jpArr, Function.update_of_ne apart]
  | @removed i g here more body =>
      simp only [here, Pc1.first, Pc1.limit] at stored
      obtain ⟨g', returns, stored', jpArr⟩ := stored.remove more
      cases body.symm.trans returns
      refine good.advance rfl stored' ⟨more, Nat.le_refl n⟩ (by simp) ?_ ?_ ?_
      · rw [here]
        rintro (full | full)
        · cases full
          exact absurd more (Nat.lt_irrefl _)
        · cases full
      · simp [here, Pc1.limit]
      · exact fun j _ => congrFun jpArr j
  | @allInserted i here ended =>
      have whole : i = n := by
        simp only [here, Pc1.limit] at within
        omega
      subst whole
      simp only [here, Pc1.first, Pc1.limit] at stored
      refine good.advance rfl stored ⟨Nat.zero_le i, Nat.le_refl i⟩ (by simp) ?_ ?_ fun _ _ => rfl
      · simp [here, Pc1.drained]
      · simp [here, Pc1.limit]
  | @allRemoved i here ended =>
      have whole : i = n := by
        simp only [here, Pc1.first] at within
        omega
      subst whole
      simp only [here, Pc1.first, Pc1.limit] at stored
      refine good.advance rfl stored ⟨Nat.le_refl i, Nat.le_refl i⟩ (by simp) (fun _ => Or.inr rfl)
        ?_ fun _ _ => rfl
      simp [here, Pc1.limit]
  | woke here => exact good.restart rfl rfl rfl begins (Or.inl rfl)
  | @loadedHead tail here =>
      have awake : s.thr2 ≠ .sleeping := by simp [here]
      refine good.evaluate (good.begun awake) ?_ ?_
      · rintro p ⟨⟩
        exact (good.loads awake several).1
      · rintro p rfl
        exact good.tail p none here
  | @loadedTail head here =>
      have awake : s.thr2 ≠ .sleeping := by simp [here]
      refine good.evaluate (good.begun awake) ?_ ?_
      · rintro p rfl
        exact good.head p none here
      · rintro p ⟨⟩
        exact (good.loads awake several).2
  | traversed out status here =>
      exact good.restart rfl rfl rfl (good.begun (by simp [here])) (Or.inl rfl)

theorem good_start (n : Nat) (err : Int) (head tail : Option Addr) :
    Good n (Program.start err head tail) where
  stored := stored_start err head tail
  within := ⟨Nat.zero_le n, Nat.zero_le n⟩
  begun awake := absurd rfl awake
  head := by simp [Program.start]
  tail := by simp [Program.start]
  done := by simp [Program.start]

/-! ## Results -/

/-- **Done when drained.**  Let the threads interleave in any way, `thr_fn2` beginning
after a job was queued, and let it load neither pointer while exactly one job is queued.
Then it is at the end of its loop only when no job is queued. -/
theorem done_when_drained (n : Nat) (err : Int) (head tail : Option Addr) {labels : List Label}
    {s : Program}
    (begins : Along (Program.step n) Begins (Program.start err head tail) labels)
    (several : Along (Program.step n) (Several n) (Program.start err head tail) labels)
    (reached : run (Program.step n) (Program.start err head tail) labels = some s)
    (done : s.thr2 = .done) : s.globals.Holds [] := by
  have good := run_along (Program.step n) (Good n)
    (fun _ _ _ good guards stepped => (step_effect stepped).good good guards.1 guards.2)
    (good_start n err head tail) (along_and (Program.step n) begins several) reached
  have holds := good.stored.holds
  rw [(good.done done).window_eq_nil] at holds
  exact holds

end Interleaving

/-- Two jobs; the guard sees both, none, and the loop ends. -/
def watchedRun : List Label :=
  [.insert (some (1, ⟨0, none, none⟩)), .insert (some (2, ⟨0, none, none⟩)), .wake, .loadTail,
    .leave, .loadHead, .traverse 0 5, .remove, .remove, .loadHead, .loadTail]

theorem done_when_drained_two_jobs :
    ∃ s, run (Program.step 2) (Program.start 0 none none) watchedRun = some s ∧
      s.thr2 = .done ∧ s.globals.Holds [] := by
  have observed : (run (Program.step 2) (Program.start 0 none none) watchedRun).map
      (fun s => s.thr2) = some .done := by decide +kernel
  obtain ⟨s, reached, done⟩ := Option.map_eq_some_iff.mp observed
  exact ⟨s, reached, done,
    done_when_drained 2 0 none none (by decide +kernel) (by decide +kernel) reached done⟩

/-- The guard is evaluated when the first job alone is queued. -/
def earlyGuard : List Label :=
  [.insert (some (1, ⟨0, none, none⟩)), .wake, .loadHead, .loadTail]

/-- One job in the queue is both head and tail. -/
theorem one_job_left :
    ¬ ∀ (err : Int) (head tail : Option Addr) (labels : List Label) (s : Program),
      Along (Program.step nJobs) Begins (Program.start err head tail) labels →
      run (Program.step nJobs) (Program.start err head tail) labels = some s →
      s.thr2 = .done → s.globals.Holds [] := by
  intro alwaysDrained
  have observed : (run (Program.step nJobs) (Program.start 0 none none) earlyGuard).map
      (fun s => (s.thr2, s.globals.queue.qHead)) = some (.done, some 1) := by decide +kernel
  obtain ⟨s, reached, shape⟩ := Option.map_eq_some_iff.mp observed
  obtain ⟨done, queued⟩ := Prod.mk.inj shape
  obtain ⟨l, represents, ids⟩ :=
    alwaysDrained 0 none none earlyGuard s (by decide +kernel) reached done
  obtain rfl : l = [] := by simpa using ids
  rw [represents.linked.head_eq_none.mpr rfl] at queued
  cases queued

end UnixDemos.Pthread.JobQueue
