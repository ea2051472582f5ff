/-
# Pthread.JobQueueConfluence — two threads on one job queue

One thread puts jobs in at the head and takes jobs out, the other puts jobs in at
the tail and takes jobs out, each only its own.  On the list the queue stands for
any call of one can be exchanged with any call of the other (`call_diamond`), also
when the queue becomes empty or a single job between them.  So all interleavings
end with one list, and the list determines `q_head`, `q_tail` and the links of the
queued jobs.  The links of removed jobs do depend on the schedule.
-/
import UnixDemos.Library.Interleave
import UnixDemos.Pthread.JobQueueRefinement

namespace UnixDemos.Pthread.JobQueue

open UnixDemos.Library

set_option autoImplicit false

/-- The job a call is about. -/
def Call.job : Call → Addr
  | .malloc jp _ | .jobInsert jp | .jobAppend jp | .jobRemove jp => jp

/-- What the first thread calls. -/
def Call.atHead : Call → Bool
  | .jobInsert _ | .jobRemove _ => true
  | _ => false

/-- What the second thread calls. -/
def Call.atTail : Call → Bool
  | .jobAppend _ | .jobRemove _ => true
  | _ => false

/-- A call at the head and a call at the tail, about different jobs. -/
theorem call_diamond {a b : Call} (head : a.atHead = true) (tail : b.atTail = true)
    (apart : a.job ≠ b.job) : Diamond Ledger.call a b := by
  intro s s₁ s₂ first second
  cases a with
  | malloc | jobAppend => cases head
  | jobInsert x =>
      obtain ⟨⟨allocX, freshX⟩, rfl⟩ := call_jobInsert.mp first
      cases b with
      | malloc | jobInsert => cases tail
      | jobAppend y =>
          have differ : x ≠ y := apart
          obtain ⟨⟨allocY, freshY⟩, rfl⟩ := call_jobAppend.mp second
          refine ⟨⟨s.allocated, x :: (s.queued ++ [y])⟩, ?_, ?_⟩
          · exact call_jobAppend.mpr ⟨⟨allocY, by simpa [differ.symm] using freshY⟩, rfl⟩
          · exact call_jobInsert.mpr ⟨⟨allocX, by simpa [differ] using freshX⟩, rfl⟩
      | jobRemove y =>
          have differ : x ≠ y := apart
          obtain ⟨queuedY, rfl⟩ := call_jobRemove.mp second
          refine ⟨⟨s.allocated, x :: s.queued.erase y⟩, ?_, ?_⟩
          · refine call_jobRemove.mpr ⟨List.mem_cons_of_mem x queuedY, ?_⟩
            rw [List.erase_cons_tail (by simpa using differ)]
          · have fresh : x ∉ s.queued.erase y := fun member => freshX (List.mem_of_mem_erase member)
            exact call_jobInsert.mpr ⟨⟨allocX, fresh⟩, rfl⟩
  | jobRemove x =>
      obtain ⟨queuedX, rfl⟩ := call_jobRemove.mp first
      cases b with
      | malloc | jobInsert => cases tail
      | jobAppend y =>
          obtain ⟨⟨allocY, freshY⟩, rfl⟩ := call_jobAppend.mp second
          refine ⟨⟨s.allocated, s.queued.erase x ++ [y]⟩, ?_, ?_⟩
          · have fresh : y ∉ s.queued.erase x := fun member => freshY (List.mem_of_mem_erase member)
            exact call_jobAppend.mpr ⟨⟨allocY, fresh⟩, rfl⟩
          · refine call_jobRemove.mpr ⟨List.mem_append_left _ queuedX, ?_⟩
            rw [List.erase_append_left _ queuedX]
      | jobRemove y =>
          obtain ⟨queuedY, rfl⟩ := call_jobRemove.mp second
          refine ⟨⟨s.allocated, (s.queued.erase x).erase y⟩, ?_, ?_⟩
          · exact call_jobRemove.mpr ⟨(List.mem_erase_of_ne (Ne.symm apart)).mpr queuedY, rfl⟩
          · refine call_jobRemove.mpr ⟨(List.mem_erase_of_ne apart).mpr queuedX, ?_⟩
            rw [List.erase_comm]

/-- **Confluence.**  From any queue reached from `queue_init`, let one thread insert and
remove and another append and remove, on disjoint jobs and each so that its own calls
are valid.  Then every interleaving returns without a fault, and any two of them end
with one queue: the same jobs in the same order, the same `q_head` and `q_tail`, and
the same links in every queued job. -/
theorem jobQueue_confluent (err : Int) (head tail : Option Addr) {calls as bs : List Call}
    {s sa sb : Ledger} {q : Queue} (reachable : run Ledger.call Ledger.empty calls = some s)
    (returned : calls.foldlM Queue.call (queueInit err (Queue.blank head tail)).1 = .ok q)
    (atHead : ∀ a ∈ as, a.atHead = true) (atTail : ∀ b ∈ bs, b.atTail = true)
    (disjoint : ∀ a ∈ as, ∀ b ∈ bs, a.job ≠ b.job)
    (validA : run Ledger.call s as = some sa) (validB : run Ledger.call s bs = some sb)
    {es es' : List Call} (interleaved : Interleave as bs es) (interleaved' : Interleave as bs es') :
    ∃ q₁ q₂ queued, es.foldlM Queue.call q = .ok q₁ ∧ es'.foldlM Queue.call q = .ok q₂ ∧
      Seg q₁.next q₁.qHead queued none ∧ Seg q₂.next q₂.qHead queued none ∧
      q₁.qHead = q₂.qHead ∧ q₁.qTail = q₂.qTail ∧
      ∀ jp ∈ queued, q₁.next jp = q₂.next jp ∧ q₁.prev jp = q₂.prev jp := by
  have known := run_known (by simp [Ledger.empty]) reachable
  obtain ⟨q', same, refines⟩ :=
    simulates (queueInit_refines err head tail) (by simp [Ledger.empty]) reachable
  rw [returned, Except.ok.injEq] at same
  subst same
  have diamond : ∀ a ∈ as, ∀ b ∈ bs, Diamond Ledger.call a b := fun a inA b inB =>
    call_diamond (atHead a inA) (atTail b inB) (disjoint a inA b inB)
  obtain ⟨t, ends, serial⟩ := interleaved.run_eq diamond validA validB
  obtain ⟨t', ends', serial'⟩ := interleaved'.run_eq diamond validA validB
  rw [serial, Option.some.injEq] at serial'
  subst serial'
  obtain ⟨q₁, runs, refines₁⟩ := simulates refines known ends
  obtain ⟨q₂, runs', refines₂⟩ := simulates refines known ends'
  have linked₁ := refines₁.queued.linked
  have linked₂ := refines₂.queued.linked
  exact ⟨q₁, q₂, t.queued, runs, runs', linked₁.forward, linked₂.forward, linked₁.unique linked₂⟩

/-- Three jobs with garbage links, of which the first is queued. -/
def oneQueued : List Call :=
  [.malloc 1 ⟨7, some 9, some 2⟩, .malloc 2 ⟨8, some 1, some 1⟩, .malloc 3 ⟨9, none, some 5⟩,
    .jobAppend 1]

/-- One thread puts a second job in and takes it out again, the other takes the first
one out and puts a third in; in one order the queue is never empty, in the other it is
empty twice. -/
theorem jobQueue_confluent_through_empty :
    ∃ q, oneQueued.foldlM Queue.call (queueInit 0 (Queue.blank none none)).1 = .ok q ∧
    ∃ q₁ q₂ queued,
      [.jobInsert 2, .jobRemove 1, .jobAppend 3, .jobRemove 2].foldlM Queue.call q = .ok q₁ ∧
      [.jobRemove 1, .jobInsert 2, .jobRemove 2, .jobAppend 3].foldlM Queue.call q = .ok q₂ ∧
      Seg q₁.next q₁.qHead queued none ∧ Seg q₂.next q₂.qHead queued none ∧
      q₁.qHead = q₂.qHead ∧ q₁.qTail = q₂.qTail ∧
      ∀ jp ∈ queued, q₁.next jp = q₂.next jp ∧ q₁.prev jp = q₂.prev jp := by
  have reachable : run Ledger.call Ledger.empty oneQueued = some ⟨[3, 2, 1], [1]⟩ := by decide
  obtain ⟨q, returned, -⟩ :=
    simulates (queueInit_refines 0 none none) (by simp [Ledger.empty]) reachable
  have validA : run Ledger.call ⟨[3, 2, 1], [1]⟩ [.jobInsert 2, .jobRemove 2] =
      some ⟨[3, 2, 1], [1]⟩ := by decide
  have validB : run Ledger.call ⟨[3, 2, 1], [1]⟩ [.jobRemove 1, .jobAppend 3] =
      some ⟨[3, 2, 1], [3]⟩ := by decide
  refine ⟨q, returned, jobQueue_confluent 0 none none reachable returned (by decide) (by decide)
    (by decide) validA validB ?_ ?_⟩
  · exact .left _ (.right _ (.right _ (.left _ .nil)))
  · exact .right _ (.left _ (.left _ (.right _ .nil)))

end UnixDemos.Pthread.JobQueue
