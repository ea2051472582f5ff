/-
# Pthread.JobQueueRefinement — the job queue refines a plain list

`Represents q l` is the heap shape: the records of `l` are allocated and linked
both ways between `q_head` and `q_tail`.  Each operation has one contract, that
it returns and moves the shape from one list to the next (`jobInsert_becomes`,
`jobAppend_becomes`, `jobRemove_becomes`), and `simulates` carries the contracts
along every sequence of calls the abstract `Ledger` admits.
-/
import UnixDemos.Pthread.JobQueue

namespace UnixDemos.Pthread.JobQueue

open UnixDemos.Library

set_option autoImplicit false

namespace Queue

/-- The heap holds exactly the queue `l`: its records are allocated and linked
both ways between `q_head` and `q_tail`. -/
structure Represents (q : Queue) (l : List Addr) : Prop where
  allocated : ∀ a ∈ l, q.Allocated a
  linked : Linked q.next q.prev q.qHead q.qTail l

/-- One call's contract: it returns, the heap then holds `l`, and no record was
allocated or lost. -/
def Becomes (q : Queue) (result : Except Fault Queue) (l : List Addr) : Prop :=
  ∃ q', result = .ok q' ∧ q'.Represents l ∧ ∀ a, q'.Allocated a ↔ q.Allocated a

variable {q : Queue} {l : List Addr} {jp : Addr}

/-- A call that returns the heap of `q'` under new end pointers meets its contract
once that heap is linked between them. -/
theorem becomes_of (q' : Queue) (head tail : Option Addr) {result : Except Fault Queue}
    (returns : result = .ok { q' with qHead := head, qTail := tail })
    (same : ∀ a, q'.Allocated a ↔ q.Allocated a) (inside : ∀ a ∈ l, q.Allocated a)
    (linked : Linked q'.next q'.prev head tail l) : q.Becomes result l :=
  ⟨_, returns, ⟨fun a member => (same a).mpr (inside a member), linked⟩, same⟩

/-! ## Insertion at either end -/

theorem jobInsert_becomes (represents : q.Represents l) (alloc : q.Allocated jp)
    (fresh : jp ∉ l) : q.Becomes (jobInsert q jp) (jp :: l) := by
  have inside : ∀ a ∈ jp :: l, q.Allocated a :=
    List.forall_mem_cons.mpr ⟨alloc, represents.allocated⟩
  have linked := represents.linked
  cases l with
  | nil =>
      have empty : q.qHead = none := linked.head_eq_none.mpr rfl
      refine becomes_of ((q.withNext jp none).withPrev jp none) (some jp)
        (some jp) ?_ (by simp) inside ?_
      · simp [jobInsert, empty, setNext_ok, setPrev_ok, alloc]
        rfl
      · rw [next_withPrev, next_withNext alloc, prev_withPrev (by simpa using alloc), prev_withNext]
        exact linked_singleton jp
  | cons b l =>
      have first : q.qHead = some b := linked.head_eq
      have allocB : q.Allocated b := represents.allocated b (List.mem_cons_self ..)
      refine becomes_of (((q.withNext jp (some b)).withPrev jp none).withPrev b (some jp))
        (some jp) (q.qTail) ?_ (by simp) inside ?_
      · simp [jobInsert, first, setNext_ok, setPrev_ok, alloc, allocB]
        rfl
      · rw [first] at linked
        rw [next_withPrev, next_withPrev, next_withNext alloc, prev_withPrev (by simpa using allocB),
          prev_withPrev (by simpa using alloc), prev_withNext]
        exact linked.cons fresh

theorem jobAppend_becomes (represents : q.Represents l) (alloc : q.Allocated jp)
    (fresh : jp ∉ l) : q.Becomes (jobAppend q jp) (l ++ [jp]) := by
  have inside : ∀ a ∈ l ++ [jp], q.Allocated a :=
    List.forall_mem_append.mpr ⟨represents.allocated, by simpa using alloc⟩
  have linked := represents.linked
  rcases List.eq_nil_or_concat l with rfl | ⟨front, b, rfl⟩
  · have empty : q.qTail = none := linked.tail_eq_none.mpr rfl
    refine becomes_of ((q.withPrev jp none).withNext jp none) (some jp)
      (some jp) ?_ (by simp) inside ?_
    · simp [jobAppend, empty, setNext_ok, setPrev_ok, alloc]
      rfl
    · rw [prev_withNext, prev_withPrev alloc, next_withNext (by simpa using alloc), next_withPrev]
      exact linked_singleton jp
  · have last : q.qTail = some b := by simpa using linked.tail_eq
    have allocB : q.Allocated b := represents.allocated b (by simp)
    refine becomes_of (((q.withPrev jp (some b)).withNext jp none).withNext b (some jp))
      (q.qHead) (some jp) ?_ (by simp) inside ?_
    · simp [jobAppend, last, setNext_ok, setPrev_ok, alloc, allocB]
      rfl
    · -- the tail edit is the head edit of the list read backwards
      have mirrored : Linked q.prev q.next (some b) q.qHead (b :: front.reverse) := by
        simpa [last] using linked.mirror
      have edited := (mirrored.cons (by simpa [or_comm] using fresh)).mirror
      rw [prev_withNext, prev_withNext, prev_withPrev alloc, next_withNext (by simpa using allocB),
        next_withNext (by simpa using alloc), next_withPrev]
      simpa using edited

/-! ## Removal anywhere -/

theorem head_ne_of_mem_front {front l₂ : List Addr} {b : Addr}
    (linked : Linked q.next q.prev q.qHead q.qTail (front ++ [b] ++ jp :: l₂)) :
    some jp ≠ q.qHead := by
  have nodup := linked.nodup
  rw [List.nodup_append] at nodup
  intro same
  have first : (front ++ [b]).head? = some jp := by
    rw [linked.head_eq, List.head?_append_of_ne_nil _ (by simp)] at same
    exact same.symm
  exact nodup.2.2 jp (List.mem_of_head? first) jp (by simp) rfl

theorem tail_ne_of_mem_back {l₁ back : List Addr} {c : Addr}
    (linked : Linked q.next q.prev q.qHead q.qTail (l₁ ++ jp :: c :: back)) :
    some jp ≠ q.qTail := by
  have nodup := linked.nodup
  have split : l₁ ++ jp :: c :: back = (l₁ ++ [jp]) ++ (c :: back) := by simp
  rw [split, List.nodup_append] at nodup
  intro same
  have last : (c :: back).getLast? = some jp := by
    rw [linked.tail_eq, split, List.getLast?_append_of_ne_nil _ (by simp)] at same
    exact same.symm
  exact nodup.2.2 jp (by simp) jp (List.mem_of_getLast? last) rfl

/-- Removal of a record given by its place in the queue: alone, first of
several, last of several, or between two others. -/
theorem jobRemove_becomes {l₁ l₂ : List Addr} (represents : q.Represents (l₁ ++ jp :: l₂)) :
    q.Becomes (jobRemove q jp) (l₁ ++ l₂) := by
  have linked := represents.linked
  have alloc := represents.allocated
  have allocJp : q.Allocated jp := alloc jp (by simp)
  have inside : ∀ a ∈ l₁ ++ l₂, q.Allocated a := by
    intro a member
    apply alloc a
    simp only [List.mem_append, List.mem_cons] at member ⊢
    tauto
  have next := linked.next_eq
  have prev := linked.prev_eq
  rcases List.eq_nil_or_concat l₁ with rfl | ⟨front, b, rfl⟩ <;> rcases l₂ with _ | ⟨c, back⟩
  · have head : q.qHead = some jp := linked.head_eq
    have tail : q.qTail = some jp := linked.tail_eq
    refine becomes_of q none none ?_ (by simp) inside linked_nil
    simp [jobRemove, head, tail, getNext_ok, allocJp, next]
    rfl
  · have head : q.qHead = some jp := linked.head_eq
    have tail : q.qTail ≠ some jp := fun same => tail_ne_of_mem_back linked same.symm
    have allocC : q.Allocated c := alloc c (by simp)
    refine becomes_of (q.withPrev c none) (q.next jp) (q.qTail) ?_ (by simp)
      inside ?_
    · simp [jobRemove, head, tail, getNext_ok, allocJp, next, setPrev_ok, allocC]
      rfl
    · rw [next_withPrev, prev_withPrev allocC]
      exact linked.unlink_head
  · have linked' : Linked q.next q.prev q.qHead q.qTail (front ++ [b] ++ jp :: []) := by
      simpa using linked
    have head := head_ne_of_mem_front linked'
    have tail : q.qTail = some jp := by simpa using linked.tail_eq
    have allocB : q.Allocated b := alloc b (by simp)
    have before : q.prev jp = some b := by simpa using prev
    refine becomes_of (q.withNext b none) (q.qHead) (q.prev jp) ?_ (by simp)
      inside ?_
    · simp [jobRemove, head, tail, getPrev_ok, allocJp, before, setNext_ok, allocB]
      rfl
    · -- again the mirror image of removing the head
      have mirrored : Linked q.prev q.next q.qTail q.qHead (jp :: b :: front.reverse) := by
        simpa using linked.mirror
      rw [prev_withNext, next_withNext allocB]
      simpa using mirrored.unlink_head.mirror
  · have linked' : Linked q.next q.prev q.qHead q.qTail (front ++ [b] ++ jp :: c :: back) := by
      simpa using linked
    have head := head_ne_of_mem_front linked'
    have tail := tail_ne_of_mem_back linked'
    have allocB : q.Allocated b := alloc b (by simp)
    have allocC : q.Allocated c := alloc c (by simp)
    have before : q.prev jp = some b := by simpa using prev
    have after : q.next jp = some c := by simpa using next
    have apart : jp ≠ b := by
      rintro rfl
      have nodup := linked'.nodup
      simp [List.nodup_append] at nodup
    refine becomes_of ((q.withNext b (some c)).withPrev c (some b)) (q.qHead)
      (q.qTail) ?_ (by simp) (by simpa using inside) ?_
    · simp [jobRemove, head, tail, getPrev_ok, getNext_ok, allocJp, before, after, setNext_ok,
        setPrev_ok, allocB, allocC, next_withNext, apart]
      rfl
    · rw [next_withPrev, next_withNext allocB, prev_withPrev (by simpa using allocC), prev_withNext]
      rw [← before, ← after]
      simpa using linked'.unlink

/-! ## Sequences of calls -/

/-- The invariant between the heap and the abstract ledger. -/
structure Refines (q : Queue) (s : Ledger) : Prop where
  allocated : ∀ a ∈ s.allocated, q.Allocated a
  queued : q.Represents s.queued

theorem refines_of_becomes {s : Ledger} {result : Except Fault Queue}
    (refines : q.Refines s) (becomes : q.Becomes result l) :
    ∃ q', result = .ok q' ∧ q'.Refines { s with queued := l } := by
  obtain ⟨q', returns, represents, same⟩ := becomes
  exact ⟨q', returns, fun a member => (same a).mpr (refines.allocated a member), represents⟩

theorem represents_malloc {j : Job} (represents : q.Represents l) (fresh : jp ∉ l) :
    Represents { q with jobs := Function.update q.jobs jp (some j) } l := by
  have other : ∀ a ∈ l, a ≠ jp := fun a member same => fresh (same ▸ member)
  refine ⟨fun a member => ?_, represents.linked.nodup, ?_, ?_⟩
  · simpa [Allocated, Function.update_of_ne (other a member)] using represents.allocated a member
  · refine (seg_congr fun a member => ?_).mpr represents.linked.forward
    simp [next, Function.update_of_ne (other a member)]
  · refine (seg_congr fun a member => ?_).mpr represents.linked.backward
    simp [prev, Function.update_of_ne (other a (List.mem_reverse.mp member))]

/-- One call: where the ledger admits it, the heap call returns and the two stay
together. -/
theorem call_refines {s s' : Ledger} {c : Call} (refines : q.Refines s) (call : s.call c = some s')
    (known : ∀ a ∈ s.queued, a ∈ s.allocated) : ∃ q', q.call c = .ok q' ∧ q'.Refines s' := by
  cases c with
  | malloc jp j =>
      obtain ⟨fresh, rfl⟩ := call_malloc.mp call
      refine ⟨_, rfl, ?_, represents_malloc refines.queued fun member => fresh (known jp member)⟩
      intro a member
      rcases List.mem_cons.mp member with rfl | old
      · simp [Allocated]
      · have apart : a ≠ jp := fun same => fresh (same ▸ old)
        simpa [Allocated, Function.update_of_ne apart] using refines.allocated a old
  | jobInsert jp =>
      obtain ⟨⟨alloc, fresh⟩, rfl⟩ := call_jobInsert.mp call
      exact refines_of_becomes refines
        (jobInsert_becomes refines.queued (refines.allocated jp alloc) fresh)
  | jobAppend jp =>
      obtain ⟨⟨alloc, fresh⟩, rfl⟩ := call_jobAppend.mp call
      exact refines_of_becomes refines
        (jobAppend_becomes refines.queued (refines.allocated jp alloc) fresh)
  | jobRemove jp =>
      obtain ⟨member, rfl⟩ := call_jobRemove.mp call
      obtain ⟨l₁, l₂, before, shape, after⟩ := List.exists_erase_eq member
      have represents := refines.queued
      rw [shape] at represents
      rw [after]
      exact refines_of_becomes refines (jobRemove_becomes represents)

end Queue

theorem Ledger.call_known {s s' : Ledger} {c : Call} (known : ∀ a ∈ s.queued, a ∈ s.allocated)
    (call : s.call c = some s') : ∀ a ∈ s'.queued, a ∈ s'.allocated := by
  cases c with
  | malloc jp j =>
      obtain ⟨-, rfl⟩ := call_malloc.mp call
      exact fun a member => List.mem_cons_of_mem _ (known a member)
  | jobInsert jp =>
      obtain ⟨⟨alloc, -⟩, rfl⟩ := call_jobInsert.mp call
      exact List.forall_mem_cons.mpr ⟨alloc, known⟩
  | jobAppend jp =>
      obtain ⟨⟨alloc, -⟩, rfl⟩ := call_jobAppend.mp call
      exact List.forall_mem_append.mpr ⟨known, by simpa using alloc⟩
  | jobRemove jp =>
      obtain ⟨-, rfl⟩ := call_jobRemove.mp call
      exact fun a member => known a (List.mem_of_mem_erase member)

/-- A whole sequence the ledger admits runs on the heap without a fault. -/
theorem simulates {calls : List Call} {q : Queue} {s s' : Ledger} (refines : q.Refines s)
    (known : ∀ a ∈ s.queued, a ∈ s.allocated) (admitted : run Ledger.call s calls = some s') :
    ∃ q', calls.foldlM Queue.call q = .ok q' ∧ q'.Refines s' := by
  induction calls generalizing q s with
  | nil =>
      cases admitted
      exact ⟨q, rfl, refines⟩
  | cons c calls ih =>
      obtain ⟨m, first, rest⟩ := (run_cons_some Ledger.call).mp admitted
      obtain ⟨q₁, returns, refines₁⟩ := Queue.call_refines refines first known
      obtain ⟨q', finishes, refines'⟩ := ih refines₁ (Ledger.call_known known first) rest
      refine ⟨q', ?_, refines'⟩
      rw [List.foldlM_cons, returns]
      exact finishes

theorem queueInit_refines (err : Int) (head tail : Option Addr) :
    (queueInit err (Queue.blank head tail)).1.Refines Ledger.empty :=
  ⟨by simp [Ledger.empty], by simp [Ledger.empty], linked_nil⟩

theorem run_known {calls : List Call} {s s' : Ledger} (known : ∀ a ∈ s.queued, a ∈ s.allocated)
    (admitted : run Ledger.call s calls = some s') : ∀ a ∈ s'.queued, a ∈ s'.allocated :=
  run_invariant Ledger.call (fun s => ∀ a ∈ s.queued, a ∈ s.allocated)
    (fun _ _ _ known call => Ledger.call_known known call) known admitted

/-- **The heap refines the list.**  Starting from `queue_init`, after every
initial part of every sequence of calls the ledger admits, the heap calls have
all returned and the queue is the ledger's list: `j_next` from `q_head` walks it
and `j_prev` from `q_tail` walks it backwards, both ending in NULL, and the two
ends are NULL together, exactly when the list is empty. -/
theorem jobQueue_refines_list (err : Int) (head tail : Option Addr) (calls : List Call)
    (final : Ledger) (admitted : run Ledger.call Ledger.empty calls = some final)
    (done rest : List Call) (split : calls = done ++ rest) :
    ∃ s q, run Ledger.call Ledger.empty done = some s ∧
      done.foldlM Queue.call (queueInit err (Queue.blank head tail)).1 = .ok q ∧
      s.queued.Nodup ∧
      Seg q.next q.qHead s.queued none ∧
      Seg q.prev q.qTail s.queued.reverse none ∧
      (q.qHead = none ↔ q.qTail = none) ∧ (q.qHead = none ↔ s.queued = []) := by
  subst split
  rw [run_append, Option.bind_eq_some_iff] at admitted
  obtain ⟨s, reached, -⟩ := admitted
  obtain ⟨q, returns, refines⟩ :=
    simulates (queueInit_refines err head tail) (by simp [Ledger.empty]) reached
  have linked := refines.queued.linked
  refine ⟨s, q, reached, returns, linked.nodup, linked.forward, linked.backward, ?_,
    linked.head_eq_none⟩
  rw [linked.head_eq_none, linked.tail_eq_none]

/-- Two records with garbage links, one of them removed from the head and put
back at the tail with the stale links it kept. -/
theorem jobQueue_refines_list_reused_record :
    let calls : List Call := [.malloc 1 ⟨7, some 9, some 2⟩, .malloc 2 ⟨8, some 1, some 1⟩,
      .jobAppend 1, .jobInsert 2, .jobRemove 2, .jobAppend 2]
    run Ledger.call Ledger.empty calls = some ⟨[2, 1], [1, 2]⟩ ∧
    ∃ s q, run Ledger.call Ledger.empty calls = some s ∧
      calls.foldlM Queue.call (queueInit 0 (Queue.blank none none)).1 = .ok q ∧
      s.queued.Nodup ∧
      Seg q.next q.qHead s.queued none ∧
      Seg q.prev q.qTail s.queued.reverse none ∧
      (q.qHead = none ↔ q.qTail = none) ∧ (q.qHead = none ↔ s.queued = []) :=
  ⟨by decide, jobQueue_refines_list 0 none none _ ⟨[2, 1], [1, 2]⟩ (by decide) _ []
    (List.append_nil _).symm⟩

end UnixDemos.Pthread.JobQueue
