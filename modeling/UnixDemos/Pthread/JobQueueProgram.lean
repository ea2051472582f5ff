/-
# Pthread.JobQueueProgram — the writer thread of job_queue.c

`thr_fn1` queues the jobs `0, 1, ..`, the even ones at the tail and the odd ones at the
head, and then takes them out in the order of their ids, so from the middle outwards.
At every moment the ids in the queue are those of an interval, the odd ones descending
and then the even ones ascending (`window`), and every iteration moves one end of the
interval (`Stored.insert`, `Stored.remove`).
-/
import UnixDemos.Pthread.JobQueueSearch

namespace UnixDemos.Pthread.JobQueue

open UnixDemos.Library

set_option autoImplicit false

/-- `NJOBS`. -/
def nJobs : Nat := 20

/-! ## thr_fn1 -/

/-- The queue behind `qp`, `jp_arr`, and what was printed. -/
structure Globals where
  queue : Queue
  jpArr : Nat → Option Addr
  out : List Out

def Globals.print (g : Globals) (text : String) : Globals :=
  { g with out := g.out ++ [.printf text] }

/-- The body of the first loop.  `block` is the answer of `malloc`, which is not checked:
NULL, or a record with any contents. -/
def insertJob (g : Globals) (i : Nat) (block : Option (Addr × Job)) : Except Fault Globals :=
  let g := g.print "inserting\n"
  match block with
  | none => .error .nullPointer
  | some (jp, contents) => do
      let q ← g.queue.call (.malloc jp contents)
      let q ← q.store (some jp) fun j => { j with jId := i }
      let q ← if i % 2 ≠ 0 then jobInsert q jp else jobAppend q jp
      return { g with queue := q, jpArr := Function.update g.jpArr i (some jp) }

/-- The body of the second loop. -/
def removeJob (g : Globals) (i : Nat) : Except Fault Globals :=
  let g := g.print "deleting\n"
  match g.jpArr i with
  | none => .error .nullPointer
  | some jp => do
      let q ← jobRemove g.queue jp
      return { g with queue := q }

/-- The globals when the threads are created. -/
def Globals.start (err : Int) (head tail : Option Addr) : Globals :=
  ⟨(queueInit err (Queue.blank head tail)).1, fun _ => none, []⟩

/-! ## What the operations leave alone -/

theorem bind_ok {α β : Type} {x : Except Fault α} {f : α → Except Fault β} {r : β} :
    (x >>= f) = .ok r ↔ ∃ a, x = .ok a ∧ f a = .ok r := by
  cases x with
  | error fault => simp [bind, Except.bind]
  | ok a => simp [bind, Except.bind]

namespace Queue

variable {q q' : Queue} {jp : Addr} {p v : Option Addr}

theorem idOf_store {f : Job → Job} (keeps : ∀ j, (f j).jId = j.jId)
    (returns : q.store p f = .ok q') : q'.idOf = q.idOf := by
  cases p with
  | none => cases returns
  | some a =>
      cases found : q.jobs a with
      | none => simp [store, found] at returns
      | some j =>
          simp only [store, found] at returns
          cases returns
          funext b
          by_cases same : b = a
          · subst same
            simp [idOf, modify, found, keeps]
          · simp [idOf, modify, Function.update_of_ne same]

theorem idOf_setNext (returns : q.setNext p v = .ok q') : q'.idOf = q.idOf :=
  idOf_store (f := fun j => { j with jNext := v }) (fun _ => rfl) returns

theorem idOf_setPrev (returns : q.setPrev p v = .ok q') : q'.idOf = q.idOf :=
  idOf_store (f := fun j => { j with jPrev := v }) (fun _ => rfl) returns

theorem idOf_jobInsert (returns : jobInsert q jp = .ok q') : q'.idOf = q.idOf := by
  unfold jobInsert at returns
  obtain ⟨q₁, next, returns⟩ := bind_ok.mp returns
  obtain ⟨q₂, prev, returns⟩ := bind_ok.mp returns
  have own : q₂.idOf = q.idOf := (idOf_setPrev prev).trans (idOf_setNext next)
  dsimp only at returns
  split at returns
  · obtain ⟨q₃, link, last⟩ := bind_ok.mp returns
    cases last
    exact (idOf_setPrev link).trans own
  · cases returns
    exact own

theorem idOf_jobAppend (returns : jobAppend q jp = .ok q') : q'.idOf = q.idOf := by
  unfold jobAppend at returns
  obtain ⟨q₁, prev, returns⟩ := bind_ok.mp returns
  obtain ⟨q₂, next, returns⟩ := bind_ok.mp returns
  have own : q₂.idOf = q.idOf := (idOf_setNext next).trans (idOf_setPrev prev)
  dsimp only at returns
  split at returns
  · obtain ⟨q₃, link, last⟩ := bind_ok.mp returns
    cases last
    exact (idOf_setNext link).trans own
  · cases returns
    exact own

theorem idOf_jobRemove (returns : jobRemove q jp = .ok q') : q'.idOf = q.idOf := by
  unfold jobRemove at returns
  split at returns
  · obtain ⟨head, -, returns⟩ := bind_ok.mp returns
    dsimp only at returns
    split at returns
    · cases returns
      rfl
    · obtain ⟨after, -, returns⟩ := bind_ok.mp returns
      have kept := idOf_setPrev returns
      exact kept
  · split at returns
    · obtain ⟨tail, -, returns⟩ := bind_ok.mp returns
      dsimp only at returns
      split at returns
      · cases returns
        rfl
      · obtain ⟨before, -, returns⟩ := bind_ok.mp returns
        have kept := idOf_setNext returns
        exact kept
    · obtain ⟨before, -, returns⟩ := bind_ok.mp returns
      obtain ⟨after, -, returns⟩ := bind_ok.mp returns
      obtain ⟨q₁, next, returns⟩ := bind_ok.mp returns
      obtain ⟨after', -, returns⟩ := bind_ok.mp returns
      obtain ⟨before', -, returns⟩ := bind_ok.mp returns
      exact (idOf_setPrev returns).trans (idOf_setNext next)

end Queue

/-! ## The ids in the queue -/

/-- The ids below `n` as `thr_fn1` queues them: odd ones descending, even ones ascending. -/
def order (n : Nat) : List Nat :=
  ((List.range n).filter fun i => i % 2 ≠ 0).reverse ++ (List.range n).filter fun i => i % 2 = 0

/-- What is left of them from `k` on. -/
def window (k n : Nat) : List Nat := (order n).filter fun i => k ≤ i

theorem order_succ_odd {n : Nat} (odd : n % 2 ≠ 0) : order (n + 1) = n :: order n := by
  have one : n % 2 = 1 := by omega
  simp [order, List.range_succ, one]

theorem order_succ_even {n : Nat} (even : n % 2 = 0) : order (n + 1) = order n ++ [n] := by
  simp [order, List.range_succ, even]

theorem mem_order {i n : Nat} : i ∈ order n ↔ i < n := by
  simp only [order, List.mem_append, List.mem_reverse, List.mem_filter, List.mem_range,
    decide_eq_true_eq]
  omega

theorem nodup_order (n : Nat) : (order n).Nodup := by
  refine List.nodup_append.mpr ⟨List.nodup_reverse.mpr (List.nodup_range.filter _),
    List.nodup_range.filter _, ?_⟩
  intro i odd j even same
  simp only [List.mem_reverse, List.mem_filter, decide_eq_true_eq] at odd even
  omega

theorem mem_window {i k n : Nat} : i ∈ window k n ↔ k ≤ i ∧ i < n := by
  simp only [window, List.mem_filter, mem_order, decide_eq_true_eq]
  omega

theorem window_zero (n : Nat) : window 0 n = order n := by simp [window]

theorem window_self (n : Nat) : window n n = [] := by
  refine List.eq_nil_iff_forall_not_mem.mpr fun i member => ?_
  have := mem_window.mp member
  omega

/-- The least id of the window, wherever it stands, is what the next removal takes out. -/
theorem window_succ {k n : Nat} (more : k < n) :
    ∃ front back, window k n = front ++ k :: back ∧ window (k + 1) n = front ++ back := by
  obtain ⟨front, back, split⟩ := List.append_of_mem (mem_window.mpr ⟨Nat.le_refl k, more⟩)
  refine ⟨front, back, split, ?_⟩
  have nodup : (front ++ k :: back).Nodup := split ▸ (nodup_order n).filter _
  have others : ∀ i ∈ front ++ back, k < i := by
    intro i member
    have inside : i ∈ window k n := by
      rw [split]
      simp only [List.mem_append, List.mem_cons] at member ⊢
      tauto
    have apart : i ≠ k := by
      rintro rfl
      exact (List.nodup_cons.mp (List.nodup_middle.mp nodup)).1 member
    have := (mem_window.mp inside).1
    omega
  have again : window (k + 1) n = (window k n).filter fun i => k + 1 ≤ i := by
    rw [window, window, List.filter_filter]
    apply List.filter_congr
    intro i _
    simp only [← Bool.decide_and, decide_eq_decide]
    omega
  rw [again, split, List.filter_append, List.filter_cons_of_neg (by simp), ← List.filter_append]
  exact List.filter_eq_self.mpr fun i member => decide_eq_true (others i member)

/-- With two jobs or more the head is odd and the tail even. -/
theorem window_ends {k n : Nat} (two : k + 2 ≤ n) :
    (∃ i ∈ window k n, i % 2 = 1 ∧ (window k n).head? = some i) ∧
      ∃ i ∈ window k n, i % 2 = 0 ∧ (window k n).getLast? = some i := by
  have parts : window k n =
      (((List.range n).filter fun i => i % 2 ≠ 0).reverse.filter fun i => k ≤ i) ++
        ((List.range n).filter fun i => i % 2 = 0).filter fun i => k ≤ i := by
    rw [window, order, List.filter_append]
  generalize odds : (((List.range n).filter fun i => i % 2 ≠ 0).reverse.filter fun i => k ≤ i) = l
    at parts
  generalize evens : ((List.range n).filter fun i => i % 2 = 0).filter (fun i => k ≤ i) = r
    at parts
  have odd : ∀ i, i ∈ l ↔ (i < n ∧ i % 2 ≠ 0) ∧ k ≤ i := by
    intro i
    simp only [← odds, List.mem_filter, List.mem_reverse, List.mem_range, decide_eq_true_eq]
  have even : ∀ i, i ∈ r ↔ (i < n ∧ i % 2 = 0) ∧ k ≤ i := by
    intro i
    simp only [← evens, List.mem_filter, List.mem_range, decide_eq_true_eq]
  rw [parts]
  constructor
  · have member : 2 * (k / 2) + 1 ∈ l := (odd _).mpr (by omega)
    obtain ⟨i, l, rfl⟩ := List.exists_cons_of_ne_nil (List.ne_nil_of_mem member)
    have isOdd := (odd i).mp List.mem_cons_self
    exact ⟨i, by simp, by omega, by simp⟩
  · have member : 2 * ((k + 1) / 2) ∈ r := (even _).mpr (by omega)
    rcases List.eq_nil_or_concat r with rfl | ⟨r, i, rfl⟩
    · cases member
    · have isEven := (even i).mp (by simp)
      exact ⟨i, by simp, by omega, by simp⟩

/-! ## The queue in both loops -/

/-- Of the jobs below `n`, all in `jp_arr` under their ids, the queue holds `ids`. -/
structure Stored (g : Globals) (n : Nat) (ids : List Nat) : Prop where
  queued : g.queue.Represents (ids.filterMap g.jpArr)
  numbered : ∀ i < n, ∃ a, g.jpArr i = some a ∧ g.queue.idOf a = some (i : Int)
  known : ∀ a, g.queue.Allocated a → ∃ i < n, g.jpArr i = some a
  below : ∀ i ∈ ids, i < n

/-- From head to tail the queue holds jobs with these ids. -/
def Globals.Holds (g : Globals) (ids : List Nat) : Prop :=
  ∃ l, g.queue.Represents l ∧ l.map g.queue.idOf = ids.map fun i => some (i : Int)

section Loops

variable {g : Globals} {n i : Nat} {ids : List Nat} {jp : Addr} {contents : Job}

theorem map_idOf (numbered : ∀ i < n, ∃ a, g.jpArr i = some a ∧ g.queue.idOf a = some (i : Int))
    (below : ∀ i ∈ ids, i < n) :
    (ids.filterMap g.jpArr).map g.queue.idOf = ids.map fun i => some (i : Int) := by
  induction ids with
  | nil => rfl
  | cons i ids ih =>
      rw [List.forall_mem_cons] at below
      obtain ⟨a, stands, id⟩ := numbered i below.1
      simp [stands, id, ih below.2]

theorem Stored.holds (stored : Stored g n ids) : g.Holds ids :=
  ⟨_, stored.queued, map_idOf stored.numbered stored.below⟩

/-- Another id in a record moves no link. -/
theorem represents_renumber {q : Queue} {l : List Addr} (represents : q.Represents l) (id : Int) :
    (q.modify jp fun j => { j with jId := id }).Represents l := by
  have links : ∀ a, (q.modify jp fun j => { j with jId := id }).next a = q.next a ∧
      (q.modify jp fun j => { j with jId := id }).prev a = q.prev a := by
    intro a
    by_cases same : a = jp
    · subst same
      cases found : q.jobs a <;> simp [Queue.next, Queue.prev, Queue.modify, found]
    · simp [Queue.next, Queue.prev, Queue.modify, Function.update_of_ne same]
  refine ⟨fun a member => Queue.allocated_modify.mpr (represents.allocated a member),
    represents.linked.nodup, ?_, ?_⟩
  · exact (seg_congr fun a _ => (links a).1).mpr represents.linked.forward
  · exact (seg_congr fun a _ => (links a).2).mpr represents.linked.backward

/-- The record of a new job: `malloc`, and `jp -> j_id = i`. -/
def Queue.withJob (q : Queue) (jp : Addr) (contents : Job) (i : Nat) : Queue :=
  Queue.modify { q with jobs := Function.update q.jobs jp (some contents) } jp
    fun j => { j with jId := i }

theorem Queue.allocated_withJob {q : Queue} {a : Addr} :
    (q.withJob jp contents i).Allocated a ↔ a = jp ∨ q.Allocated a := by
  rw [withJob, allocated_modify]
  by_cases same : a = jp
  · simp [Allocated, same]
  · simp [Allocated, same]

theorem Queue.idOf_withJob (q : Queue) (a : Addr) :
    (q.withJob jp contents i).idOf a = if a = jp then some (i : Int) else q.idOf a := by
  by_cases same : a = jp
  · simp [idOf, withJob, modify, same]
  · simp [idOf, withJob, modify, same]

theorem insertJob_eq (g : Globals) (i : Nat) (jp : Addr) (contents : Job) :
    insertJob g i (some (jp, contents)) =
      (if i % 2 ≠ 0 then jobInsert (g.queue.withJob jp contents i) jp
        else jobAppend (g.queue.withJob jp contents i) jp) >>= fun q =>
      pure ⟨q, Function.update g.jpArr i (some jp), g.out ++ [.printf "inserting\n"]⟩ := by
  have alloc : Queue.Allocated { g.queue with
      jobs := Function.update g.queue.jobs jp (some contents) } jp := by simp [Queue.Allocated]
  have malloc : g.queue.call (.malloc jp contents) =
      pure { g.queue with jobs := Function.update g.queue.jobs jp (some contents) } := rfl
  simp only [insertJob, Globals.print, malloc, pure_bind, Queue.store_ok alloc]
  split <;> rfl

/-- Where the new record goes. -/
theorem insert_becomes {q : Queue} (f : Nat → Option Addr)
    (represents : q.Represents ((order i).filterMap f)) (alloc : q.Allocated jp)
    (fresh : jp ∉ (order i).filterMap f) :
    ∃ q', (if i % 2 ≠ 0 then jobInsert q jp else jobAppend q jp) = .ok q' ∧
      q'.Represents ((order (i + 1)).filterMap (Function.update f i (some jp))) ∧
      (∀ a, q'.Allocated a ↔ q.Allocated a) ∧ q'.idOf = q.idOf := by
  have old : (order i).filterMap (Function.update f i (some jp)) = (order i).filterMap f := by
    apply List.filterMap_congr
    intro j member
    exact Function.update_of_ne (Nat.ne_of_lt (mem_order.mp member)) ..
  by_cases odd : i % 2 ≠ 0
  · obtain ⟨q', returns, represents', same⟩ := Queue.jobInsert_becomes represents alloc fresh
    refine ⟨q', (if_pos odd).trans returns, ?_, same, Queue.idOf_jobInsert returns⟩
    rw [order_succ_odd odd, List.filterMap_cons, Function.update_self, old]
    exact represents'
  · obtain ⟨q', returns, represents', same⟩ := Queue.jobAppend_becomes represents alloc fresh
    refine ⟨q', (if_neg odd).trans returns, ?_, same, Queue.idOf_jobAppend returns⟩
    rw [order_succ_even (by simpa using odd), List.filterMap_append, old]
    simpa using represents'

theorem Queue.allocated_of_idOf {q : Queue} {a : Addr} {id : Int} (numbered : q.idOf a = some id) :
    q.Allocated a := by
  obtain ⟨j, found, -⟩ := Option.map_eq_some_iff.mp numbered
  exact Option.isSome_iff_exists.mpr ⟨j, found⟩

/-- One iteration of the first loop, with a block that was not in use. -/
theorem Stored.insert (stored : Stored g i (order i)) (free : ¬ g.queue.Allocated jp) :
    ∃ g', insertJob g i (some (jp, contents)) = .ok g' ∧ Stored g' (i + 1) (order (i + 1)) ∧
      g'.jpArr = Function.update g.jpArr i (some jp) ∧
      ∀ a, g'.queue.Allocated a → a = jp ∨ g.queue.Allocated a := by
  have fresh : jp ∉ (order i).filterMap g.jpArr := fun member =>
    free (stored.queued.allocated jp member)
  have represents : (g.queue.withJob jp contents i).Represents ((order i).filterMap g.jpArr) :=
    represents_renumber (Queue.represents_malloc stored.queued fresh) i
  obtain ⟨q', returns, represents', same, ids⟩ :=
    insert_becomes g.jpArr represents (Queue.allocated_withJob.mpr (Or.inl rfl)) fresh
  have allocated : ∀ a, q'.Allocated a ↔ a = jp ∨ g.queue.Allocated a := fun a =>
    (same a).trans Queue.allocated_withJob
  refine ⟨⟨q', Function.update g.jpArr i (some jp), g.out ++ [.printf "inserting\n"]⟩, ?_, ?_,
    rfl, fun a => (allocated a).mp⟩
  · rw [insertJob_eq, returns]
    rfl
  · refine ⟨represents', fun j below => ?_, fun a alloc => ?_, fun j => mem_order.mp⟩
    · rcases Nat.lt_succ_iff_lt_or_eq.mp below with before | rfl
      · obtain ⟨a, stands, id⟩ := stored.numbered j before
        have apart : a ≠ jp := by
          rintro rfl
          exact free (Queue.allocated_of_idOf id)
        refine ⟨a, (Function.update_of_ne (Nat.ne_of_lt before) ..).trans stands, ?_⟩
        rw [ids, Queue.idOf_withJob, if_neg apart, id]
      · refine ⟨jp, Function.update_self .., ?_⟩
        rw [ids, Queue.idOf_withJob, if_pos rfl]
    · rcases (allocated a).mp alloc with rfl | old
      · exact ⟨i, Nat.lt_succ_self i, Function.update_self ..⟩
      · obtain ⟨j, before, stands⟩ := stored.known a old
        exact ⟨j, Nat.lt_succ_of_lt before,
          (Function.update_of_ne (Nat.ne_of_lt before) ..).trans stands⟩

/-- One iteration of the second loop. -/
theorem Stored.remove {k : Nat} (stored : Stored g n (window k n)) (more : k < n) :
    ∃ g', removeJob g k = .ok g' ∧ Stored g' n (window (k + 1) n) ∧ g'.jpArr = g.jpArr := by
  obtain ⟨front, back, split, rest⟩ := window_succ more
  obtain ⟨jp, stands, -⟩ := stored.numbered k more
  have represents := stored.queued
  rw [split, List.filterMap_append, List.filterMap_cons, stands] at represents
  obtain ⟨q', returns, represents', same⟩ := Queue.jobRemove_becomes represents
  refine ⟨{ g.print "deleting\n" with queue := q' }, ?_, ?_, rfl⟩
  · simp only [removeJob, Globals.print, stands, returns]
    rfl
  · refine ⟨?_, fun j below => ?_, fun a alloc => ?_, fun j member => (mem_window.mp member).2⟩
    · rw [rest, List.filterMap_append]
      exact represents'
    · rw [Queue.idOf_jobRemove returns]
      exact stored.numbered j below
    · exact stored.known a ((same a).mp alloc)

theorem stored_start (err : Int) (head tail : Option Addr) :
    Stored (Globals.start err head tail) 0 (order 0) where
  queued := (queueInit_refines err head tail).queued
  numbered := by simp
  known := by simp [Globals.start, queueInit, Queue.blank, Queue.Allocated]
  below := fun _ => mem_order.mp

end Loops

end UnixDemos.Pthread.JobQueue
