/-
# EpollDemo.ServerRegistration — who is registered for what

The interest set of the server is a function of the rest of its state
(`Server.expected`): the listening socket for `EPOLLIN`, every open client for the
event its next turn needs, and nothing else.  A client's turns alternate, so the
number of its turns decides between `EPOLLIN` and `EPOLLOUT`.

`Effect` lists what a step can do once that is known; `step_effect` shows it is
all, `Effect.registered` that each keeps the invariant.  A batch cannot go stale:
an event still to be handled has its registration, so its descriptor is open, so
`accept` does not return it, and no other event of the batch is for it.
-/
import UnixDemos.EpollDemo.Server

namespace UnixDemos.EpollServer

open UnixDemos.Library

set_option autoImplicit false

/-! ## Turns -/

def Turn.isRead : Turn → Bool
  | .read _ => true
  | .write _ => false

/-- Reads and writes take turns; `first` tells whether a read comes first. -/
def Alternates : Bool → List Turn → Prop
  | _, [] => True
  | first, t :: turns => t.isRead = first ∧ Alternates (!first) turns

theorem alternates_append (first : Bool) (turns : List Turn) (t : Turn) :
    Alternates first (turns ++ [t]) ↔
      Alternates first turns ∧ t.isRead = (if turns.length % 2 = 0 then first else !first) := by
  induction turns generalizing first with
  | nil => simp [Alternates]
  | cons u turns ih =>
      simp only [List.cons_append, Alternates, ih, List.length_cons, and_assoc]
      rcases Nat.mod_two_eq_zero_or_one turns.length with even | odd
      · simp [even, Nat.add_mod]
      · simp [odd, Nat.add_mod]

/-- The event a connection waits for after these turns. -/
def turnMask (turns : List Turn) : Mask := if turns.length % 2 = 0 then epollin else epollout

theorem turnMask_single (turns : List Turn) :
    turnMask turns = epollin ∨ turnMask turns = epollout := by
  unfold turnMask
  split
  · exact Or.inl rfl
  · exact Or.inr rfl

/-- A connection waiting for `EPOLLIN` may take a read, and then waits for
`EPOLLOUT`. -/
theorem turn_read {turns : List Turn} (alternate : Alternates true turns)
    (readable : turnMask turns = epollin) (data : Bytes) :
    Alternates true (turns ++ [.read data]) ∧ turnMask (turns ++ [.read data]) = epollout := by
  have even : turns.length % 2 = 0 := by
    unfold turnMask at readable
    split at readable
    · assumption
    · exact absurd readable (by decide)
  have odd : ¬ (turns ++ [Turn.read data]).length % 2 = 0 := by
    rw [List.length_append, List.length_singleton]
    omega
  refine ⟨(alternates_append true turns _).mpr ⟨alternate, ?_⟩, if_neg odd⟩
  rw [if_pos even]
  rfl

theorem turn_write {turns : List Turn} (alternate : Alternates true turns)
    (writable : turnMask turns = epollout) (sent : Option Bytes) :
    Alternates true (turns ++ [.write sent]) ∧ turnMask (turns ++ [.write sent]) = epollin := by
  have odd : ¬ turns.length % 2 = 0 := by
    intro even
    rw [turnMask, if_pos even] at writable
    exact absurd writable (by decide)
  have even : (turns ++ [Turn.write sent]).length % 2 = 0 := by
    rw [List.length_append, List.length_singleton]
    omega
  refine ⟨(alternates_append true turns _).mpr ⟨alternate, ?_⟩, if_pos even⟩
  rw [if_neg odd]
  rfl

@[simp] theorem trace_nil (c : Nat) : trace c [] = [] := rfl

@[simp] theorem trace_cons (c : Nat) (entry : Io) (log : List Io) :
    trace c (entry :: log) = (entry.turn c).toList ++ trace c log :=
  filterMap_cons_toList _ _ _

@[simp] theorem trace_append (c : Nat) (log entries : List Io) :
    trace c (log ++ entries) = trace c log ++ trace c entries := List.filterMap_append

/-! ## The invariant -/

section Invariant

variable {s s' : Server} {p : Pending} {rest : List Pending} {fd c : Nat}

/-- The registration a descriptor should have. -/
def Server.expected (s : Server) (fd : Nat) : Option Mask :=
  match s.fds.file fd with
  | some .listening => some epollin
  | some (.client c) => some (turnMask (trace c s.log))
  | _ => none

structure Registered (s : Server) : Prop where
  listening : ∀ fd, s.fds.file fd = some .listening ↔ fd = s.listenfd
  interest : ∀ fd, s.interest fd = s.expected fd
  unique : ∀ fd fd' c, s.fds.file fd = some (.client c) → s.fds.file fd' = some (.client c) →
    fd = fd'
  known : ∀ fd c, s.fds.file fd = some (.client c) → c < s.accepted
  fresh : ∀ c, s.accepted ≤ c → trace c s.log = []
  alternate : ∀ c, Alternates true (trace c s.log)
  nodup : (s.pending.map fun p => p.event.fd).Nodup
  current : ∀ p ∈ s.pending,
    p.origin = s.fds.file p.event.fd ∧ s.interest p.event.fd = some p.event.events

theorem expected_listening (here : s.fds.file fd = some .listening) :
    s.expected fd = some epollin := by
  simp [Server.expected, here]

theorem expected_client (here : s.fds.file fd = some (.client c)) :
    s.expected fd = some (turnMask (trace c s.log)) := by
  simp [Server.expected, here]

theorem expected_free (here : s.fds.file fd = none) : s.expected fd = none := by
  simp [Server.expected, here]

/-- What is registered is the listening socket or a client. -/
theorem Registered.names (reg : Registered s) {mask : Mask}
    (registered : s.interest fd = some mask) :
    (fd = s.listenfd ∧ mask = epollin) ∨
      ∃ c, s.fds.file fd = some (.client c) ∧ mask = turnMask (trace c s.log) := by
  rw [reg.interest] at registered
  unfold Server.expected at registered
  split at registered
  · rename_i here
    exact Or.inl ⟨(reg.listening fd).mp here, (Option.some.inj registered).symm⟩
  · rename_i c here
    exact Or.inr ⟨c, here, (Option.some.inj registered).symm⟩
  · cases registered

theorem Registered.interest_client (reg : Registered s) (here : s.fds.file fd = some (.client c)) :
    s.interest fd = some (turnMask (trace c s.log)) := by
  rw [reg.interest, expected_client here]

theorem Registered.interest_free (reg : Registered s) : s.interest s.fds.lowestFree = none := by
  rw [reg.interest, expected_free FdTable.file_lowestFree]

/-- The event a connection reads or writes at is the only one for it in the
batch. -/
theorem Registered.tail (reg : Registered s) (head : s.pending = p :: rest) :
    (rest.map fun p => p.event.fd).Nodup ∧ ∀ q ∈ rest, q ∈ s.pending ∧ q.event.fd ≠ p.event.fd := by
  have nodup := reg.nodup
  rw [head, List.map_cons, List.nodup_cons] at nodup
  refine ⟨nodup.2, fun q member => ⟨head ▸ List.mem_cons_of_mem p member, fun same => ?_⟩⟩
  exact nodup.1 (same ▸ List.mem_map_of_mem member)

/-! ## What a step can do -/

/-- The steps of a server whose registrations are as expected. -/
inductive Effect (s : Server) : Label → Server → Prop where
  | waitFailed (idle : s.pending = []) :
      Effect s (.epollWait none)
        { s with log := s.log ++ [.perror "epoll wait error"], exited := true }
  | waited {ready : List EpollEvent} (idle : s.pending = [])
      (reportable : Reportable s.interest epollEvents ready) :
      Effect s (.epollWait (some ready))
        { s with pending := ready.map fun e => ⟨e, s.fds.file e.fd⟩ }
  | acceptFailed {p : Pending} {rest : List Pending} (head : s.pending = p :: rest) :
      Effect s (.handle (.accept false))
        { s with pending := rest, log := s.log ++ [.perror "accept error"] }
  | accepted {p : Pending} {rest : List Pending} (head : s.pending = p :: rest) :
      Effect s (.handle (.accept true))
        { s with
          pending := rest
          fds := s.fds.install (.client s.accepted)
          interest := Function.update s.interest s.fds.lowestFree (some epollin)
          accepted := s.accepted + 1
          log := s.log ++ [.accepted s.accepted] }
  | ended {p : Pending} {rest : List Pending} {c : Nat} {result : Option Bytes} {message : Io}
      (beyond : Bytes) (head : s.pending = p :: rest)
      (client : s.fds.file p.event.fd = some (.client c))
      (readable : turnMask (trace c s.log) = epollin)
      (shown : (result = none ∧ message = .perror "read error") ∨
        (result = some [] ∧ message = .fprintf "client close.\n")) :
      Effect s (.handle (.read result beyond))
        { s with
          pending := rest
          fds := s.fds.close p.event.fd
          interest := Function.update s.interest p.event.fd none
          log := s.log ++ [message] }
  | read {p : Pending} {rest : List Pending} {c : Nat} {data : Bytes} (beyond : Bytes)
      (head : s.pending = p :: rest) (client : s.fds.file p.event.fd = some (.client c))
      (readable : turnMask (trace c s.log) = epollin) (nonempty : data ≠ [])
      (fits : data.length ≤ maxSize) :
      Effect s (.handle (.read (some data) beyond))
        { s with
          pending := rest
          buf := overwrite s.buf data
          interest := Function.update s.interest p.event.fd (some epollout)
          log := s.log ++ [.received c data, .scanned (decide (0 ∈ overwrite s.buf data)),
            .printf "read message: %s" (cstr (overwrite s.buf data ++ beyond))] }
  | writeFailed {p : Pending} {rest : List Pending} {c : Nat} (beyond : Bytes)
      (head : s.pending = p :: rest) (client : s.fds.file p.event.fd = some (.client c))
      (writable : turnMask (trace c s.log) = epollout) :
      Effect s (.handle (.write none beyond))
        { s with
          pending := rest
          buf := zeros maxSize
          fds := s.fds.close p.event.fd
          interest := Function.update s.interest p.event.fd none
          log := s.log ++ [.scanned (decide (0 ∈ s.buf)), .sendFailed (some (.client c)),
            .perror "write error"] }
  | wrote {p : Pending} {rest : List Pending} {c nwrite : Nat} (beyond : Bytes)
      (head : s.pending = p :: rest) (client : s.fds.file p.event.fd = some (.client c))
      (writable : turnMask (trace c s.log) = epollout)
      (most : nwrite ≤ (s.text beyond).length) :
      Effect s (.handle (.write (some nwrite) beyond))
        { s with
          pending := rest
          buf := zeros maxSize
          interest := Function.update s.interest p.event.fd (some epollin)
          log := s.log ++ [.scanned (decide (0 ∈ s.buf)), .sent c ((s.text beyond).take nwrite)] }

/-- The delete after a close finds the descriptor closed. -/
theorem deleteEvent_close (s : Server) (fd : Nat) (mask : Mask) :
    deleteEvent (s.close fd) fd mask = s.close fd := by
  have closed : (s.close fd).isOpen fd = false := by simp [Server.isOpen, Server.close]
  unfold deleteEvent
  rw [closed, epollCtl_unable]

theorem handleAccept_effect (reg : Registered s) (head : s.pending = p :: rest) {answer : Answer}
    (step : handleAccept { s with pending := rest } answer = some s') :
    Effect s (.handle answer) s' := by
  cases answer with
  | accept ok =>
      cases ok with
      | false =>
          cases step
          exact .acceptFailed head
      | true =>
          have opened : (s.fds.install (.client s.accepted)).file s.fds.lowestFree =
              some (.client s.accepted) := FdTable.file_install_self _
          simp only [handleAccept, addEvent, Server.note, Server.isOpen, opened, Option.isSome_some,
            epollCtl_add reg.interest_free, Nat.add_sub_cancel] at step
          cases step
          exact .accepted head
  | read result beyond => cases step
  | write result beyond => cases step

theorem doRead_effect (reg : Registered s) (head : s.pending = p :: rest)
    (client : s.fds.file p.event.fd = some (.client c))
    (readable : turnMask (trace c s.log) = epollin) {answer : Answer}
    (step : doRead { s with pending := rest } p.event.fd answer = some s') :
    Effect s (.handle answer) s' := by
  cases answer with
  | accept ok => cases step
  | write result beyond => cases step
  | read result beyond =>
      cases result with
      | none =>
          simp only [doRead, deleteEvent_close] at step
          cases step
          exact .ended beyond head client readable (Or.inl ⟨rfl, rfl⟩)
      | some data =>
          simp only [doRead, client] at step
          split at step
          · rename_i fits
            split at step
            · rename_i empty
              obtain rfl := List.eq_nil_of_length_eq_zero empty
              rw [deleteEvent_close] at step
              cases step
              exact .ended beyond head client readable (Or.inr ⟨rfl, rfl⟩)
            · rename_i nonempty
              have registered := reg.interest_client client
              simp only [modifyEvent, Server.note, Server.scan, Server.isOpen, Server.text, client,
                Option.isSome_some, epollCtl_mod registered, List.append_assoc, List.cons_append,
                List.nil_append] at step
              cases step
              exact .read beyond head client readable (fun empty => nonempty (by simp [empty])) fits
          · cases step

theorem doWrite_effect (reg : Registered s) (head : s.pending = p :: rest)
    (client : s.fds.file p.event.fd = some (.client c))
    (writable : turnMask (trace c s.log) = epollout) {answer : Answer}
    (step : doWrite { s with pending := rest } p.event.fd answer = some s') :
    Effect s (.handle answer) s' := by
  cases answer with
  | accept ok => cases step
  | read result beyond => cases step
  | write result beyond =>
      cases result with
      | none =>
          simp only [doWrite, deleteEvent_close] at step
          simp only [Server.note, Server.scan, Server.close, Server.memset, client,
            List.append_assoc, List.cons_append, List.nil_append] at step
          cases step
          exact .writeFailed beyond head client writable
      | some nwrite =>
          simp only [doWrite, client] at step
          split at step
          · rename_i most
            have registered := reg.interest_client client
            simp only [modifyEvent, Server.note, Server.scan, Server.isOpen, Server.memset, client,
              Option.isSome_some, epollCtl_mod registered, List.append_assoc, List.cons_append,
              List.nil_append] at step
            cases step
            exact .wrote beyond head client writable most
          · cases step

theorem step_effect (reg : Registered s) {label : Label} (step : s.step label = some s') :
    Effect s label s' := by
  cases label with
  | epollWait ready =>
      simp only [Server.step] at step
      split at step
      · rename_i waits
        cases ready with
        | none =>
            cases step
            exact .waitFailed waits.2
        | some ready =>
            simp only at step
            split at step
            · rename_i reportable
              cases step
              exact .waited waits.2 reportable
            · cases step
      · cases step
  | handle answer =>
      simp only [Server.step] at step
      cases head : s.pending with
      | nil => simp [head] at step
      | cons p rest =>
          simp only [head, handleEvent] at step
          have registered := (reg.current p (head ▸ List.mem_cons_self)).2
          rcases reg.names registered with ⟨listens, mask⟩ | ⟨c, client, mask⟩
          · rw [mask, if_pos ⟨listens, by decide⟩] at step
            exact handleAccept_effect reg head step
          · have notListening : p.event.fd ≠ s.listenfd := by
              intro same
              have := (reg.listening _).mpr same
              rw [client] at this
              cases this
            rw [if_neg (fun both => notListening both.1)] at step
            rcases turnMask_single (trace c s.log) with readable | writable
            · rw [mask, readable, if_pos (by decide)] at step
              exact doRead_effect reg head client readable step
            · rw [mask, writable, if_neg (by decide), if_pos (by decide)] at step
              exact doWrite_effect reg head client writable step

/-! ## Every step keeps the invariant -/

/-- A step that only logs or drops the head of the batch. -/
theorem Registered.same (reg : Registered s) (listenfd : s'.listenfd = s.listenfd)
    (fds : s'.fds = s.fds) (interest : s'.interest = s.interest)
    (accepted : s'.accepted = s.accepted) (log : ∀ c, trace c s'.log = trace c s.log)
    (nodup : (s'.pending.map fun p => p.event.fd).Nodup)
    (pending : ∀ p ∈ s'.pending,
      p.origin = s.fds.file p.event.fd ∧ s.interest p.event.fd = some p.event.events) :
    Registered s' where
  listening := by
    rw [fds, listenfd]
    exact reg.listening
  interest := by
    intro fd
    rw [interest, reg.interest]
    unfold Server.expected
    simp only [fds, log]
  unique := by
    rw [fds]
    exact reg.unique
  known := by
    rw [fds, accepted]
    exact reg.known
  fresh := by
    intro c
    rw [log, accepted]
    exact reg.fresh c
  alternate := by
    intro c
    rw [log]
    exact reg.alternate c
  nodup := nodup
  current := by
    rw [fds, interest]
    exact pending

/-- A step that takes a turn of the client at the head of the batch, or closes
it, or both. -/
theorem Registered.turn (turns : List Turn) (reg : Registered s) (head : s.pending = p :: rest)
    (client : s.fds.file p.event.fd = some (.client c))
    (listenfd : s'.listenfd = s.listenfd) (accepted : s'.accepted = s.accepted)
    (pending : s'.pending = rest)
    (log : ∀ c', trace c' s'.log = trace c' s.log ++ if c = c' then turns else [])
    (alternate : Alternates true (trace c s.log ++ turns))
    (files : ∀ fd, fd ≠ p.event.fd → s'.fds.file fd = s.fds.file fd)
    (interests : ∀ fd, fd ≠ p.event.fd → s'.interest fd = s.interest fd)
    (here : s'.fds.file p.event.fd = none ∨ s'.fds.file p.event.fd = some (.client c))
    (mask : s'.interest p.event.fd =
      (s'.fds.file p.event.fd).map fun _ => turnMask (trace c s.log ++ turns)) : Registered s' where
  listening := by
    intro fd
    rw [listenfd, ← reg.listening]
    by_cases same : fd = p.event.fd
    · rw [same, client]
      rcases here with closed | stays
      · simp [closed]
      · simp [stays]
    · rw [files fd same]
  interest := by
    intro fd
    by_cases same : fd = p.event.fd
    · rw [same, mask]
      rcases here with closed | stays
      · rw [closed, expected_free closed, Option.map_none]
      · rw [stays, expected_client stays, log, if_pos rfl, Option.map_some]
    · rw [interests fd same, reg.interest]
      unfold Server.expected
      rw [files fd same]
      split
      · rfl
      · -- another descriptor is another connection, whose turns are as before
        rename_i c' other
        have ne : c ≠ c' := fun eq => same (reg.unique _ _ _ other (eq ▸ client))
        rw [log, if_neg ne, List.append_nil]
      · rfl
  unique := by
    have kept : ∀ fd c, s'.fds.file fd = some (.client c) → s.fds.file fd = some (.client c) := by
      intro fd c' there
      by_cases same : fd = p.event.fd
      · rw [same] at there ⊢
        rcases here with closed | stays
        · rw [closed] at there
          cases there
        · rw [client, ← stays, there]
      · rw [← files fd same, there]
    exact fun fd fd' c' there there' => reg.unique fd fd' c' (kept fd c' there) (kept fd' c' there')
  known := by
    intro fd c' there
    rw [accepted]
    by_cases same : fd = p.event.fd
    · rw [same] at there
      rcases here with closed | stays
      · rw [closed] at there
        cases there
      · rw [stays] at there
        cases there
        exact reg.known _ c client
    · exact reg.known fd c' (files fd same ▸ there)
  fresh := by
    intro c' late
    have ne : c ≠ c' := by
      have := reg.known _ c client
      omega
    rw [log, if_neg ne, List.append_nil]
    exact reg.fresh c' (accepted ▸ late)
  alternate := by
    intro c'
    rw [log]
    by_cases same : c = c'
    · rw [if_pos same, ← same]
      exact alternate
    · rw [if_neg same, List.append_nil]
      exact reg.alternate c'
  nodup := pending ▸ (reg.tail head).1
  current := by
    rw [pending]
    intro q member
    obtain ⟨inBatch, other⟩ := (reg.tail head).2 q member
    rw [files _ other, interests _ other]
    exact reg.current q inBatch

theorem Registered.waited {ready : List EpollEvent} (reg : Registered s)
    (reportable : Reportable s.interest epollEvents ready) :
    Registered { s with pending := ready.map fun e => ⟨e, s.fds.file e.fd⟩ } := by
  refine reg.same rfl rfl rfl rfl (fun _ => rfl) ?_ ?_
  · simpa [Function.comp_def] using reportable.2.1
  · intro p member
    obtain ⟨e, reported, rfl⟩ := List.mem_map.mp member
    refine ⟨rfl, ?_⟩
    obtain ⟨mask, registered, within⟩ := registered_of_reported (reportable.2.2 e reported)
    have single : mask = epollin ∨ mask = epollout := by
      rcases reg.names registered with ⟨-, mask⟩ | ⟨c, -, mask⟩
      · exact Or.inl mask
      · exact mask ▸ turnMask_single _
    rw [registered, events_eq_of_single single (reportable.2.2 e reported).1 within]

/-- The number `accept` returns was free, so it is in nobody's way. -/
theorem Registered.accepted (reg : Registered s) (head : s.pending = p :: rest) :
    Registered { s with
      pending := rest
      fds := s.fds.install (.client s.accepted)
      interest := Function.update s.interest s.fds.lowestFree (some epollin)
      accepted := s.accepted + 1
      log := s.log ++ [.accepted s.accepted] } := by
  have free := FdTable.file_lowestFree (t := s.fds)
  have opened := FdTable.file_install_self (t := s.fds) (File.client s.accepted)
  have silent : ∀ c, trace c (s.log ++ [.accepted s.accepted]) = trace c s.log := by
    intro c
    simp [Io.turn]
  have names : ∀ fd c, (s.fds.install (.client s.accepted)).file fd = some (.client c) →
      (fd = s.fds.lowestFree ∧ c = s.accepted) ∨ s.fds.file fd = some (.client c) := by
    intro fd c there
    by_cases same : fd = s.fds.lowestFree
    · rw [same, opened] at there
      cases there
      exact Or.inl ⟨same, rfl⟩
    · exact Or.inr (FdTable.file_install_of_ne _ same ▸ there)
  constructor
  · intro fd
    show (s.fds.install (.client s.accepted)).file fd = some .listening ↔ fd = s.listenfd
    rw [← reg.listening]
    by_cases same : fd = s.fds.lowestFree
    · rw [same, opened, free]
      simp
    · rw [FdTable.file_install_of_ne _ same]
  · intro fd
    unfold Server.expected
    by_cases same : fd = s.fds.lowestFree
    · simp only [same, opened, Function.update_self, silent, reg.fresh s.accepted (Nat.le_refl _)]
      rfl
    · simp only [FdTable.file_install_of_ne _ same, Function.update_of_ne same, silent]
      exact reg.interest fd
  · intro fd fd' c there there'
    rcases names fd c there with ⟨new, rfl⟩ | old
    · rcases names fd' s.accepted there' with ⟨new', -⟩ | old'
      · rw [new, new']
      · exact absurd (reg.known _ _ old') (Nat.lt_irrefl _)
    · rcases names fd' c there' with ⟨-, rfl⟩ | old'
      · exact absurd (reg.known _ _ old) (Nat.lt_irrefl _)
      · exact reg.unique fd fd' c old old'
  · intro fd c there
    show c < s.accepted + 1
    rcases names fd c there with ⟨-, rfl⟩ | old
    · exact Nat.lt_succ_self _
    · exact Nat.lt_succ_of_lt (reg.known fd c old)
  · intro c late
    show trace c (s.log ++ [.accepted s.accepted]) = []
    rw [silent]
    exact reg.fresh c (Nat.le_of_succ_le late)
  · intro c
    show Alternates true (trace c (s.log ++ [.accepted s.accepted]))
    rw [silent]
    exact reg.alternate c
  · exact (reg.tail head).1
  · intro q member
    obtain ⟨origin, registered⟩ := reg.current q ((reg.tail head).2 q member).1
    have other : q.event.fd ≠ s.fds.lowestFree := by
      intro same
      rw [same, reg.interest_free] at registered
      cases registered
    simp only [FdTable.file_install_of_ne _ other, Function.update_of_ne other]
    exact ⟨origin, registered⟩

/-- Every step keeps the registrations as expected. -/
theorem Effect.registered (reg : Registered s) {label : Label} (effect : Effect s label s') :
    Registered s' := by
  cases effect with
  | waitFailed idle =>
      exact reg.same rfl rfl rfl rfl (fun c => by simp [Io.turn]) reg.nodup reg.current
  | waited idle reportable => exact reg.waited reportable
  | acceptFailed head =>
      exact reg.same rfl rfl rfl rfl (fun c => by simp [Io.turn]) (reg.tail head).1
        fun q member => reg.current q ((reg.tail head).2 q member).1
  | accepted head => exact reg.accepted head
  | @ended p rest c _ message beyond head client readable shown =>
      have silent : ∀ c, trace c [message] = [] := by
        intro c
        rcases shown with ⟨-, rfl⟩ | ⟨-, rfl⟩ <;> rfl
      refine reg.turn [] head client rfl rfl rfl (fun c' => by simp [silent]) ?_
        (fun fd other => FdTable.file_close_of_ne other)
        (fun fd other => Function.update_of_ne other _ _) (Or.inl (FdTable.file_close_self _)) ?_
      · rw [List.append_nil]
        exact reg.alternate c
      · simp
  | @read p rest c data beyond head client readable nonempty fits =>
      obtain ⟨alternate, next⟩ := turn_read (reg.alternate c) readable data
      refine reg.turn [.read data] head client rfl rfl rfl ?_ alternate (fun fd _ => rfl)
        (fun fd other => Function.update_of_ne other _ _) (Or.inr client) ?_
      · intro c'
        by_cases same : c = c' <;> simp [Io.turn, same]
      · simp [client, next]
  | @writeFailed p rest c beyond head client writable =>
      obtain ⟨alternate, -⟩ := turn_write (reg.alternate c) writable none
      refine reg.turn [.write none] head client rfl rfl rfl ?_ alternate
        (fun fd other => FdTable.file_close_of_ne other)
        (fun fd other => Function.update_of_ne other _ _) (Or.inl (FdTable.file_close_self _)) ?_
      · intro c'
        by_cases same : c = c' <;> simp [Io.turn, same]
      · simp
  | @wrote p rest c nwrite beyond head client writable most =>
      obtain ⟨alternate, next⟩ :=
        turn_write (reg.alternate c) writable (some ((s.text beyond).take nwrite))
      refine reg.turn [.write (some ((s.text beyond).take nwrite))] head client rfl rfl rfl ?_
        alternate (fun fd _ => rfl) (fun fd other => Function.update_of_ne other _ _)
        (Or.inr client) ?_
      · intro c'
        by_cases same : c = c' <;> simp [Io.turn, same]
      · simp [client, next]

theorem start_files (inherited : List Bool) (fd : Nat) :
    ((start inherited).fds.file fd = some .listening ∧ fd = (start inherited).listenfd) ∨
      (fd ≠ (start inherited).listenfd ∧ ∀ file, (start inherited).fds.file fd = some file →
        file = .inherited ∨ file = .epoll) := by
  let table : FdTable File := inherited.map fun isOpen => if isOpen then some .inherited else none
  show (((table.install .listening).install .epoll).file fd = some .listening ∧
      fd = table.lowestFree) ∨ (fd ≠ table.lowestFree ∧
        ∀ file, ((table.install .listening).install .epoll).file fd = some file →
          file = .inherited ∨ file = .epoll)
  have listens := FdTable.file_install_self (t := table) File.listening
  have unused := FdTable.file_lowestFree (t := table.install .listening)
  have apart : (table.install .listening).lowestFree ≠ table.lowestFree := by
    intro same
    rw [same, listens] at unused
    cases unused
  by_cases here : fd = table.lowestFree
  · left
    rw [here, FdTable.file_install_of_ne _ (Ne.symm apart)]
    exact ⟨listens, rfl⟩
  · refine Or.inr ⟨here, fun file there => ?_⟩
    by_cases epolls : fd = (table.install .listening).lowestFree
    · rw [epolls, FdTable.file_install_self] at there
      exact Or.inr (Option.some.inj there).symm
    · rw [FdTable.file_install_of_ne _ epolls, FdTable.file_install_of_ne _ here] at there
      left
      simp only [FdTable.file, table, List.getElem?_map] at there
      cases isOpen : inherited[fd]? with
      | none => simp [isOpen] at there
      | some b => cases b <;> simp [isOpen] at there; exact there.symm

theorem start_noClient (inherited : List Bool) (fd c : Nat) :
    (start inherited).fds.file fd ≠ some (.client c) := by
  intro there
  rcases start_files inherited fd with ⟨listens, -⟩ | ⟨-, others⟩
  · rw [listens] at there
    cases there
  · rcases others _ there with impossible | impossible <;> cases impossible

theorem start_registered (inherited : List Bool) : Registered (start inherited) := by
  have files := start_files inherited
  have noClient := start_noClient inherited
  have registered : (start inherited).interest =
      Function.update (fun _ => none) (start inherited).listenfd (some epollin) := by
    have isOpen : ((start inherited).fds.file (start inherited).listenfd).isSome = true := by
      rcases files (start inherited).listenfd with ⟨listens, -⟩ | ⟨elsewhere, -⟩
      · rw [listens]
        rfl
      · exact absurd rfl elsewhere
    show epollCtl ((start inherited).fds.file (start inherited).listenfd).isSome (fun _ => none)
      .add (start inherited).listenfd epollin = _
    rw [isOpen]
    exact epollCtl_add rfl epollin
  constructor
  · intro fd
    rcases files fd with ⟨listens, here⟩ | ⟨elsewhere, others⟩
    · exact ⟨fun _ => here, fun _ => listens⟩
    · refine ⟨fun listens => ?_, fun here => absurd here elsewhere⟩
      rcases others _ listens with impossible | impossible <;> cases impossible
  · intro fd
    rcases files fd with ⟨listens, here⟩ | ⟨elsewhere, others⟩
    · rw [expected_listening listens, registered, here, Function.update_self]
    · rw [registered, Function.update_of_ne elsewhere]
      unfold Server.expected
      split
      · rename_i listens
        rcases others _ listens with impossible | impossible <;> cases impossible
      · rename_i c there
        exact absurd there (noClient fd c)
      · rfl
  · exact fun fd fd' c there => absurd there (noClient fd c)
  · exact fun fd c there => absurd there (noClient fd c)
  · exact fun c _ => rfl
  · exact fun c => trivial
  · exact List.nodup_nil
  · intro p member
    cases member

theorem run_registered {inherited : List Bool} {labels : List Label}
    (reached : run Server.step (start inherited) labels = some s) : Registered s :=
  run_invariant Server.step Registered
    (fun _ _ _ reg step => (step_effect reg step).registered reg)
    (start_registered inherited) reached

/-- **The registrations are exact in every reachable state**, whatever the kernel
answers: the interest set is the listening socket and the open clients, each for
one event; reads and writes of a connection alternate, a read first; and every
event of the batch that is still to be handled concerns the open file it was
reported for. -/
theorem registrations_exact {inherited : List Bool} {labels : List Label}
    (reached : run Server.step (start inherited) labels = some s) :
    (∀ fd, s.interest fd ≠ none ↔ fd = s.listenfd ∨ ∃ c, s.fds.file fd = some (.client c)) ∧
      s.fds.file s.listenfd = some .listening ∧ s.interest s.listenfd = some epollin ∧
      (∀ fd c, s.fds.file fd = some (.client c) →
        s.interest fd = some epollin ∨ s.interest fd = some epollout) ∧
      (∀ c, Alternates true (trace c s.log)) ∧
      ∀ p ∈ s.pending, s.fds.file p.event.fd = p.origin ∧
        (p.origin = some .listening ∨ ∃ c, p.origin = some (.client c)) ∧
        s.interest p.event.fd = some p.event.events := by
  have reg := run_registered reached
  have listens : s.fds.file s.listenfd = some .listening := (reg.listening _).mpr rfl
  refine ⟨fun fd => ⟨fun registered => ?_, ?_⟩, listens, ?_, fun fd c there => ?_,
    reg.alternate, fun p member => ?_⟩
  · obtain ⟨mask, registered⟩ := Option.ne_none_iff_exists'.mp registered
    rcases reg.names registered with ⟨here, -⟩ | ⟨c, there, -⟩
    · exact Or.inl here
    · exact Or.inr ⟨c, there⟩
  · rintro (rfl | ⟨c, there⟩)
    · rw [reg.interest, expected_listening listens]
      exact Option.some_ne_none _
    · rw [reg.interest_client there]
      exact Option.some_ne_none _
  · rw [reg.interest, expected_listening listens]
  · rw [reg.interest_client there]
    exact (turnMask_single _).imp (congrArg some) (congrArg some)
  · obtain ⟨origin, registered⟩ := reg.current p member
    refine ⟨origin.symm, ?_, registered⟩
    rw [origin]
    rcases reg.names registered with ⟨here, -⟩ | ⟨c, there, -⟩
    · exact Or.inl ((reg.listening _).mpr here)
    · exact Or.inr ⟨c, there⟩

end Invariant

/-- One batch closes the first connection and accepts the second under its
number. -/
def reusedNumber : List Label :=
  [.epollWait (some [⟨3, epollin⟩]), .handle (.accept true),
    .epollWait (some [⟨5, epollin⟩, ⟨3, epollin⟩]), .handle (.read (some []) []),
    .handle (.accept true), .epollWait (some [⟨5, epollin⟩]),
    .handle (.read (some [104, 105]) []), .epollWait (some [⟨5, epollout⟩])]

theorem registrations_exact_reused_number :
    ∃ s, run Server.step (start [true, true, true]) reusedNumber = some s ∧
      s.fds.file 5 = some (.client 1) ∧ s.interest 5 = some epollout ∧
      Alternates true (trace 1 s.log) ∧
      ∀ p ∈ s.pending, s.fds.file p.event.fd = p.origin := by
  have observed : (run Server.step (start [true, true, true]) reusedNumber).map
      (fun s => (s.fds.file 5, s.interest 5)) = some (some (.client 1), some epollout) := by
    decide +kernel
  obtain ⟨s, reached, shape⟩ := Option.map_eq_some_iff.mp observed
  simp only [Prod.mk.injEq] at shape
  obtain ⟨-, -, -, -, alternate, current⟩ := registrations_exact reached
  exact ⟨s, reached, shape.1, shape.2, alternate 1, fun p member => (current p member).1⟩

end UnixDemos.EpollServer
