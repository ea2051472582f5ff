/-
# EpollDemo.ClientModes — the client, one chunk at a time

In order, one chunk at a time, the client is in one of four modes (`Mode`), and
`InMode` says what its state is in each.  A step that is in order (`InOrder`) moves
from mode to mode, so every chunk is copied as it was read.  Out of order nothing
holds the client to the modes: standard input stays registered, and a chunk
read from it while another is on its way lands in the same buffer.
-/
import UnixDemos.EpollDemo.Client

namespace UnixDemos.EpollClient

open UnixDemos.Library

set_option autoImplicit false

/-! ## Conditions on a step -/

/-- Chunks are NUL-free and shorter than `buf`. -/
def Plain (_ : Client) : Label → Prop
  | .handle (.read (some data) _) => NulFree data ∧ data.length < maxSize
  | _ => True

/-- Standard input is read only when neither the socket nor standard output is
registered, what a read registers can be registered, and every write is complete. -/
def InOrder (sock : Socket) (s : Client) : Label → Prop
  | .handle (.read _ added) => added = true ∧
      ((s.pending.head?.map EpollEvent.fd) = some stdin →
        s.interest sock.fd = none ∧ s.interest stdout = none)
  | .handle (.write result beyond) => result = some (s.text beyond).length
  | _ => True

instance (s : Client) : (label : Label) → Decidable (Plain s label)
  | .epollWait _ => isTrue trivial
  | .handle (.read none _) => isTrue trivial
  | .handle (.read (some _) _) => inferInstanceAs (Decidable (_ ∧ _))
  | .handle (.write _ _) => isTrue trivial

instance (sock : Socket) (s : Client) : (label : Label) → Decidable (InOrder sock s label)
  | .epollWait _ => isTrue trivial
  | .handle (.read _ _) => inferInstanceAs (Decidable (_ ∧ (_ → _)))
  | .handle (.write _ _) => inferInstanceAs (Decidable (_ = _))

/-! ## The four modes -/

/-- Where the one chunk is: nowhere, on its way to the socket, at the server, or
on its way to standard output. -/
inductive Mode where
  | idle
  | sending (chunk : Bytes)
  | awaiting
  | printing (chunk : Bytes)

def stdinOnly : InterestSet := Function.update (fun _ => none) stdin (some epollin)

/-- What is registered in a mode. -/
def Mode.interest (sock : Socket) : Mode → InterestSet
  | .idle => stdinOnly
  | .sending _ => Function.update stdinOnly sock.fd (some epollout)
  | .awaiting => Function.update stdinOnly sock.fd (some epollin)
  | .printing _ => Function.update stdinOnly stdout (some epollout)

/-- The chunk in the buffer. -/
def Mode.held : Mode → Bytes
  | .sending chunk => chunk
  | .printing chunk => chunk
  | _ => []

/-- The modes with a chunk in the buffer. -/
def Mode.busy : Mode → Bool
  | .sending _ => true
  | .printing _ => true
  | _ => false

/-- The chunk still to be written to the socket. -/
def Mode.request : Mode → List Bytes
  | .sending chunk => [chunk]
  | _ => []

/-- The chunk still to be written to standard output. -/
def Mode.reply : Mode → List Bytes
  | .printing chunk => [chunk]
  | _ => []

structure InMode (sock : Socket) (s : Client) (mode : Mode) : Prop where
  interest : s.interest = mode.interest sock
  buf : s.buf = overwrite (zeros maxSize) mode.held
  nulFree : NulFree mode.held
  short : mode.held.length < maxSize
  requests : readsFrom stdin s.log = writesTo sock.fd s.log ++ mode.request
  replies : readsFrom sock.fd s.log = writesTo stdout s.log ++ mode.reply
  nodup : (s.pending.map EpollEvent.fd).Nodup
  current : s.exited = false → ∀ e ∈ s.pending, s.interest e.fd = some e.events
  exited : s.exited = true → mode.busy = false

section Modes

variable {sock : Socket} {s s' : Client} {mode next : Mode} {e : EpollEvent}
  {rest : List EpollEvent} {chunk : Bytes}

theorem stdinOnly_sock (sock : Socket) : stdinOnly sock.fd = none := by
  have := sock.opened
  exact Function.update_of_ne (by unfold stdin; omega) _ _

theorem stdinOnly_stdout : stdinOnly stdout = none := by decide

theorem sock_ne_stdin (sock : Socket) : sock.fd ≠ stdin := by
  have := sock.opened
  unfold stdin
  omega

theorem sock_ne_stdout (sock : Socket) : sock.fd ≠ stdout := by
  have := sock.opened
  unfold stdout
  omega

/-- Standard input is registered in every mode. -/
theorem Mode.interest_stdin (sock : Socket) (mode : Mode) :
    mode.interest sock stdin = some epollin := by
  have only : stdinOnly stdin = some epollin := Function.update_self ..
  cases mode with
  | idle => exact only
  | sending chunk => exact (Function.update_of_ne (sock_ne_stdin sock).symm _ _).trans only
  | awaiting => exact (Function.update_of_ne (sock_ne_stdin sock).symm _ _).trans only
  | printing chunk => exact (Function.update_of_ne (by decide) _ _).trans only

theorem registered_stdinOnly {fd : Nat} {mask : Mask} (registered : stdinOnly fd = some mask) :
    fd = stdin ∧ mask = epollin := by
  by_cases same : fd = stdin
  · rw [same, stdinOnly, Function.update_self] at registered
    exact ⟨same, (Option.some.inj registered).symm⟩
  · rw [stdinOnly, Function.update_of_ne same] at registered
    cases registered

/-- What is registered when one descriptor is beside standard input. -/
theorem registered_update {other fd : Nat} {new mask : Mask}
    (registered : Function.update stdinOnly other (some new) fd = some mask) :
    (fd = stdin ∧ mask = epollin) ∨ (fd = other ∧ mask = new) := by
  by_cases same : fd = other
  · rw [same, Function.update_self] at registered
    exact Or.inr ⟨same, (Option.some.inj registered).symm⟩
  · rw [Function.update_of_ne same] at registered
    exact Or.inl (registered_stdinOnly registered)

/-- What is registered beside standard input belongs to the mode. -/
theorem Mode.registered {fd : Nat} {mask : Mask} (registered : mode.interest sock fd = some mask) :
    (fd = stdin ∧ mask = epollin) ∨
      (fd = sock.fd ∧ ((∃ chunk, mode = .sending chunk ∧ mask = epollout) ∨
        (mode = .awaiting ∧ mask = epollin))) ∨
      (fd = stdout ∧ ∃ chunk, mode = .printing chunk ∧ mask = epollout) := by
  cases mode with
  | idle => exact Or.inl (registered_stdinOnly registered)
  | sending chunk =>
      rcases registered_update registered with isStdin | ⟨same, mask⟩
      · exact Or.inl isStdin
      · exact Or.inr (Or.inl ⟨same, Or.inl ⟨chunk, rfl, mask⟩⟩)
  | awaiting =>
      rcases registered_update registered with isStdin | ⟨same, mask⟩
      · exact Or.inl isStdin
      · exact Or.inr (Or.inl ⟨same, Or.inr ⟨rfl, mask⟩⟩)
  | printing chunk =>
      rcases registered_update registered with isStdin | ⟨same, mask⟩
      · exact Or.inl isStdin
      · exact Or.inr (Or.inr ⟨same, chunk, rfl, mask⟩)

theorem Mode.held_eq_nil (empty : mode.busy = false) : mode.held = [] := by
  cases mode with
  | idle => rfl
  | awaiting => rfl
  | sending chunk => cases empty
  | printing chunk => cases empty

theorem Mode.single {fd : Nat} {mask : Mask} (registered : mode.interest sock fd = some mask) :
    mask = epollin ∨ mask = epollout := by
  rcases Mode.registered registered with ⟨-, mask⟩ | ⟨-, ⟨_, -, mask⟩ | ⟨-, mask⟩⟩ | ⟨-, _, -, mask⟩
  · exact Or.inl mask
  · exact Or.inr mask
  · exact Or.inl mask
  · exact Or.inr mask

/-- Beside standard input a mode registers one descriptor at most. -/
theorem Mode.other_is_stdin {fd fd' : Nat} {mask mask' : Mask}
    (registered : mode.interest sock fd = some mask) (notStdin : fd ≠ stdin) (other : fd' ≠ fd)
    (registered' : mode.interest sock fd' = some mask') : fd' = stdin := by
  have single : ∀ (beside : Nat) (new : Mask),
      mode.interest sock = Function.update stdinOnly beside (some new) → fd' = stdin := by
    intro beside new same
    rw [same] at registered registered'
    rcases registered_update registered' with ⟨isStdin, -⟩ | ⟨here, -⟩
    · exact isStdin
    · rcases registered_update registered with ⟨isStdin, -⟩ | ⟨there, -⟩
      · exact absurd isStdin notStdin
      · exact absurd (here.trans there.symm) other
  cases mode with
  | idle => exact (registered_stdinOnly registered').1
  | sending chunk => exact single _ _ rfl
  | awaiting => exact single _ _ rfl
  | printing chunk => exact single _ _ rfl

/-- Only the idle mode registers neither the socket nor standard output. -/
theorem Mode.eq_idle (sockFree : mode.interest sock sock.fd = none)
    (stdoutFree : mode.interest sock stdout = none) : mode = .idle := by
  cases mode with
  | idle => rfl
  | sending chunk =>
      rw [Mode.interest, Function.update_self] at sockFree
      cases sockFree
  | awaiting =>
      rw [Mode.interest, Function.update_self] at sockFree
      cases sockFree
  | printing chunk =>
      rw [Mode.interest, Function.update_self] at stdoutFree
      cases stdoutFree

/-! ## From mode to mode -/

theorem idle_to_sending (chunk : Bytes) :
    epollCtl true (Mode.idle.interest sock) .add sock.fd epollout =
      (Mode.sending chunk).interest sock :=
  epollCtl_add (stdinOnly_sock sock) epollout

theorem sending_to_awaiting :
    epollCtl true ((Mode.sending chunk).interest sock) .mod sock.fd epollin =
      Mode.awaiting.interest sock := by
  rw [Mode.interest, epollCtl_mod (Function.update_self ..)]
  exact Function.update_idem ..

theorem awaiting_deleted :
    epollCtl true (Mode.awaiting.interest sock) .del sock.fd epollin = stdinOnly := by
  rw [Mode.interest, epollCtl_del (Function.update_self ..), Function.update_idem,
    Function.update_eq_self_iff, stdinOnly_sock]

theorem awaiting_to_printing (chunk : Bytes) :
    epollCtl true (epollCtl true (Mode.awaiting.interest sock) .del sock.fd epollin) .add stdout
      epollout = (Mode.printing chunk).interest sock := by
  rw [awaiting_deleted]
  exact epollCtl_add stdinOnly_stdout epollout

theorem printing_to_idle :
    epollCtl true ((Mode.printing chunk).interest sock) .del stdout epollout =
      Mode.idle.interest sock := by
  show epollCtl true (Function.update stdinOnly stdout (some epollout)) .del stdout epollout =
    stdinOnly
  rw [epollCtl_del (Function.update_self ..), Function.update_idem]
  exact Function.update_eq_self_iff.mpr stdinOnly_stdout.symm

/-! ## The batch -/

/-- The registrations are those of the mode, and the events still to be handled are for
them. -/
structure InBatch (sock : Socket) (s : Client) (mode : Mode) : Prop where
  interest : s.interest = mode.interest sock
  nodup : (s.pending.map EpollEvent.fd).Nodup
  current : s.exited = false → ∀ e ∈ s.pending, s.interest e.fd = some e.events

theorem InMode.batch (here : InMode sock s mode) : InBatch sock s mode :=
  ⟨here.interest, here.nodup, here.current⟩

/-- The rest of the batch is for other descriptors than its head. -/
theorem InBatch.tail (batch : InBatch sock s mode) (head : s.pending = e :: rest) :
    (rest.map EpollEvent.fd).Nodup ∧ ∀ q ∈ rest, q ∈ s.pending ∧ q.fd ≠ e.fd := by
  have nodup := batch.nodup
  rw [head, List.map_cons, List.nodup_cons] at nodup
  refine ⟨nodup.2, fun q member => ⟨head ▸ List.mem_cons_of_mem e member, ?_⟩⟩
  intro same
  exact nodup.1 (same ▸ List.mem_map_of_mem member)

/-- The head of the batch is handled, and what else is registered is standard input. -/
theorem InBatch.move (batch : InBatch sock s mode) (running : s.exited = false)
    (head : s.pending = e :: rest)
    (others : ∀ fd mask, fd ≠ e.fd → mode.interest sock fd = some mask → fd = stdin)
    (pending : s'.pending = rest) (interest : s'.interest = next.interest sock) :
    InBatch sock s' next where
  interest := interest
  nodup := pending ▸ (batch.tail head).1
  current := by
    intro _ q member
    rw [pending] at member
    obtain ⟨inBatch, other⟩ := (batch.tail head).2 q member
    have registered := batch.current running q inBatch
    rw [batch.interest] at registered
    have isStdin := others _ _ other registered
    rw [interest, isStdin, Mode.interest_stdin]
    rw [isStdin, Mode.interest_stdin] at registered
    exact registered

theorem InBatch.exit (batch : InBatch sock s mode) (head : s.pending = e :: rest)
    (pending : s'.pending = rest) (interest : s'.interest = s.interest)
    (exited : s'.exited = true) : InBatch sock s' mode where
  interest := interest.trans batch.interest
  nodup := pending ▸ (batch.tail head).1
  current := by
    intro running
    rw [exited] at running
    cases running

theorem Mode.sending_sock (sock : Socket) (chunk : Bytes) :
    (Mode.sending chunk).interest sock sock.fd = some epollout := Function.update_self ..

theorem Mode.awaiting_sock (sock : Socket) : Mode.awaiting.interest sock sock.fd = some epollin :=
  Function.update_self ..

theorem Mode.printing_stdout (sock : Socket) (chunk : Bytes) :
    (Mode.printing chunk).interest sock stdout = some epollout := by
  rw [Mode.interest, Function.update_self]

theorem InBatch.moveSending (batch : InBatch sock s .idle) (running : s.exited = false)
    (head : s.pending = e :: rest) (pending : s'.pending = rest)
    (interest : s'.interest = epollCtl true s.interest .add sock.fd epollout) (chunk : Bytes) :
    InBatch sock s' (.sending chunk) := by
  refine batch.move running head (fun fd mask _ registered => ?_) pending ?_
  · exact (registered_stdinOnly registered).1
  · rw [interest, batch.interest, idle_to_sending chunk]

theorem InBatch.moveAwaiting (batch : InBatch sock s (.sending chunk)) (running : s.exited = false)
    (head : s.pending = e :: rest) (isSock : e.fd = sock.fd) (pending : s'.pending = rest)
    (interest : s'.interest = epollCtl true s.interest .mod sock.fd epollin) :
    InBatch sock s' .awaiting := by
  refine batch.move running head (fun _ _ => ?_) pending ?_
  · exact Mode.other_is_stdin (isSock ▸ Mode.sending_sock sock chunk)
      (isSock ▸ sock_ne_stdin sock)
  · rw [interest, batch.interest, sending_to_awaiting]

theorem InBatch.movePrinting (batch : InBatch sock s .awaiting) (running : s.exited = false)
    (head : s.pending = e :: rest) (isSock : e.fd = sock.fd) (pending : s'.pending = rest)
    (interest : s'.interest =
      epollCtl true (epollCtl true s.interest .del sock.fd epollin) .add stdout epollout)
    (chunk : Bytes) : InBatch sock s' (.printing chunk) := by
  refine batch.move running head (fun _ _ => ?_) pending ?_
  · exact Mode.other_is_stdin (isSock ▸ Mode.awaiting_sock sock) (isSock ▸ sock_ne_stdin sock)
  · rw [interest, batch.interest, awaiting_to_printing chunk]

theorem InBatch.moveIdle (batch : InBatch sock s (.printing chunk)) (running : s.exited = false)
    (head : s.pending = e :: rest) (isStdout : e.fd = stdout) (pending : s'.pending = rest)
    (interest : s'.interest = epollCtl true s.interest .del stdout epollout) :
    InBatch sock s' .idle := by
  refine batch.move running head (fun _ _ => ?_) pending ?_
  · exact Mode.other_is_stdin (isStdout ▸ Mode.printing_stdout sock chunk) (isStdout ▸ by decide)
  · rw [interest, batch.interest, printing_to_idle]

/-- A step in a mode: `epoll_wait`, or the handler for the head of the batch. -/
theorem InBatch.step (batch : InBatch sock s mode) {label : Label}
    (step : s.step sock label = some s') :
    (∃ ready, label = .epollWait ready ∧ InBatch sock s' mode ∧
      ∃ pending, s' = { s with pending := pending }) ∨
    ∃ answer e rest, label = .handle answer ∧ s.exited = false ∧ s.pending = e :: rest ∧
      ((e.fd = stdin ∧ ReadEffect sock { s with pending := rest } e.fd answer s') ∨
        (e.fd = sock.fd ∧ ∃ chunk, mode = .sending chunk ∧
          WriteEffect { s with pending := rest } e.fd answer s') ∨
        (e.fd = sock.fd ∧ mode = .awaiting ∧
          ReadEffect sock { s with pending := rest } e.fd answer s') ∨
        (e.fd = stdout ∧ ∃ chunk, mode = .printing chunk ∧
          WriteEffect { s with pending := rest } e.fd answer s')) := by
  cases label with
  | epollWait ready =>
      refine Or.inl ⟨ready, rfl, ?_⟩
      simp only [Client.step] at step
      split at step
      · cases ready with
        | none =>
            cases step
            exact ⟨batch, s.pending, rfl⟩
        | some ready =>
            simp only at step
            split at step
            · rename_i reportable
              cases step
              refine ⟨{ batch with nodup := reportable.2.1, current := fun _ e member => ?_ },
                ready, rfl⟩
              obtain ⟨mask, registered, within⟩ := registered_of_reported (reportable.2.2 e member)
              have single := Mode.single (batch.interest ▸ registered)
              rw [registered, events_eq_of_single single (reportable.2.2 e member).1 within]
            · cases step
      · cases step
  | handle answer =>
      simp only [Client.step] at step
      split at step
      · rename_i running
        cases head : s.pending with
        | nil => simp [head] at step
        | cons e rest =>
            simp only [head] at step
            have registered := batch.current running e (head ▸ List.mem_cons_self)
            rw [batch.interest] at registered
            refine Or.inr ⟨answer, e, rest, rfl, running, rfl, ?_⟩
            unfold handleEvent at step
            rcases Mode.registered registered with ⟨isStdin, mask⟩ |
              ⟨isSock, ⟨chunk, rfl, mask⟩ | ⟨rfl, mask⟩⟩ | ⟨isStdout, chunk, rfl, mask⟩
            · rw [mask, if_pos (by decide)] at step
              exact Or.inl ⟨isStdin, doRead_effect step⟩
            · rw [mask, if_neg (by decide), if_pos (by decide)] at step
              exact Or.inr (Or.inl ⟨isSock, chunk, rfl, doWrite_effect step⟩)
            · rw [mask, if_pos (by decide)] at step
              exact Or.inr (Or.inr (Or.inl ⟨isSock, rfl, doRead_effect step⟩))
            · rw [mask, if_neg (by decide), if_pos (by decide)] at step
              exact Or.inr (Or.inr (Or.inr ⟨isStdout, chunk, rfl, doWrite_effect step⟩))
      · cases step

/-! ## Chunks in order -/

/-- A step that handles the head of the batch and leaves in place what else is
registered. -/
theorem InMode.move (batch : InBatch sock s' next)
    (buf : s'.buf = overwrite (zeros maxSize) next.held) (nulFree : NulFree next.held)
    (short : next.held.length < maxSize)
    (requests : readsFrom stdin s'.log = writesTo sock.fd s'.log ++ next.request)
    (replies : readsFrom sock.fd s'.log = writesTo stdout s'.log ++ next.reply)
    (exited : s'.exited = true → next.busy = false) : InMode sock s' next :=
  ⟨batch.interest, buf, nulFree, short, requests, replies, batch.nodup, batch.current, exited⟩

/-- An exit that leaves nothing behind in the buffer. -/
theorem InMode.exit (here : InMode sock s mode) (empty : mode.busy = false)
    (head : s.pending = e :: rest) {entry : Io} (notRead : ∀ fd, entry.readAt fd = none)
    (notWrote : ∀ fd, entry.wroteTo fd = none) :
    InMode sock { s with pending := rest, log := s.log ++ [entry], exited := true } mode := by
  refine .move (here.batch.exit head rfl rfl rfl) here.buf here.nulFree here.short ?_ ?_
    fun _ => empty
  · simp [notRead, notWrote, here.requests]
  · simp [notRead, notWrote, here.replies]

/-- What a read in an empty mode can do: end the client, or bring a chunk. -/
theorem InMode.read (here : InMode sock s mode) (empty : mode.busy = false)
    (head : s.pending = e :: rest) {answer : Answer}
    (effect : ReadEffect sock { s with pending := rest } e.fd answer s')
    (plain : Plain s (.handle answer)) (inOrder : InOrder sock s (.handle answer)) :
    InMode sock s' mode ∨ ∃ data, NulFree data ∧ data.length < maxSize ∧
      s'.pending = rest ∧ s'.exited = s.exited ∧ s'.log = s.log ++ [.read e.fd data] ∧
      s'.buf = overwrite (zeros maxSize) data ∧
      s'.interest =
        if e.fd = stdin then epollCtl true s.interest .add sock.fd epollout
        else
          epollCtl true (epollCtl true s.interest .del sock.fd epollin) .add stdout epollout := by
  cases effect with
  | failed added => exact Or.inl (here.exit empty head (fun _ => rfl) fun _ => rfl)
  | ended added => exact Or.inl (here.exit empty head (fun _ => rfl) fun _ => rfl)
  | @chunk data added some_bytes fits =>
      obtain rfl : added = true := inOrder.1
      have buf : overwrite s.buf data = overwrite (zeros maxSize) data := by
        rw [here.buf, Mode.held_eq_nil empty]
        rfl
      exact Or.inr ⟨data, plain.1, plain.2, rfl, rfl, rfl, buf, rfl⟩

/-- A complete write of the chunk in the buffer. -/
theorem InMode.write (here : InMode sock s mode) {answer : Answer}
    (effect : WriteEffect { s with pending := rest } e.fd answer s')
    (inOrder : InOrder sock s (.handle answer)) :
    s'.pending = rest ∧ s'.exited = s.exited ∧ s'.buf = zeros maxSize ∧
      (∃ terminated, s'.log = s.log ++ [.scanned terminated, .wrote e.fd mode.held]) ∧
      s'.interest =
        if e.fd = stdout then epollCtl true s.interest .del e.fd epollout
        else epollCtl true s.interest .mod e.fd epollin := by
  cases effect with
  | failed beyond => cases inOrder
  | @wrote nwrite beyond most =>
      have text : s.text beyond = mode.held := by
        unfold Client.text
        rw [here.buf]
        exact cstr_overwrite_zeros here.nulFree here.short beyond
      have complete : nwrite = (s.text beyond).length := Option.some.inj inOrder
      have whole : (s.text beyond).take nwrite = mode.held := by
        rw [complete, List.take_length, text]
      refine ⟨rfl, rfl, rfl, ⟨decide (0 ∈ s.buf), ?_⟩, rfl⟩
      rw [← whole]
      rfl

theorem InMode.readStdin (here : InMode sock s .idle) (running : s.exited = false)
    (head : s.pending = e :: rest) (isStdin : e.fd = stdin) {answer : Answer}
    (effect : ReadEffect sock { s with pending := rest } e.fd answer s')
    (plain : Plain s (.handle answer)) (inOrder : InOrder sock s (.handle answer)) :
    ∃ next, InMode sock s' next := by
  rcases here.read rfl head effect plain inOrder with
    ended | ⟨data, nulFree, short, pending, exited, log, buf, interest⟩
  · exact ⟨_, ended⟩
  · rw [if_pos isStdin] at interest
    have batch := here.batch.moveSending running head pending interest data
    refine ⟨.sending data, .move batch buf nulFree short ?_ ?_ ?_⟩
    · rw [log]
      simp [Io.readAt, Io.wroteTo, here.requests, isStdin, Mode.request]
    · rw [log]
      simp [Io.readAt, Io.wroteTo, here.replies, isStdin, Mode.reply, (sock_ne_stdin sock).symm]
    · intro ended
      rw [exited, running] at ended
      cases ended

theorem InMode.readSock (here : InMode sock s .awaiting) (running : s.exited = false)
    (head : s.pending = e :: rest) (isSock : e.fd = sock.fd) {answer : Answer}
    (effect : ReadEffect sock { s with pending := rest } e.fd answer s')
    (plain : Plain s (.handle answer)) (inOrder : InOrder sock s (.handle answer)) :
    ∃ next, InMode sock s' next := by
  have notStdin : e.fd ≠ stdin := isSock ▸ sock_ne_stdin sock
  rcases here.read rfl head effect plain inOrder with
    ended | ⟨data, nulFree, short, pending, exited, log, buf, interest⟩
  · exact ⟨_, ended⟩
  · rw [if_neg notStdin] at interest
    have batch := here.batch.movePrinting running head isSock pending interest data
    refine ⟨.printing data, .move batch buf nulFree short ?_ ?_ ?_⟩
    · rw [log]
      simp [Io.readAt, Io.wroteTo, here.requests, isSock, Mode.request, sock_ne_stdin]
    · rw [log]
      simp [Io.readAt, Io.wroteTo, here.replies, isSock, Mode.reply]
    · intro ended
      rw [exited, running] at ended
      cases ended

theorem InMode.writeSock {chunk : Bytes} (here : InMode sock s (.sending chunk))
    (running : s.exited = false) (head : s.pending = e :: rest) (isSock : e.fd = sock.fd)
    {answer : Answer} (effect : WriteEffect { s with pending := rest } e.fd answer s')
    (inOrder : InOrder sock s (.handle answer)) : InMode sock s' .awaiting := by
  have notStdout : e.fd ≠ stdout := isSock ▸ sock_ne_stdout sock
  obtain ⟨pending, exited, buf, ⟨_, log⟩, interest⟩ := here.write effect inOrder
  rw [if_neg notStdout, isSock] at interest
  have batch := here.batch.moveAwaiting running head isSock pending interest
  refine .move batch buf List.not_mem_nil (by decide) ?_ ?_ fun _ => rfl
  · rw [log]
    simp [Io.readAt, Io.wroteTo, here.requests, isSock, Mode.request, Mode.held]
  · rw [log]
    simp [Io.readAt, Io.wroteTo, here.replies, isSock, Mode.reply, sock_ne_stdout]

theorem InMode.writeStdout {chunk : Bytes} (here : InMode sock s (.printing chunk))
    (running : s.exited = false) (head : s.pending = e :: rest) (isStdout : e.fd = stdout)
    {answer : Answer} (effect : WriteEffect { s with pending := rest } e.fd answer s')
    (inOrder : InOrder sock s (.handle answer)) : InMode sock s' .idle := by
  obtain ⟨pending, exited, buf, ⟨_, log⟩, interest⟩ := here.write effect inOrder
  rw [if_pos isStdout, isStdout] at interest
  have batch := here.batch.moveIdle running head isStdout pending interest
  refine .move batch buf List.not_mem_nil (by decide) ?_ ?_ fun _ => rfl
  · rw [log]
    simp [Io.readAt, Io.wroteTo, here.requests, isStdout, Mode.request,
      (sock_ne_stdout sock).symm]
  · rw [log]
    simp [Io.readAt, Io.wroteTo, here.replies, isStdout, Mode.reply, Mode.held]

/-- A step in order leads from a mode to a mode. -/
theorem InMode.step (here : InMode sock s mode) {label : Label} (plain : Plain s label)
    (inOrder : InOrder sock s label) (step : s.step sock label = some s') :
    ∃ next, InMode sock s' next := by
  rcases here.batch.step step with ⟨ready, rfl, batch, pending, rfl⟩ |
    ⟨answer, e, rest, rfl, running, head, handled⟩
  · exact ⟨mode, { here with nodup := batch.nodup, current := batch.current }⟩
  · rcases handled with ⟨isStdin, effect⟩ | ⟨isSock, chunk, rfl, effect⟩ |
      ⟨isSock, rfl, effect⟩ | ⟨isStdout, chunk, rfl, effect⟩
    · have idle : mode = .idle := by
        have registered : s.interest sock.fd = none ∧ s.interest stdout = none := by
          cases effect with
          | failed added => exact inOrder.2 (by simp [head, isStdin])
          | ended added => exact inOrder.2 (by simp [head, isStdin])
          | chunk added some_bytes fits => exact inOrder.2 (by simp [head, isStdin])
        rw [here.interest] at registered
        exact Mode.eq_idle registered.1 registered.2
      subst idle
      exact here.readStdin running head isStdin effect plain inOrder
    · exact ⟨_, here.writeSock running head isSock effect inOrder⟩
    · exact here.readSock running head isSock effect plain inOrder
    · exact ⟨_, here.writeStdout running head isStdout effect inOrder⟩

/-- A client in a mode holds back at most the chunk of that mode. -/
theorem InMode.copied (here : InMode sock s mode) :
    Copied s stdin sock.fd ∧ Copied s sock.fd stdout := by
  have running : mode.busy = true → s.exited = false := by
    intro busy
    cases exited : s.exited with
    | false => rfl
    | true =>
        rw [here.exited exited] at busy
        cases busy
  have requests := here.requests
  have replies := here.replies
  have interest := here.interest
  cases mode with
  | idle =>
      exact ⟨Or.inl (requests.trans (List.append_nil _)),
        Or.inl (replies.trans (List.append_nil _))⟩
  | awaiting =>
      exact ⟨Or.inl (requests.trans (List.append_nil _)),
        Or.inl (replies.trans (List.append_nil _))⟩
  | sending chunk =>
      refine ⟨Or.inr ⟨chunk, requests, ?_, running rfl⟩, Or.inl (replies.trans (List.append_nil _))⟩
      rw [interest, Mode.interest, Function.update_self]
  | printing chunk =>
      refine ⟨Or.inl (requests.trans (List.append_nil _)), Or.inr ⟨chunk, replies, ?_, running rfl⟩⟩
      rw [interest, Mode.interest, Function.update_self]

theorem start_idle (sock : Socket) : InMode sock (start (zeros maxSize)) .idle where
  interest := by
    show epollCtl true (fun _ => none) .add stdin epollin = stdinOnly
    exact epollCtl_add rfl epollin
  buf := rfl
  nulFree := List.not_mem_nil
  short := by decide
  requests := rfl
  replies := rfl
  nodup := List.nodup_nil
  current := by
    intro _ e member
    cases member
  exited := fun _ => rfl

/-! ## Results -/

/-- **In order, the client copies**: when standard input is read only while nothing
else is registered, no registration fails, and writes are complete, every chunk from
standard input reaches the socket and every chunk from the socket reaches standard output, once,
unmodified and in order. -/
theorem copied_when_inOrder {labels : List Label}
    (plain : Along (Client.step sock) Plain (start (zeros maxSize)) labels)
    (inOrder : Along (Client.step sock) (InOrder sock) (start (zeros maxSize)) labels)
    (reached : run (Client.step sock) (start (zeros maxSize)) labels = some s) :
    Copied s stdin sock.fd ∧ Copied s sock.fd stdout := by
  obtain ⟨mode, here⟩ := run_along (Client.step sock) (fun s => ∃ mode, InMode sock s mode)
    (fun s label s' inv guards step => inv.elim fun _ here => here.step guards.1 guards.2 step)
    ⟨.idle, start_idle sock⟩ (along_and (Client.step sock) plain inOrder) reached
  exact here.copied

end Modes

/-- Descriptor 3, the usual number. -/
def usual : Socket := ⟨3, by decide⟩

/-- A line to the server, its echo to standard output, and end of file. -/
def roundTrip : List Label :=
  [.epollWait (some [⟨stdin, epollin⟩]), .handle (.read (some [104, 105]) true),
    .epollWait (some [⟨3, epollout⟩]), .handle (.write (some 2) []),
    .epollWait (some [⟨3, epollin⟩]), .handle (.read (some [104, 105]) true),
    .epollWait (some [⟨stdout, epollout⟩, ⟨stdin, epollin⟩]), .handle (.write (some 2) []),
    .handle (.read (some []) true)]

theorem copied_when_inOrder_round_trip :
    ∃ s, run (Client.step usual) (start (zeros maxSize)) roundTrip = some s ∧ s.exited = true ∧
      writesTo stdout s.log = [[104, 105]] ∧ Copied s stdin usual.fd ∧
      Copied s usual.fd stdout := by
  have observed : (run (Client.step usual) (start (zeros maxSize)) roundTrip).map
      (fun s => (s.exited, writesTo stdout s.log)) = some (true, [[104, 105]]) := by
    decide +kernel
  obtain ⟨s, reached, shape⟩ := Option.map_eq_some_iff.mp observed
  simp only [Prod.mk.injEq] at shape
  exact ⟨s, reached, shape.1, shape.2,
    copied_when_inOrder (by decide +kernel) (by decide +kernel) reached⟩

/-- Two lines typed before the socket is writable. -/
def typedAhead : List Label :=
  [.epollWait (some [⟨stdin, epollin⟩]), .handle (.read (some [97, 97, 10]) true),
    .epollWait (some [⟨stdin, epollin⟩]), .handle (.read (some [98, 10]) true),
    .epollWait (some [⟨3, epollout⟩]), .handle (.write (some 3) [])]

/-- The socket gets the second line over the first, once. -/
theorem typed_ahead_garbled :
    ¬ ∀ (sock : Socket) (labels : List Label) (s : Client),
      Along (Client.step sock) Plain (start (zeros maxSize)) labels →
      run (Client.step sock) (start (zeros maxSize)) labels = some s →
      Copied s stdin sock.fd ∧ Copied s sock.fd stdout := by
  intro copied
  have observed : (run (Client.step usual) (start (zeros maxSize)) typedAhead).map
      (fun s => (readsFrom stdin s.log, writesTo usual.fd s.log)) =
        some ([[97, 97, 10], [98, 10]], [[98, 10, 10]]) := by
    decide +kernel
  obtain ⟨s, reached, shape⟩ := Option.map_eq_some_iff.mp observed
  simp only [Prod.mk.injEq] at shape
  have plain : Along (Client.step usual) Plain (start (zeros maxSize)) typedAhead := by
    decide +kernel
  rcases (copied usual typedAhead s plain reached).1 with same | ⟨chunk, ahead, -⟩
  · rw [shape.1, shape.2] at same
    cases same
  · rw [shape.1, shape.2] at ahead
    cases ahead

end UnixDemos.EpollClient
