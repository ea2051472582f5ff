/-
# EpollDemo.ClientLockstep — one message at a time, from any buffer

Each message is typed when the reply to the one before it has been printed.  The client
then goes through its four modes once per message, and `memset` after the write to the
socket and after the write to standard output leaves zeros for the next one.

The first message finds what the buffer happened to hold.  `do_write` sends everything
up to the first NUL, so behind the message it sends what stands there, and nothing
exactly if that is a NUL.  `Spoiled` is the relation between messages and writes that
results; replies are arbitrary bytes.

A registration that fails ends the rounds: the message is never sent, or its reply never
printed, so that no further message is typed (`Stuck`).
-/
import UnixDemos.EpollDemo.ClientModes

namespace UnixDemos.EpollClient

open UnixDemos.Library

set_option autoImplicit false

/-! ## Conditions on a step -/

/-- What is read from standard input is a NUL-free message that leaves room for a NUL, and
is typed when as many replies have been printed as messages were read. -/
def Lockstep (s : Client) : Label → Prop
  | .handle (.read (some data) _) =>
      s.pending.head?.map EpollEvent.fd = some stdin → data ≠ [] →
        (readsFrom stdin s.log).length = (writesTo stdout s.log).length ∧
          NulFree data ∧ data.length < maxSize
  | _ => True

/-- A write to the socket takes all it is given. -/
def Complete (sock : Socket) (s : Client) : Label → Prop
  | .handle (.write (some nwrite) beyond) =>
      s.pending.head?.map EpollEvent.fd = some sock.fd → nwrite = (s.text beyond).length
  | _ => True

instance (s : Client) : (label : Label) → Decidable (Lockstep s label)
  | .epollWait _ => isTrue trivial
  | .handle (.read none _) => isTrue trivial
  | .handle (.read (some _) _) => inferInstanceAs (Decidable (_ → _))
  | .handle (.write _ _) => isTrue trivial

instance (sock : Socket) (s : Client) : (label : Label) → Decidable (Complete sock s label)
  | .epollWait _ => isTrue trivial
  | .handle (.read _ _) => isTrue trivial
  | .handle (.write none _) => isTrue trivial
  | .handle (.write (some _) _) => inferInstanceAs (Decidable (_ → _))

/-! ## What is sent -/

/-- What was written for the messages `sent` when the buffer was `buf` at first: the first
with a tail, which is empty exactly if a NUL stood behind the message. -/
def Spoiled (buf : Bytes) : List Bytes → List Bytes → Prop
  | [], writes => writes = []
  | first :: later, writes =>
      ∃ tail, writes = (first ++ tail) :: later ∧ (tail = [] ↔ buf[first.length]? = some 0)

/-- The buffer before a message is read into it. -/
def before (sock : Socket) (buf : Bytes) (log : List Io) : Bytes :=
  if writesTo sock.fd log = [] then buf else zeros maxSize

/-- Messages read and not answered. -/
def Mode.unanswered : Mode → Nat
  | .idle => 0
  | _ => 1

structure Round (sock : Socket) (buf : Bytes) (s : Client) (mode : Mode) : Prop where
  batch : InBatch sock s mode
  idle : mode = .idle → s.buf = before sock buf s.log
  sending : ∀ chunk, mode = .sending chunk → NulFree chunk ∧ chunk.length < maxSize ∧
    s.buf = overwrite (before sock buf s.log) chunk
  requests : ∃ sent, readsFrom stdin s.log = sent ++ mode.request ∧
    Spoiled buf sent (writesTo sock.fd s.log)
  counts : (readsFrom stdin s.log).length = (writesTo stdout s.log).length + mode.unanswered
  after : ∀ data, s.log.getLast? = some (.wrote stdout data) →
    mode = .idle ∧ writesTo sock.fd s.log ≠ []

/-- Only standard input is registered, and a message is not answered. -/
structure Stuck (sock : Socket) (buf : Bytes) (s : Client) : Prop where
  batch : InBatch sock s .idle
  requests : ∃ sent later, readsFrom stdin s.log = sent ++ later ∧
    Spoiled buf sent (writesTo sock.fd s.log)
  counts : (readsFrom stdin s.log).length = (writesTo stdout s.log).length + 1
  last : ∀ data, s.log.getLast? ≠ some (.wrote stdout data)

section Lockstep

variable {sock : Socket} {buf : Bytes} {s s' : Client} {mode : Mode} {e : EpollEvent}
  {rest : List EpollEvent} {chunk : Bytes}

theorem Mode.eq_idle_of_unanswered (none_open : mode.unanswered = 0) : mode = .idle := by
  cases mode with
  | idle => rfl
  | sending chunk => cases none_open
  | awaiting => cases none_open
  | printing chunk => cases none_open

/-- What `do_write` sends of a message that was read over `base`. -/
theorem text_overwrite {base beyond : Bytes} (nulFree : NulFree chunk)
    (short : chunk.length < base.length) :
    ∃ tail, cstr (overwrite base chunk ++ beyond) = chunk ++ tail ∧
      (tail = [] ↔ base[chunk.length]? = some 0) := by
  have split : base.drop chunk.length =
      base.get ⟨chunk.length, short⟩ :: base.drop (chunk.length + 1) :=
    List.drop_eq_getElem_cons short
  refine ⟨cstr (base.drop chunk.length ++ beyond), ?_, ?_⟩
  · rw [overwrite, List.append_assoc, cstr_append nulFree]
  · rw [split, List.cons_append, cstr_cons_eq_nil, List.getElem?_eq_getElem short,
      Option.some.injEq]
    rfl

theorem Spoiled.snoc {sent writes : List Bytes} {tail : Bytes} (spoiled : Spoiled buf sent writes)
    (clean : tail = [] ↔
      (if writes = [] then buf else zeros maxSize)[chunk.length]? = some 0)
    (short : chunk.length < maxSize) :
    Spoiled buf (sent ++ [chunk]) (writes ++ [chunk ++ tail]) := by
  cases sent with
  | nil =>
      obtain rfl : writes = [] := spoiled
      exact ⟨tail, rfl, by simpa using clean⟩
  | cons first later =>
      obtain ⟨t, rfl, iff⟩ := spoiled
      have empty : tail = [] := by
        rw [clean, if_neg (by simp)]
        exact List.getElem?_replicate_of_lt short
      exact ⟨t, by simp [empty], iff⟩

theorem Spoiled.writes_ne_nil {sent writes : List Bytes} (spoiled : Spoiled buf sent writes)
    (some_sent : sent ≠ []) : writes ≠ [] := by
  cases sent with
  | nil => exact absurd rfl some_sent
  | cons first later =>
      obtain ⟨t, rfl, -⟩ := spoiled
      exact List.cons_ne_nil _ _

/-! ## From mode to mode -/

/-- Neither a read nor a write. -/
def Io.quiet : Io → Bool
  | .read _ _ => false
  | .wrote _ _ => false
  | _ => true

theorem Io.quiet_none {entry : Io} (quiet : entry.quiet = true) (fd : Nat) :
    entry.readAt fd = none ∧ entry.wroteTo fd = none := by
  cases entry <;> first | exact ⟨rfl, rfl⟩ | cases quiet

/-- Such entries change nothing of what was read and written. -/
theorem quiet_append {log entries : List Io} (quiet : ∀ entry ∈ entries, entry.quiet = true)
    (fd : Nat) :
    readsFrom fd (log ++ entries) = readsFrom fd log ∧
      writesTo fd (log ++ entries) = writesTo fd log := by
  have none_read : readsFrom fd entries = [] :=
    List.filterMap_eq_nil_iff.mpr fun entry member => (Io.quiet_none (quiet entry member) fd).1
  have none_written : writesTo fd entries = [] :=
    List.filterMap_eq_nil_iff.mpr fun entry member => (Io.quiet_none (quiet entry member) fd).2
  simp [none_read, none_written]

theorem quiet_last {log entries : List Io} (logs : entries ≠ [])
    (quiet : ∀ entry ∈ entries, entry.quiet = true) (data : Bytes) :
    (log ++ entries).getLast? ≠ some (.wrote stdout data) := by
  intro last
  rw [List.getLast?_append_of_ne_nil _ logs] at last
  cases quiet _ (List.mem_of_getLast? last)

/-- The client exits, and what it logs is neither a read nor a write. -/
theorem Round.quit (round : Round sock buf s mode) (head : s.pending = e :: rest)
    {entries : List Io} (logs : entries ≠ [])
    (quiet : ∀ entry ∈ entries, entry.quiet = true) :
    Round sock buf { s with pending := rest, log := s.log ++ entries, exited := true } mode := by
  have reads : ∀ fd, readsFrom fd (s.log ++ entries) = readsFrom fd s.log :=
    fun fd => (quiet_append quiet fd).1
  have writes : ∀ fd, writesTo fd (s.log ++ entries) = writesTo fd s.log :=
    fun fd => (quiet_append quiet fd).2
  refine ⟨round.batch.exit head rfl rfl rfl, ?_, ?_, ?_, ?_, ?_⟩
  · simpa only [before, writes] using round.idle
  · simpa only [before, writes] using round.sending
  · simpa only [reads, writes] using round.requests
  · simpa only [reads, writes] using round.counts
  · intro data last
    exact absurd last (quiet_last logs quiet data)

theorem Stuck.quit (stuck : Stuck sock buf s) (head : s.pending = e :: rest)
    {entries : List Io} (logs : entries ≠ [])
    (quiet : ∀ entry ∈ entries, entry.quiet = true) :
    Stuck sock buf { s with pending := rest, log := s.log ++ entries, exited := true } := by
  have reads : readsFrom stdin (s.log ++ entries) = readsFrom stdin s.log :=
    (quiet_append quiet stdin).1
  have writes : ∀ fd, writesTo fd (s.log ++ entries) = writesTo fd s.log :=
    fun fd => (quiet_append quiet fd).2
  refine ⟨stuck.batch.exit head rfl rfl rfl, ?_, ?_, quiet_last logs quiet⟩
  · simpa only [reads, writes] using stuck.requests
  · simpa only [reads, writes] using stuck.counts

/-- A message from standard input. -/
theorem Round.readStdin (round : Round sock buf s .idle) (running : s.exited = false)
    (head : s.pending = e :: rest) (isStdin : e.fd = stdin) {data : Bytes} (nulFree : NulFree data)
    (short : data.length < maxSize) (pending : s'.pending = rest)
    (bytes : s'.buf = overwrite s.buf data) (log : s'.log = s.log ++ [.read e.fd data])
    (interest : s'.interest = epollCtl true s.interest .add sock.fd epollout) :
    Round sock buf s' (.sending data) := by
  have reads : readsFrom stdin s'.log = readsFrom stdin s.log ++ [data] := by
    simp [log, Io.readAt, isStdin]
  have writes : ∀ fd, writesTo fd s'.log = writesTo fd s.log := by
    intro fd
    simp [log, Io.wroteTo]
  refine ⟨round.batch.moveSending running head pending interest data, by simp, ?_, ?_, ?_, ?_⟩
  · rintro _ ⟨⟩
    refine ⟨nulFree, short, ?_⟩
    rw [bytes, round.idle rfl, before, before, writes]
  · obtain ⟨sent, messages, spoiled⟩ := round.requests
    have whole : readsFrom stdin s.log = sent := by simpa [Mode.request] using messages
    exact ⟨sent, by rw [reads, whole, Mode.request], by rwa [writes]⟩
  · have counts := round.counts
    rw [reads, writes, List.length_append, counts]
    rfl
  · simp [log]

/-- A message from standard input, and the socket cannot be registered. -/
theorem Round.stuckStdin (round : Round sock buf s .idle) (running : s.exited = false)
    (head : s.pending = e :: rest) (isStdin : e.fd = stdin) {data : Bytes}
    (pending : s'.pending = rest) (log : s'.log = s.log ++ [.read e.fd data])
    (interest : s'.interest = s.interest) : Stuck sock buf s' := by
  have reads : readsFrom stdin s'.log = readsFrom stdin s.log ++ [data] := by
    simp [log, Io.readAt, isStdin]
  have writes : ∀ fd, writesTo fd s'.log = writesTo fd s.log := by
    intro fd
    simp [log, Io.wroteTo]
  obtain ⟨sent, messages, spoiled⟩ := round.requests
  have whole : readsFrom stdin s.log = sent := by simpa [Mode.request] using messages
  refine ⟨round.batch.move running head ?_ pending (interest.trans round.batch.interest),
    ⟨sent, [data], by rw [reads, whole], by rwa [writes]⟩, ?_, by simp [log]⟩
  · intro fd mask _ registered
    exact (registered_stdinOnly registered).1
  · rw [reads, writes, List.length_append, round.counts]
    rfl

/-- The message goes to the socket, with what stands behind it. -/
theorem Round.writeSock (sized : buf.length = maxSize) (round : Round sock buf s (.sending chunk))
    (running : s.exited = false) (head : s.pending = e :: rest) (isSock : e.fd = sock.fd)
    {beyond : Bytes} {terminated : Bool} (pending : s'.pending = rest)
    (log : s'.log = s.log ++ [.scanned terminated, .wrote e.fd (s.text beyond)])
    (interest : s'.interest = epollCtl true s.interest .mod sock.fd epollin) :
    Round sock buf s' .awaiting := by
  have reads : readsFrom stdin s'.log = readsFrom stdin s.log := by simp [log, Io.readAt]
  have writes : writesTo sock.fd s'.log = writesTo sock.fd s.log ++ [s.text beyond] := by
    simp [log, Io.wroteTo, isSock]
  have printed : writesTo stdout s'.log = writesTo stdout s.log := by
    simp [log, Io.wroteTo, isSock, sock_ne_stdout]
  obtain ⟨nulFree, short, bytes⟩ := round.sending chunk rfl
  have baseSize : (before sock buf s.log).length = maxSize := by
    unfold before
    split
    · exact sized
    · exact List.length_replicate
  obtain ⟨tail, text, clean⟩ := @text_overwrite chunk (before sock buf s.log) beyond nulFree
    (baseSize ▸ short)
  rw [← bytes] at text
  refine ⟨round.batch.moveAwaiting running head isSock pending interest, by simp, by simp, ?_, ?_,
    ?_⟩
  · obtain ⟨sent, messages, spoiled⟩ := round.requests
    refine ⟨sent ++ [chunk], ?_, ?_⟩
    · rw [reads, messages]
      exact (List.append_nil _).symm
    · rw [writes, Client.text, text]
      exact spoiled.snoc clean short
  · rw [reads, printed]
    exact round.counts
  · simp [log, isSock, sock_ne_stdout]

/-- A reply from the socket, of any bytes. -/
theorem Round.readSock (round : Round sock buf s .awaiting) (running : s.exited = false)
    (head : s.pending = e :: rest) (isSock : e.fd = sock.fd) {data : Bytes}
    (pending : s'.pending = rest) (log : s'.log = s.log ++ [.read e.fd data])
    (interest : s'.interest =
      epollCtl true (epollCtl true s.interest .del sock.fd epollin) .add stdout epollout) :
    Round sock buf s' (.printing data) := by
  have reads : readsFrom stdin s'.log = readsFrom stdin s.log := by
    simp [log, Io.readAt, isSock, sock_ne_stdin]
  have writes : ∀ fd, writesTo fd s'.log = writesTo fd s.log := by
    intro fd
    simp [log, Io.wroteTo]
  refine ⟨round.batch.movePrinting running head isSock pending interest data, by simp, by simp, ?_,
    ?_, by simp [log]⟩
  · rw [reads, writes]
    exact round.requests
  · rw [reads, writes]
    exact round.counts

/-- A reply from the socket, and standard output cannot be registered. -/
theorem Round.stuckSock (round : Round sock buf s .awaiting) (running : s.exited = false)
    (head : s.pending = e :: rest) (isSock : e.fd = sock.fd) {data : Bytes}
    (pending : s'.pending = rest) (log : s'.log = s.log ++ [.read e.fd data])
    (interest : s'.interest = epollCtl true s.interest .del sock.fd epollin) :
    Stuck sock buf s' := by
  have reads : readsFrom stdin s'.log = readsFrom stdin s.log := by
    simp [log, Io.readAt, isSock, sock_ne_stdin]
  have writes : ∀ fd, writesTo fd s'.log = writesTo fd s.log := by
    intro fd
    simp [log, Io.wroteTo]
  obtain ⟨sent, messages, spoiled⟩ := round.requests
  refine ⟨round.batch.move running head ?_ pending ?_,
    ⟨sent, _, by rw [reads, messages], by rwa [writes]⟩, ?_, by simp [log]⟩
  · intro fd mask
    exact Mode.other_is_stdin (isSock ▸ Mode.awaiting_sock sock) (isSock ▸ sock_ne_stdin sock)
  · rw [interest, round.batch.interest, awaiting_deleted]
    rfl
  · rw [reads, writes]
    exact round.counts

/-- The reply goes to standard output, whole or in part. -/
theorem Round.writeStdout (round : Round sock buf s (.printing chunk)) (running : s.exited = false)
    (head : s.pending = e :: rest) (isStdout : e.fd = stdout) {data : Bytes} {terminated : Bool}
    (pending : s'.pending = rest) (bytes : s'.buf = zeros maxSize)
    (log : s'.log = s.log ++ [.scanned terminated, .wrote e.fd data])
    (interest : s'.interest = epollCtl true s.interest .del stdout epollout) :
    Round sock buf s' .idle := by
  have reads : readsFrom stdin s'.log = readsFrom stdin s.log := by simp [log, Io.readAt]
  have writes : writesTo sock.fd s'.log = writesTo sock.fd s.log := by
    simp [log, Io.wroteTo, isStdout, (sock_ne_stdout sock).symm]
  have printed : writesTo stdout s'.log = writesTo stdout s.log ++ [data] := by
    simp [log, Io.wroteTo, isStdout]
  have counts := round.counts
  have sentBefore : writesTo sock.fd s'.log ≠ [] := by
    obtain ⟨sent, messages, spoiled⟩ := round.requests
    rw [writes]
    apply spoiled.writes_ne_nil
    rintro rfl
    rw [messages] at counts
    cases counts
  refine ⟨round.batch.moveIdle running head isStdout pending interest, fun _ => ?_, by simp, ?_, ?_,
    fun _ _ => ⟨rfl, sentBefore⟩⟩
  · rw [bytes, before, if_neg sentBefore]
  · rw [reads, writes]
    exact round.requests
  · rw [reads, printed, List.length_append, counts]
    rfl

/-- A step in lockstep leads from a mode to a mode, or there are no more rounds. -/
theorem Round.step (sized : buf.length = maxSize) (round : Round sock buf s mode) {label : Label}
    (lockstep : Lockstep s label) (complete : Complete sock s label)
    (step : s.step sock label = some s') :
    (∃ next, Round sock buf s' next) ∨ Stuck sock buf s' := by
  rcases round.batch.step step with ⟨ready, rfl, batch, pending, rfl⟩ |
    ⟨answer, e, rest, rfl, running, head, handled⟩
  · exact Or.inl
      ⟨mode, batch, round.idle, round.sending, round.requests, round.counts, round.after⟩
  · rcases handled with ⟨isStdin, effect⟩ | ⟨isSock, chunk, rfl, effect⟩ |
      ⟨isSock, rfl, effect⟩ | ⟨isStdout, chunk, rfl, effect⟩
    · cases effect with
      | failed added =>
          exact Or.inl ⟨mode, round.quit head (List.cons_ne_nil _ _) (by simp [Io.quiet])⟩
      | ended added =>
          exact Or.inl ⟨mode, round.quit head (List.cons_ne_nil _ _) (by simp [Io.quiet])⟩
      | @chunk data added some_bytes fits =>
          obtain ⟨answered, nulFree, short⟩ := lockstep (by simp [head, isStdin]) some_bytes
          have counts := round.counts
          obtain rfl : mode = .idle := Mode.eq_idle_of_unanswered (by omega)
          cases added with
          | true =>
              exact Or.inl ⟨.sending data, round.readStdin running head isStdin nulFree short rfl
                rfl rfl (if_pos isStdin)⟩
          | false =>
              refine Or.inr (round.stuckStdin running head isStdin rfl rfl ?_)
              exact (if_pos isStdin).trans (epollCtl_unable ..)
    · cases effect with
      | failed beyond =>
          exact Or.inl ⟨_, round.quit head (List.cons_ne_nil _ _) (by simp [Io.quiet])⟩
      | @wrote nwrite beyond most =>
          have whole : nwrite = (s.text beyond).length := complete (by simp [head, isSock])
          have log : s.log ++ [.scanned (decide (0 ∈ s.buf)),
              .wrote e.fd ((s.text beyond).take nwrite)] =
              s.log ++ [.scanned (decide (0 ∈ s.buf)), .wrote e.fd (s.text beyond)] := by
            rw [whole, List.take_length]
          have notStdout : e.fd ≠ stdout := isSock ▸ sock_ne_stdout sock
          refine Or.inl ⟨.awaiting, round.writeSock sized running head isSock rfl log ?_⟩
          exact (if_neg notStdout).trans (by rw [isSock])
    · cases effect with
      | failed added =>
          exact Or.inl ⟨_, round.quit head (List.cons_ne_nil _ _) (by simp [Io.quiet])⟩
      | ended added =>
          exact Or.inl ⟨_, round.quit head (List.cons_ne_nil _ _) (by simp [Io.quiet])⟩
      | @chunk data added some_bytes fits =>
          have notStdin : e.fd ≠ stdin := isSock ▸ sock_ne_stdin sock
          cases added with
          | true =>
              exact Or.inl
                ⟨.printing data, round.readSock running head isSock rfl rfl (if_neg notStdin)⟩
          | false =>
              refine Or.inr (round.stuckSock running head isSock rfl rfl ?_)
              exact (if_neg notStdin).trans (epollCtl_unable ..)
    · cases effect with
      | failed beyond =>
          exact Or.inl ⟨_, round.quit head (List.cons_ne_nil _ _) (by simp [Io.quiet])⟩
      | @wrote nwrite beyond most =>
          refine Or.inl ⟨.idle, round.writeStdout running head isStdout rfl rfl rfl ?_⟩
          exact (if_pos isStdout).trans (by rw [isStdout])

/-- Only standard input is reported, and in lockstep nothing is typed. -/
theorem Stuck.step (stuck : Stuck sock buf s) {label : Label} (lockstep : Lockstep s label)
    (step : s.step sock label = some s') : Stuck sock buf s' := by
  rcases stuck.batch.step step with ⟨ready, rfl, batch, pending, rfl⟩ |
    ⟨answer, e, rest, rfl, running, head, handled⟩
  · exact ⟨batch, stuck.requests, stuck.counts, stuck.last⟩
  · rcases handled with ⟨isStdin, effect⟩ | ⟨-, chunk, none, -⟩ | ⟨-, none, -⟩ |
      ⟨-, chunk, none, -⟩
    · cases effect with
      | failed added => exact stuck.quit head (List.cons_ne_nil _ _) (by simp [Io.quiet])
      | ended added => exact stuck.quit head (List.cons_ne_nil _ _) (by simp [Io.quiet])
      | @chunk data added some_bytes fits =>
          have answered := (lockstep (by simp [head, isStdin]) some_bytes).1
          have counts := stuck.counts
          omega
    · cases none
    · cases none
    · cases none

theorem start_round (sock : Socket) (buf : Bytes) : Round sock buf (start buf) .idle where
  batch := by
    have here := start_idle sock
    exact ⟨here.interest, List.nodup_nil, by simp [start, addEvent]⟩
  idle _ := rfl
  sending := by simp
  requests := ⟨[], rfl, rfl⟩
  counts := rfl
  after := by simp [start, addEvent]

/-! ## Results -/

/-- What was written to the socket is the messages, one by one, and after the reply is
printed only standard input is registered and the buffer is zero. -/
def Exact (sock : Socket) (s : Client) : Prop :=
  writesTo sock.fd s.log <+: readsFrom stdin s.log ∧
    ∀ data, s.log.getLast? = some (.wrote stdout data) →
      s.interest = stdinOnly ∧ s.buf = zeros maxSize

theorem Spoiled.prefix_iff {sent writes later : List Bytes} (spoiled : Spoiled buf sent writes) :
    writes <+: sent ++ later ↔ writes = [] ∨
      ∃ first others, sent ++ later = first :: others ∧ buf[first.length]? = some 0 := by
  cases sent with
  | nil =>
      obtain rfl : writes = [] := spoiled
      simp
  | cons first others =>
      obtain ⟨tail, rfl, iff⟩ := spoiled
      rw [List.cons_append, List.cons_prefix_cons, List.append_right_eq_self, iff]
      simp

theorem exact_iff_of_spoiled {sent later : List Bytes}
    (messages : readsFrom stdin s.log = sent ++ later)
    (spoiled : Spoiled buf sent (writesTo sock.fd s.log))
    (ready : ∀ data, s.log.getLast? = some (.wrote stdout data) →
      s.interest = stdinOnly ∧ s.buf = zeros maxSize) :
    Exact sock s ↔ writesTo sock.fd s.log = [] ∨
      ∃ first later, readsFrom stdin s.log = first :: later ∧ buf[first.length]? = some 0 := by
  rw [Exact, and_iff_left ready, messages, spoiled.prefix_iff]

theorem Round.exact_iff (round : Round sock buf s mode) :
    Exact sock s ↔ writesTo sock.fd s.log = [] ∨
      ∃ first later, readsFrom stdin s.log = first :: later ∧ buf[first.length]? = some 0 := by
  have rounds : ∀ data, s.log.getLast? = some (.wrote stdout data) →
      s.interest = stdinOnly ∧ s.buf = zeros maxSize := by
    intro data last
    obtain ⟨rfl, sentBefore⟩ := round.after data last
    refine ⟨round.batch.interest, ?_⟩
    rw [round.idle rfl, before, if_neg sentBefore]
  obtain ⟨sent, messages, spoiled⟩ := round.requests
  exact exact_iff_of_spoiled messages spoiled rounds

/-- **Lockstep from any buffer.**  Let messages be typed one at a time, let replies be
anything, and let writes to the socket be complete.  The client sends exactly the messages,
and is ready for the next after every reply, if and only if the buffer had a NUL behind the
first message when the client started, or no message was sent yet. -/
theorem lockstep_exact_iff {labels : List Label} (sized : buf.length = maxSize)
    (lockstep : Along (Client.step sock) Lockstep (start buf) labels)
    (complete : Along (Client.step sock) (Complete sock) (start buf) labels)
    (reached : run (Client.step sock) (start buf) labels = some s) :
    Exact sock s ↔ writesTo sock.fd s.log = [] ∨
      ∃ first later, readsFrom stdin s.log = first :: later ∧ buf[first.length]? = some 0 := by
  have ends := run_along (Client.step sock)
    (fun s => (∃ mode, Round sock buf s mode) ∨ Stuck sock buf s)
    (fun s label s' inv guards step => by
      rcases inv with ⟨mode, round⟩ | stuck
      · exact round.step sized guards.1 guards.2 step
      · exact Or.inr (stuck.step guards.1 step))
    (Or.inl ⟨.idle, start_round sock buf⟩)
    (along_and (Client.step sock) lockstep complete) reached
  rcases ends with ⟨mode, round⟩ | stuck
  · exact round.exact_iff
  · obtain ⟨sent, later, messages, spoiled⟩ := stuck.requests
    exact exact_iff_of_spoiled messages spoiled fun data last => absurd last (stuck.last data)

end Lockstep

/-- Garbage in the buffer, but a NUL in the third byte. -/
def nulBehind : Bytes := List.replicate 2 88 ++ [0] ++ List.replicate 1021 88

theorem lockstep_exact_iff_nul_behind :
    ∃ s, run (Client.step usual) (start nulBehind) roundTrip = some s ∧
      writesTo usual.fd s.log = [[104, 105]] ∧ Exact usual s := by
  have observed : (run (Client.step usual) (start nulBehind) roundTrip).map
      (fun s => (writesTo usual.fd s.log, readsFrom stdin s.log)) =
        some ([[104, 105]], [[104, 105]]) := by decide +kernel
  obtain ⟨s, reached, shape⟩ := Option.map_eq_some_iff.mp observed
  obtain ⟨writes, reads⟩ := Prod.mk.inj shape
  refine ⟨s, reached, writes, (lockstep_exact_iff (by decide +kernel) (by decide +kernel)
    (by decide +kernel) reached).mpr (Or.inr ⟨[104, 105], [], reads, by decide +kernel⟩)⟩

/-- The same message over four bytes of garbage. -/
def overGarbage : List Label :=
  [.epollWait (some [⟨stdin, epollin⟩]), .handle (.read (some [104, 105]) true),
    .epollWait (some [⟨3, epollout⟩]), .handle (.write (some 4) [])]

/-- The socket gets the message and what stood behind it. -/
theorem garbage_sent :
    ¬ ∀ (sock : Socket) (buf : Bytes) (labels : List Label) (s : Client), buf.length = maxSize →
      Along (Client.step sock) Lockstep (start buf) labels →
      Along (Client.step sock) (Complete sock) (start buf) labels →
      run (Client.step sock) (start buf) labels = some s → Exact sock s := by
  intro alwaysExact
  have observed : (run (Client.step usual)
      (start (overwrite (zeros maxSize) [88, 88, 88, 88])) overGarbage).map
      (fun s => (writesTo usual.fd s.log, readsFrom stdin s.log)) =
        some ([[104, 105, 88, 88]], [[104, 105]]) := by decide +kernel
  obtain ⟨s, reached, shape⟩ := Option.map_eq_some_iff.mp observed
  obtain ⟨writes, reads⟩ := Prod.mk.inj shape
  have kept := alwaysExact usual _ overGarbage s (by decide +kernel) (by decide +kernel)
    (by decide +kernel) reached
  have sent := kept.1
  rw [writes, reads] at sent
  exact absurd sent (by decide)

end UnixDemos.EpollClient
