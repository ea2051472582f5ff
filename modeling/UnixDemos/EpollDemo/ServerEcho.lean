/-
# EpollDemo.ServerEcho — what the shared buffer does to the echo

All connections go through one `buf`: `do_read` overwrites its front, `do_write`
sends it up to the first NUL and zeroes it.  As long as no client is read while
another waits for its answer (`Calm`), `buf` is zero whenever nobody waits, and
otherwise it is the message of the one client that waits, over zeros (`Echo`).

Then every answer is the last message of its own connection, the messages sent to
a connection are its own, in order, and none is dropped.  With two clients read
before either is answered, one gets a mixture of both messages and the other
nothing.
-/
import UnixDemos.EpollDemo.ServerRegistration

namespace UnixDemos.EpollServer

open UnixDemos.Library

set_option autoImplicit false

/-! ## Conditions on a step -/

/-- Messages are NUL-free and shorter than `buf`, and a write that succeeds is
complete. -/
def Plain (s : Server) : Label → Prop
  | .handle (.read (some data) _) => NulFree data ∧ data.length < maxSize
  | .handle (.write (some nwrite) beyond) => nwrite = (s.text beyond).length
  | _ => True

/-- No client is read while another waits for its answer. -/
def Calm (s : Server) : Label → Prop
  | .handle (.read (some data) _) => data = [] ∨ s.waiting = []
  | _ => True

instance (s : Server) : (label : Label) → Decidable (Plain s label)
  | .epollWait _ => isTrue trivial
  | .handle (.accept _) => isTrue trivial
  | .handle (.read none _) => isTrue trivial
  | .handle (.read (some _) _) => inferInstanceAs (Decidable (_ ∧ _))
  | .handle (.write none _) => isTrue trivial
  | .handle (.write (some _) _) => inferInstanceAs (Decidable (_ = _))

instance (s : Server) : (label : Label) → Decidable (Calm s label)
  | .epollWait _ => isTrue trivial
  | .handle (.accept _) => isTrue trivial
  | .handle (.read none _) => isTrue trivial
  | .handle (.read (some _) _) => inferInstanceAs (Decidable (_ ∨ _))
  | .handle (.write _ _) => isTrue trivial

/-! ## What the clients see -/

/-- Every answer is what its connection sent last. -/
def Isolated (log : List Io) : Prop :=
  ∀ (i c : Nat) (bytes : Bytes), log[i]? = some (.sent c bytes) →
    (receivedFrom c (log.take i)).getLast? = some bytes

/-- Every message of a connection without a failed write is answered, or is the
last one and its answer is still to come. -/
def NothingDropped (s : Server) : Prop :=
  ∀ c, Turn.write none ∉ trace c s.log → receivedFrom c s.log = sentTo c s.log ∨
    ∃ fd data, s.fds.file fd = some (.client c) ∧ s.interest fd = some epollout ∧
      receivedFrom c s.log = sentTo c s.log ++ [data]

theorem receivedFrom_append (c : Nat) (log entries : List Io) :
    receivedFrom c (log ++ entries) = receivedFrom c log ++ receivedFrom c entries := by
  simp [receivedFrom]

theorem sentTo_append (c : Nat) (log entries : List Io) :
    sentTo c (log ++ entries) = sentTo c log ++ sentTo c entries := by
  simp [sentTo]

theorem isolated_append {log entries : List Io} (before : Isolated log)
    (new : ∀ (j c : Nat) (bytes : Bytes), entries[j]? = some (.sent c bytes) →
      (receivedFrom c (log ++ entries.take j)).getLast? = some bytes) :
    Isolated (log ++ entries) := by
  intro i c bytes here
  rcases Nat.lt_or_ge i log.length with inside | past
  · rw [List.getElem?_append_left inside] at here
    rw [List.take_append_of_le_length (by omega)]
    exact before i c bytes here
  · rw [List.getElem?_append_right past] at here
    obtain ⟨j, rfl⟩ := Nat.exists_eq_add_of_le past
    rw [List.take_length_add_append]
    exact new j c bytes (by simpa using here)

theorem isolated_silent {log entries : List Io} (before : Isolated log)
    (silent : ∀ entry ∈ entries, ∀ c bytes, entry ≠ .sent c bytes) :
    Isolated (log ++ entries) :=
  isolated_append before fun _ c bytes here =>
    absurd rfl (silent _ (List.mem_of_getElem? here) c bytes)

/-! ## The invariant -/

section Invariant

variable {s s' : Server} {fd c : Nat}

/-- The buffer while only connections in turn have been read. -/
structure Echo (s : Server) : Prop where
  idle : (∀ fd, s.interest fd ≠ some epollout) → s.buf = zeros maxSize
  alone : ∀ fd fd', s.interest fd = some epollout → s.interest fd' = some epollout → fd = fd'
  held : ∀ fd c, s.fds.file fd = some (.client c) → s.interest fd = some epollout →
    ∃ data, NulFree data ∧ data.length < maxSize ∧ s.buf = overwrite (zeros maxSize) data ∧
      receivedFrom c s.log = sentTo c s.log ++ [data]
  answered : ∀ c, Turn.write none ∉ trace c s.log →
    (∀ fd, s.fds.file fd = some (.client c) → s.interest fd ≠ some epollout) →
    receivedFrom c s.log = sentTo c s.log
  sent : ∀ c, sentTo c s.log <+: receivedFrom c s.log
  sound : ∀ fd c, s.fds.file fd = some (.client c) → Turn.write none ∉ trace c s.log
  isolated : Isolated s.log

/-- A step that reads and writes nothing and leaves alone who waits. -/
theorem Echo.quiet (echo : Echo s) (buf : s'.buf = s.buf)
    (log : ∀ c, trace c s'.log = trace c s.log) (isolated : Isolated s'.log)
    (waits : ∀ fd, s'.interest fd = some epollout ↔ s.interest fd = some epollout)
    (files : ∀ fd, s.interest fd = some epollout → s'.fds.file fd = s.fds.file fd)
    (opened : ∀ fd c, s'.fds.file fd = some (.client c) →
      s.fds.file fd = some (.client c) ∨ trace c s.log = []) : Echo s' := by
  have received : ∀ c, receivedFrom c s'.log = receivedFrom c s.log := fun c => by
    unfold receivedFrom
    rw [log]
  have sent : ∀ c, sentTo c s'.log = sentTo c s.log := fun c => by
    unfold sentTo
    rw [log]
  constructor
  · intro none
    rw [buf]
    exact echo.idle fun fd waiting => none fd ((waits fd).mpr waiting)
  · exact fun fd fd' waiting waiting' =>
      echo.alone fd fd' ((waits fd).mp waiting) ((waits fd').mp waiting')
  · intro fd c there waiting
    have waited := (waits fd).mp waiting
    rw [buf, received, sent]
    exact echo.held fd c (files fd waited ▸ there) waited
  · intro c clean none
    rw [received, sent]
    refine echo.answered c (log c ▸ clean) fun fd there waiting => ?_
    exact none fd ((files fd waiting).symm ▸ there) ((waits fd).mpr waiting)
  · intro c
    rw [received, sent]
    exact echo.sent c
  · intro fd c there
    rw [log]
    rcases opened fd c there with old | fresh
    · exact echo.sound fd c old
    · rw [fresh]
      exact List.not_mem_nil
  · exact isolated

/-- A turn of the connection at `fd` while nobody else waits: afterwards it
waits with its message in the buffer, or nobody waits and the buffer is zero. -/
theorem Echo.turn (echo : Echo s) (reg : Registered s) (client : s.fds.file fd = some (.client c))
    (calm : ∀ fd', fd' ≠ fd → s.interest fd' ≠ some epollout)
    (files : ∀ fd', fd' ≠ fd → s'.fds.file fd' = s.fds.file fd')
    (here : s'.fds.file fd = none ∨ s'.fds.file fd = some (.client c))
    (interests : ∀ fd', fd' ≠ fd → s'.interest fd' = s.interest fd')
    (log : ∀ c', c' ≠ c → trace c' s'.log = trace c' s.log) (isolated : Isolated s'.log)
    (after : (s'.interest fd = some epollout ∧ s'.fds.file fd = some (.client c) ∧
        Turn.write none ∉ trace c s'.log ∧
        ∃ data, NulFree data ∧ data.length < maxSize ∧ s'.buf = overwrite (zeros maxSize) data ∧
          receivedFrom c s'.log = sentTo c s'.log ++ [data]) ∨
      (s'.interest fd ≠ some epollout ∧ s'.buf = zeros maxSize ∧
        sentTo c s'.log <+: receivedFrom c s'.log ∧
        (Turn.write none ∉ trace c s'.log → receivedFrom c s'.log = sentTo c s'.log) ∧
        (s'.fds.file fd ≠ none → Turn.write none ∉ trace c s'.log))) : Echo s' := by
  have only : ∀ fd', s'.interest fd' = some epollout → fd' = fd := by
    intro fd' waiting
    by_contra other
    exact calm fd' other (interests fd' other ▸ waiting)
  have received : ∀ c', c' ≠ c → receivedFrom c' s'.log = receivedFrom c' s.log := fun c' ne => by
    unfold receivedFrom
    rw [log c' ne]
  have sent : ∀ c', c' ≠ c → sentTo c' s'.log = sentTo c' s.log := fun c' ne => by
    unfold sentTo
    rw [log c' ne]
  constructor
  · intro none
    rcases after with ⟨waiting, -⟩ | ⟨-, zero, -⟩
    · exact absurd waiting (none fd)
    · exact zero
  · intro fd₁ fd₂ waiting waiting'
    rw [only fd₁ waiting, only fd₂ waiting']
  · intro fd' c' there waiting
    obtain rfl := only fd' waiting
    rcases after with ⟨-, file, -, data⟩ | ⟨ready, -⟩
    · rw [file] at there
      cases there
      exact data
    · exact absurd waiting ready
  · intro c' clean none
    by_cases same : c' = c
    · subst same
      rcases after with ⟨waiting, file, -⟩ | ⟨-, -, -, answered, -⟩
      · exact absurd waiting (none fd file)
      · exact answered clean
    · rw [received c' same, sent c' same]
      refine echo.answered c' (log c' same ▸ clean) fun fd' there waiting => ?_
      by_cases here : fd' = fd
      · rw [here, client] at there
        cases there
        exact same rfl
      · exact calm fd' here waiting
  · intro c'
    by_cases same : c' = c
    · subst same
      rcases after with ⟨-, -, -, data, -, -, -, eq⟩ | ⟨-, -, sent, -⟩
      · exact eq ▸ List.prefix_append _ _
      · exact sent
    · rw [received c' same, sent c' same]
      exact echo.sent c'
  · intro fd' c' there
    by_cases same : fd' = fd
    · rw [same] at there
      rcases here with closed | stays
      · rw [closed] at there
        cases there
      · rw [stays] at there
        cases there
        rcases after with ⟨-, -, clean, -⟩ | ⟨-, -, -, -, clean⟩
        · exact clean
        · exact clean (by simp [stays])
    · rw [files fd' same] at there
      have ne : c' ≠ c := fun eq => same (reg.unique _ _ _ there (eq ▸ client))
      rw [log c' ne]
      exact echo.sound fd' c' there
  · exact isolated

/-- The list of waiting descriptors misses none. -/
theorem Registered.waiting_eq_nil (reg : Registered s) (none : s.waiting = []) (fd : Nat) :
    s.interest fd ≠ some epollout := by
  intro waiting
  have isOpen : fd < s.fds.length := by
    rcases reg.names waiting with ⟨-, mask⟩ | ⟨c, there, -⟩
    · exact absurd mask (by decide)
    · exact FdTable.lt_length_of_file there
  have member : fd ∈ s.waiting :=
    List.mem_filter.mpr ⟨List.mem_range.mpr isOpen, decide_eq_true waiting⟩
  rw [none] at member
  cases member

/-- `do_read` while nobody waits: the message stands in the zeroed buffer. -/
theorem Echo.received (echo : Echo s) (reg : Registered s)
    (client : s.fds.file fd = some (.client c)) (quiet : ∀ fd, s.interest fd ≠ some epollout)
    {rest : List Pending} {data : Bytes} (nulFree : NulFree data) (short : data.length < maxSize)
    (beyond : Bytes) :
    Echo { s with
      pending := rest
      buf := overwrite s.buf data
      interest := Function.update s.interest fd (some epollout)
      log := s.log ++ [.received c data, .scanned (decide (0 ∈ overwrite s.buf data)),
        .printf "read message: %s" (cstr (overwrite s.buf data ++ beyond))] } := by
  have before : receivedFrom c s.log = sentTo c s.log :=
    echo.answered c (echo.sound _ c client) fun fd _ => quiet fd
  refine echo.turn reg client (fun fd _ => quiet fd) (fun _ _ => rfl) (Or.inr client)
    (fun fd other => Function.update_of_ne other _ _) (fun c' ne => ?_)
    (isolated_silent echo.isolated (by simp)) (Or.inl ⟨Function.update_self .., client, ?_,
      data, nulFree, short, ?_, ?_⟩)
  · simp [Io.turn, Ne.symm ne]
  · simp [Io.turn, echo.sound _ c client]
  · rw [echo.idle quiet]
  · rw [receivedFrom_append, sentTo_append, before]
    simp [receivedFrom, sentTo, Io.turn, Turn.received, Turn.sent]

/-- `do_write` fails: the connection is closed with its last message unanswered. -/
theorem Echo.failed (echo : Echo s) (reg : Registered s)
    (client : s.fds.file fd = some (.client c)) (waits : s.interest fd = some epollout)
    {rest : List Pending} :
    Echo { s with
      pending := rest
      buf := zeros maxSize
      fds := s.fds.close fd
      interest := Function.update s.interest fd none
      log := s.log ++ [.scanned (decide (0 ∈ s.buf)), .sendFailed (some (.client c)),
        .perror "write error"] } := by
  obtain ⟨data, -, -, -, owed⟩ := echo.held _ c client waits
  refine echo.turn reg client (fun fd other waits' => other (echo.alone _ _ waits' waits))
    (fun fd other => FdTable.file_close_of_ne other) (Or.inl (FdTable.file_close_self _))
    (fun fd other => Function.update_of_ne other _ _) (fun c' ne => ?_)
    (isolated_silent echo.isolated (by simp)) (Or.inr ⟨?_, rfl, ?_, ?_, ?_⟩)
  · simp [Io.turn, Ne.symm ne]
  · simp
  · rw [receivedFrom_append, sentTo_append, owed]
    refine ⟨[data], ?_⟩
    simp [receivedFrom, sentTo, Io.turn, Turn.received, Turn.sent, List.filterMap_cons]
  · simp [Io.turn]
  · simp

/-- `do_write` sends the whole string in the buffer, which is the message owed. -/
theorem Echo.replied (echo : Echo s) (reg : Registered s)
    (client : s.fds.file fd = some (.client c)) (waits : s.interest fd = some epollout)
    {rest : List Pending} {nwrite : Nat} (beyond : Bytes)
    (complete : nwrite = (s.text beyond).length) :
    Echo { s with
      pending := rest
      buf := zeros maxSize
      interest := Function.update s.interest fd (some epollin)
      log := s.log ++ [.scanned (decide (0 ∈ s.buf)),
        .sent c ((s.text beyond).take nwrite)] } := by
  obtain ⟨data, nulFree, short, buf, owed⟩ := echo.held _ c client waits
  have text : s.text beyond = data := by
    unfold Server.text
    rw [buf]
    exact cstr_overwrite_zeros nulFree short beyond
  have whole : (s.text beyond).take nwrite = data := by
    rw [complete, List.take_length, text]
  rw [whole]
  refine echo.turn reg client (fun fd other waits' => other (echo.alone _ _ waits' waits))
    (fun _ _ => rfl) (Or.inr client) (fun fd other => Function.update_of_ne other _ _)
    (fun c' ne => ?_) (isolated_append echo.isolated ?_) (Or.inr ⟨?_, rfl, ?_, ?_, ?_⟩)
  · simp [Io.turn, Ne.symm ne]
  · intro j c' bytes here
    -- the only answer among the entries is the second
    rcases j with _ | _ | j
    · cases here
    · cases here
      rw [receivedFrom_append, owed]
      simp [receivedFrom, Io.turn]
    · cases here
  · simp [epollin, epollout]
  · rw [receivedFrom_append, sentTo_append, owed]
    simp [receivedFrom, sentTo, Io.turn, Turn.received, Turn.sent]
  · rw [receivedFrom_append, sentTo_append, owed]
    simp [receivedFrom, sentTo, Io.turn, Turn.received, Turn.sent]
  · simp [Io.turn, echo.sound _ c client]

theorem Effect.echo (reg : Registered s) (echo : Echo s) {label : Label} (plain : Plain s label)
    (calm : Calm s label) (effect : Effect s label s') : Echo s' := by
  cases effect with
  | waitFailed idle =>
      exact echo.quiet rfl (fun c => by simp [Io.turn]) (isolated_silent echo.isolated (by simp))
        (fun _ => Iff.rfl) (fun _ _ => rfl) fun _ _ there => Or.inl there
  | waited idle reportable =>
      exact echo.quiet rfl (fun _ => rfl) echo.isolated (fun _ => Iff.rfl) (fun _ _ => rfl)
        fun _ _ there => Or.inl there
  | acceptFailed head =>
      exact echo.quiet rfl (fun c => by simp [Io.turn]) (isolated_silent echo.isolated (by simp))
        (fun _ => Iff.rfl) (fun _ _ => rfl) fun _ _ there => Or.inl there
  | accepted head =>
      have free : s.interest s.fds.lowestFree = none := reg.interest_free
      refine echo.quiet rfl (fun c => by simp [Io.turn]) (isolated_silent echo.isolated (by simp))
        (update_eq_some_iff (by simp [free]) (by decide)) (fun fd waiting => ?_)
        fun fd c there => ?_
      · apply FdTable.file_install_of_ne
        intro same
        rw [same, free] at waiting
        cases waiting
      · by_cases same : fd = s.fds.lowestFree
        · rw [same, FdTable.file_install_self] at there
          cases there
          exact Or.inr (reg.fresh _ (Nat.le_refl _))
        · exact Or.inl (FdTable.file_install_of_ne _ same ▸ there)
  | @ended p rest c _ message beyond head client readable shown =>
      have registered : s.interest p.event.fd = some epollin :=
        readable ▸ reg.interest_client client
      have silent : ∀ c, message.turn c = none := by
        intro c
        rcases shown with ⟨-, rfl⟩ | ⟨-, rfl⟩ <;> rfl
      have unsent : ∀ entry ∈ [message], ∀ c bytes, entry ≠ Io.sent c bytes := by
        rcases shown with ⟨-, rfl⟩ | ⟨-, rfl⟩ <;> simp
      refine echo.quiet rfl (fun c => by simp [silent]) (isolated_silent echo.isolated unsent)
        (update_eq_some_iff (registered ▸ by decide) (by decide)) (fun fd waiting => ?_)
        fun fd c there => ?_
      · apply FdTable.file_close_of_ne
        intro same
        rw [same, registered] at waiting
        cases waiting
      · by_cases same : fd = p.event.fd
        · rw [same, FdTable.file_close_self] at there
          cases there
        · exact Or.inl (FdTable.file_close_of_ne same ▸ there)
  | read beyond head client readable nonempty fits =>
      exact echo.received reg client (reg.waiting_eq_nil (calm.resolve_left nonempty)) plain.1 plain.2
        beyond
  | writeFailed beyond head client writable =>
      exact echo.failed reg client (writable ▸ reg.interest_client client)
  | wrote beyond head client writable most =>
      exact echo.replied reg client (writable ▸ reg.interest_client client) beyond plain

theorem start_echo (inherited : List Bool) : Echo (start inherited) := by
  have noClient := start_noClient inherited
  have nobody : ∀ fd, (start inherited).interest fd ≠ some epollout := by
    intro fd waits
    rcases (start_registered inherited).names waits with ⟨-, mask⟩ | ⟨c, there, -⟩
    · exact absurd mask (by decide)
    · exact noClient fd c there
  constructor
  · exact fun _ => rfl
  · exact fun fd _ waits => absurd waits (nobody fd)
  · exact fun fd c there => absurd there (noClient fd c)
  · exact fun c _ _ => rfl
  · exact fun c => List.prefix_refl _
  · exact fun fd c there => absurd there (noClient fd c)
  · intro i c bytes here
    cases here

theorem run_echo {inherited : List Bool} {labels : List Label}
    (plain : Along Server.step Plain (start inherited) labels)
    (calm : Along Server.step Calm (start inherited) labels)
    (reached : run Server.step (start inherited) labels = some s) : Echo s := by
  refine (run_along Server.step (fun s => Registered s ∧ Echo s) ?_
    ⟨start_registered inherited, start_echo inherited⟩ (along_and Server.step plain calm) reached).2
  intro s label s' inv guards step
  have effect := step_effect inv.1 step
  exact ⟨effect.registered inv.1, effect.echo inv.1 inv.2 guards.1 guards.2⟩

/-! ## Results -/

/-- **Without overlap the server echoes**: the `k`-th message sent to a
connection is the `k`-th one received from it, and the buffer is zero whenever
nobody waits for `EPOLLOUT`. -/
theorem echo_in_order {inherited : List Bool} {labels : List Label}
    (plain : Along Server.step Plain (start inherited) labels)
    (calm : Along Server.step Calm (start inherited) labels)
    (reached : run Server.step (start inherited) labels = some s) :
    (∀ (c k : Nat) (bytes : Bytes), (sentTo c s.log)[k]? = some bytes →
      (receivedFrom c s.log)[k]? = some bytes) ∧
      (s.waiting = [] → s.buf = zeros maxSize) := by
  have echo := run_echo plain calm reached
  refine ⟨fun c k bytes here => ?_, fun none => echo.idle ?_⟩
  · obtain ⟨later, split⟩ := echo.sent c
    have inside : k < (sentTo c s.log).length := (List.getElem?_eq_some_iff.mp here).1
    rw [← split, List.getElem?_append_left inside]
    exact here
  · exact (run_registered reached).waiting_eq_nil none

/-- A long message whose answer fails, a connection accepted in between, and a
short message. -/
def afterFailure : List Label :=
  [.epollWait (some [⟨3, epollin⟩]), .handle (.accept true),
    .epollWait (some [⟨5, epollin⟩, ⟨3, epollin⟩]), .handle (.read (some [97, 98, 99]) []),
    .handle (.accept true), .epollWait (some [⟨5, epollout⟩, ⟨6, epollin⟩]),
    .handle (.write none []), .handle (.read (some [104, 105]) []),
    .epollWait (some [⟨6, epollout⟩]), .handle (.write (some 2) [])]

/-- The second client gets its two bytes and nothing of the first message. -/
theorem echo_in_order_after_failure :
    ∃ s, run Server.step (start [true, true, true]) afterFailure = some s ∧
      (sentTo 1 s.log)[0]? = some [104, 105] ∧ (receivedFrom 1 s.log)[0]? = some [104, 105] ∧
      s.buf = zeros maxSize := by
  have observed : (run Server.step (start [true, true, true]) afterFailure).map
      (fun s => ((sentTo 1 s.log)[0]?, s.waiting)) = some (some [104, 105], []) := by
    decide +kernel
  obtain ⟨s, reached, shape⟩ := Option.map_eq_some_iff.mp observed
  simp only [Prod.mk.injEq] at shape
  have both := echo_in_order (by decide +kernel) (by decide +kernel) reached
  exact ⟨s, reached, shape.1, both.1 1 0 _ shape.1, both.2 shape.2⟩

/-- **Isolation, as far as it goes**: in a run without overlap every answer is the
last message of its own connection, and no message is dropped. -/
theorem isolated_when_calm {inherited : List Bool} {labels : List Label}
    (plain : Along Server.step Plain (start inherited) labels)
    (calm : Along Server.step Calm (start inherited) labels)
    (reached : run Server.step (start inherited) labels = some s) :
    Isolated s.log ∧ NothingDropped s := by
  have echo := run_echo plain calm reached
  refine ⟨echo.isolated, fun c clean => ?_⟩
  by_cases waits : ∃ fd, s.fds.file fd = some (.client c) ∧ s.interest fd = some epollout
  · obtain ⟨fd, there, waits⟩ := waits
    obtain ⟨data, -, -, -, owed⟩ := echo.held fd c there waits
    exact Or.inr ⟨fd, data, there, waits, owed⟩
  · exact Or.inl (echo.answered c clean fun fd there waiting => waits ⟨fd, there, waiting⟩)

end Invariant

/-- Two clients, the second read in the batch that answers the first. -/
def inTurn : List Label :=
  [.epollWait (some [⟨3, epollin⟩]), .handle (.accept true), .epollWait (some [⟨3, epollin⟩]),
    .handle (.accept true), .epollWait (some [⟨5, epollin⟩]),
    .handle (.read (some [97, 97, 97]) []), .epollWait (some [⟨5, epollout⟩, ⟨6, epollin⟩]),
    .handle (.write (some 3) []), .handle (.read (some [98, 98]) [])]

theorem isolated_when_calm_two_clients :
    ∃ s, run Server.step (start [true, true, true]) inTurn = some s ∧
      Isolated s.log ∧ NothingDropped s := by
  have observed : (run Server.step (start [true, true, true]) inTurn).isSome = true := by
    decide +kernel
  obtain ⟨s, reached⟩ := Option.isSome_iff_exists.mp observed
  exact ⟨s, reached, isolated_when_calm (by decide +kernel) (by decide +kernel) reached⟩

/-- The same two clients, both read in one batch. -/
def overlap : List Label :=
  [.epollWait (some [⟨3, epollin⟩]), .handle (.accept true), .epollWait (some [⟨3, epollin⟩]),
    .handle (.accept true), .epollWait (some [⟨5, epollin⟩, ⟨6, epollin⟩]),
    .handle (.read (some [97, 97, 97]) []), .handle (.read (some [98, 98]) []),
    .epollWait (some [⟨5, epollout⟩, ⟨6, epollout⟩]),
    .handle (.write (some 3) []), .handle (.write (some 0) [])]

/-- The first client gets the second's message over the rest of its own, and the
second gets nothing. -/
theorem two_clients_mixed :
    ¬ ∀ (inherited : List Bool) (labels : List Label) (s : Server),
      Along Server.step Plain (start inherited) labels →
      run Server.step (start inherited) labels = some s → Isolated s.log ∧ NothingDropped s := by
  intro separate
  have observed : (run Server.step (start [true, true, true]) overlap).map
      (fun s => (s.log[9]?, (receivedFrom 0 (s.log.take 9)).getLast?, sentTo 1 s.log)) =
        some (some (.sent 0 [98, 98, 97]), some [97, 97, 97], [[]]) := by
    decide +kernel
  obtain ⟨s, reached, shape⟩ := Option.map_eq_some_iff.mp observed
  simp only [Prod.mk.injEq] at shape
  have plain : Along Server.step Plain (start [true, true, true]) overlap := by decide +kernel
  have last := (separate _ overlap s plain reached).1 9 0 [98, 98, 97] shape.1
  rw [shape.2.1] at last
  exact absurd last (by decide)

end UnixDemos.EpollServer
