/-
# EpollDemo.Network — epoll_server.c and any number of epoll_cli.c

One server, clients numbered in the order in which they are accepted, and a connection
between each and the server.  A connection is a stream of bytes in each direction: what
has been read of it is a prefix of what has been written to it, cut anywhere
(`Network.Reliable`).

Each program keeps its own invariant under conditions on its own steps, and some of what
one assumes the other provides: the bytes the server reads are free of NULs because those
a client reads from its terminal are, and the bytes a client reads from the server are
because the server sends only what it was sent.  What is left as a condition is in
`Orderly`.

Then a byte that a user typed is printed, or it is in one of five places on the way, in
the order in which it was typed (`Connected.accounted`).
-/
import UnixDemos.EpollDemo.ClientModes
import UnixDemos.EpollDemo.ServerEcho

namespace UnixDemos.EpollNetwork

open UnixDemos.Library
open EpollServer (Server File Registered Echo receivedFrom sentTo trace)
open EpollClient (Client Socket InMode Mode readsFrom writesTo stdin stdout)

set_option autoImplicit false

/-! ## The network -/

structure Network where
  server : Server
  clients : Nat → Client

inductive Event where
  | server (label : EpollServer.Label)
  | client (c : Nat) (label : EpollClient.Label)
  deriving DecidableEq, Repr

section Streams

variable (sock : Nat → Socket) (n : Network) (c : Nat)

/-- What client `c` has read from its terminal, and what it has printed. -/
def Network.typed : Bytes := (readsFrom stdin (n.clients c).log).flatten

def Network.printed : Bytes := (writesTo stdout (n.clients c).log).flatten

/-- What client `c` has written to its socket, and what the server has read of it. -/
def Network.written : Bytes := (writesTo (sock c).fd (n.clients c).log).flatten

def Network.received : Bytes := (receivedFrom c n.server.log).flatten

/-- What the server has written to connection `c`, and what client `c` has read of it. -/
def Network.sent : Bytes := (sentTo c n.server.log).flatten

def Network.delivered : Bytes := (readsFrom (sock c).fd (n.clients c).log).flatten

def Network.Reliable : Prop :=
  n.received c <+: n.written sock c ∧ n.delivered sock c <+: n.sent c

instance : Decidable (n.Reliable sock c) := inferInstanceAs (Decidable (_ ∧ _))

/-- The bytes of connection `c` on their way to the server, and back. -/
def Network.up : Bytes := (n.written sock c).drop (n.received c).length

def Network.down : Bytes := (n.sent c).drop (n.delivered sock c).length

end Streams

section Steps

variable (sock : Nat → Socket)

def Network.step (n : Network) : Event → Option Network
  | .server label =>
      match n.server.step label with
      | none => none
      | some server =>
          let n := { n with server := server }
          if ∀ c < server.accepted, n.Reliable sock c then some n else none
  | .client c label =>
      match (n.clients c).step (sock c) label with
      | none => none
      | some client =>
          let n := { n with clients := Function.update n.clients c client }
          if n.Reliable sock c then some n else none

/-- The server before its loop, and every client before its own with `buf` zero. -/
def start (inherited : List Bool) : Network where
  server := EpollServer.start inherited
  clients := fun _ => EpollClient.start (zeros EpollClient.maxSize)

/-- The server's reads do not fill `buf`, its writes are complete, and it reads no client
while another waits for an answer. -/
def OrderlyServer (s : Server) (label : EpollServer.Label) : Prop :=
  EpollServer.Calm s label ∧
    match label with
    | .handle (.read (some data) _) => data.length < EpollServer.maxSize
    | .handle (.write (some nwrite) beyond) => nwrite = (s.text beyond).length
    | _ => True

/-- A client's reads do not fill `buf`, what is typed has no NUL, the client reads its
terminal only between two rounds, and its standard output is one that epoll can watch. -/
def OrderlyClient (sock : Socket) (s : Client) (label : EpollClient.Label) : Prop :=
  EpollClient.InOrder sock s label ∧
    match label with
    | .handle (.read (some data) _) => data.length < EpollClient.maxSize ∧
        ((s.pending.head?.map EpollEvent.fd) = some stdin → NulFree data)
    | _ => True

def Orderly (n : Network) : Event → Prop
  | .server label => OrderlyServer n.server label
  | .client c label => OrderlyClient (sock c) (n.clients c) label

instance (s : Server) : (label : EpollServer.Label) → Decidable (OrderlyServer s label)
  | .epollWait _ => inferInstanceAs (Decidable (_ ∧ True))
  | .handle (.accept _) => inferInstanceAs (Decidable (_ ∧ True))
  | .handle (.read none _) => inferInstanceAs (Decidable (_ ∧ True))
  | .handle (.read (some _) _) => inferInstanceAs (Decidable (_ ∧ _ < _))
  | .handle (.write none _) => inferInstanceAs (Decidable (_ ∧ True))
  | .handle (.write (some _) _) => inferInstanceAs (Decidable (_ ∧ _ = _))

instance (sock : Socket) (s : Client) :
    (label : EpollClient.Label) → Decidable (OrderlyClient sock s label)
  | .epollWait _ => inferInstanceAs (Decidable (_ ∧ True))
  | .handle (.read none _) => inferInstanceAs (Decidable (_ ∧ True))
  | .handle (.read (some _) _) => inferInstanceAs (Decidable (_ ∧ _ < _ ∧ (_ → _)))
  | .handle (.write _ _) => inferInstanceAs (Decidable (_ ∧ True))

instance (n : Network) : (e : Event) → Decidable (Orderly sock n e)
  | .server label => inferInstanceAs (Decidable (OrderlyServer n.server label))
  | .client c label => inferInstanceAs (Decidable (OrderlyClient (sock c) (n.clients c) label))

end Steps

/-! ## What both ends keep -/

structure Connected (sock : Nat → Socket) (n : Network) : Prop where
  registered : Registered n.server
  echo : Echo n.server
  modes : ∀ c, ∃ mode, InMode (sock c) (n.clients c) mode
  typed : ∀ c, NulFree (n.typed c)
  reliable : ∀ c, n.Reliable sock c

section Ends

theorem nulFree_of_before {l l' : Bytes} (before : l <+: l') (free : NulFree l') : NulFree l :=
  fun member => free (before.subset member)

/-- The server's step is plain if what it has read by then is free of NULs. -/
theorem plain_server {s s' : Server} {label : EpollServer.Label}
    (effect : EpollServer.Effect s label s') (orderly : OrderlyServer s label)
    (free : ∀ c, NulFree (receivedFrom c s'.log).flatten) : EpollServer.Plain s label := by
  cases effect with
  | read beyond head client readable nonempty fits =>
      rename_i c data
      refine ⟨fun member => free c ?_, orderly.2⟩
      rw [EpollServer.receivedFrom_append]
      simp [receivedFrom, trace, EpollServer.Io.turn, EpollServer.Turn.received, member]
  | ended beyond head client readable shown =>
      rcases shown with ⟨rfl, -⟩ | ⟨rfl, -⟩
      · trivial
      · exact ⟨List.not_mem_nil, by decide⟩
  | wrote beyond head client writable most => exact orderly.2
  | _ => trivial

variable {sock : Socket} {s s' : Client} {mode : Mode} {label : EpollClient.Label}

/-- A client's step is plain if what it has read from the server by then is free of NULs. -/
theorem plain_client (here : InMode sock s mode) (orderly : OrderlyClient sock s label)
    (step : s.step sock label = some s') (free : NulFree (readsFrom sock.fd s'.log).flatten) :
    EpollClient.Plain s label := by
  rcases here.batch.step step with ⟨ready, rfl, -⟩ | ⟨answer, e, rest, rfl, -, head, handled⟩
  · trivial
  · rcases handled with ⟨isStdin, effect⟩ | ⟨-, chunk, rfl, effect⟩ | ⟨isSock, rfl, effect⟩ |
      ⟨-, chunk, rfl, effect⟩
    · cases effect with
      | failed => trivial
      | ended => exact ⟨List.not_mem_nil, by decide⟩
      | chunk some_bytes fits => exact ⟨orderly.2.2 (by simp [head, isStdin]), orderly.2.1⟩
    · cases effect <;> trivial
    · cases effect with
      | failed => trivial
      | ended => exact ⟨List.not_mem_nil, by decide⟩
      | chunk some_bytes fits =>
          refine ⟨fun member => free ?_, orderly.2.1⟩
          simp [EpollClient.Io.readAt, isSock, member]
    · cases effect <;> trivial

theorem typed_client (here : InMode sock s mode) (orderly : OrderlyClient sock s label)
    (step : s.step sock label = some s') (free : NulFree (readsFrom stdin s.log).flatten) :
    NulFree (readsFrom stdin s'.log).flatten := by
  rcases here.batch.step step with ⟨ready, rfl, -, pending, rfl⟩ |
    ⟨answer, e, rest, rfl, -, head, handled⟩
  · exact free
  · rcases handled with ⟨isStdin, effect⟩ | ⟨-, chunk, rfl, effect⟩ | ⟨isSock, rfl, effect⟩ |
      ⟨-, chunk, rfl, effect⟩
    · cases effect with
      | failed => simpa [EpollClient.Io.readAt] using free
      | ended => simpa [EpollClient.Io.readAt] using free
      | chunk some_bytes fits =>
          have clean := orderly.2.2 (by simp [head, isStdin])
          intro member
          simp only [EpollClient.readsFrom_append, List.flatten_append, List.mem_append] at member
          rcases member with old | new
          · exact free old
          · exact clean (by simpa [EpollClient.Io.readAt, isStdin] using new)
    · cases effect <;> simpa [EpollClient.Io.readAt] using free
    · have other : e.fd ≠ stdin := isSock ▸ EpollClient.sock_ne_stdin sock
      cases effect <;> simpa [EpollClient.Io.readAt, other] using free
    · cases effect <;> simpa [EpollClient.Io.readAt] using free

end Ends

section Invariant

variable {sock : Nat → Socket} {n n' : Network} {c : Nat}

theorem received_within {mode : Mode} (here : InMode (sock c) (n.clients c) mode)
    (reliable : n.Reliable sock c) : n.received c <+: n.typed c := by
  refine reliable.1.trans ?_
  rw [Network.typed, here.requests, List.flatten_append]
  exact List.prefix_append _ _

theorem Connected.sent_within (connected : Connected sock n) (c : Nat) :
    n.sent c <+: n.typed c := by
  obtain ⟨mode, here⟩ := connected.modes c
  exact (connected.echo.sent c).flatten.trans (received_within here (connected.reliable c))

theorem accepted_mono {s s' : Server} {label : EpollServer.Label}
    (effect : EpollServer.Effect s label s') : s.accepted ≤ s'.accepted := by
  cases effect <;> simp

theorem Connected.stepServer (connected : Connected sock n) {label : EpollServer.Label}
    (orderly : OrderlyServer n.server label) (step : n.step sock (.server label) = some n') :
    Connected sock n' := by
  simp only [Network.step] at step
  cases moved : n.server.step label with
  | none => simp [moved] at step
  | some server =>
      simp only [moved] at step
      split at step
      · rename_i checked
        cases step
        have effect := EpollServer.step_effect connected.registered moved
        have registered := effect.registered connected.registered
        have reliable : ∀ c, Network.Reliable sock { n with server := server } c := by
          intro c
          by_cases known : c < server.accepted
          · exact checked c known
          · -- a client that is not accepted yet has sent and received nothing
            have unknown : n.server.accepted ≤ c := by
              have := accepted_mono effect
              omega
            have quiet := connected.registered.fresh c unknown
            have quiet' := registered.fresh c (by omega)
            have delivered := (connected.reliable c).2
            simp only [Network.sent, sentTo, quiet, List.filterMap_nil, List.flatten_nil,
              List.prefix_nil] at delivered
            constructor
            · simp [Network.received, receivedFrom, quiet']
            · change n.delivered sock c <+: _
              rw [delivered]
              exact ⟨_, rfl⟩
        have free : ∀ c, NulFree (receivedFrom c server.log).flatten := by
          intro c
          obtain ⟨mode, here⟩ := connected.modes c
          exact nulFree_of_before
            (@received_within sock { n with server := server } c mode here (reliable c))
            (connected.typed c)
        exact ⟨registered, effect.echo connected.registered connected.echo
          (plain_server effect orderly free) orderly.1, connected.modes, connected.typed, reliable⟩
      · cases step

theorem Connected.stepClient (connected : Connected sock n) {label : EpollClient.Label}
    (orderly : OrderlyClient (sock c) (n.clients c) label)
    (step : n.step sock (.client c label) = some n') : Connected sock n' := by
  simp only [Network.step] at step
  cases moved : (n.clients c).step (sock c) label with
  | none => simp [moved] at step
  | some client =>
      simp only [moved] at step
      split at step
      · rename_i checked
        cases step
        obtain ⟨mode, here⟩ := connected.modes c
        have own : Function.update n.clients c client c = client := Function.update_self ..
        have others {c' : Nat} (other : c' ≠ c) :
            Function.update n.clients c client c' = n.clients c' := Function.update_of_ne other ..
        have delivered : (readsFrom (sock c).fd client.log).flatten <+: n.sent c := by
          have ahead := checked.2
          simp only [Network.delivered, own] at ahead
          exact ahead
        have free := nulFree_of_before (delivered.trans (connected.sent_within c))
          (connected.typed c)
        refine ⟨connected.registered, connected.echo, fun c' => ?_, fun c' => ?_, fun c' => ?_⟩
        · by_cases same : c' = c
          · subst same
            simp only [own]
            exact here.step (plain_client here orderly moved free) orderly.1 moved
          · simp only [others same]
            exact connected.modes c'
        · by_cases same : c' = c
          · subst same
            simp only [Network.typed, own]
            exact typed_client here orderly moved (connected.typed c')
          · simp only [Network.typed, others same]
            exact connected.typed c'
        · by_cases same : c' = c
          · subst same
            exact checked
          · have before := connected.reliable c'
            simp only [Network.Reliable, Network.written, Network.delivered, others same]
              at before ⊢
            exact before
      · cases step

theorem Connected.step (connected : Connected sock n) {e : Event} (orderly : Orderly sock n e)
    (step : n.step sock e = some n') : Connected sock n' := by
  cases e with
  | server label => exact connected.stepServer orderly step
  | client c label => exact connected.stepClient orderly step

/-- What the server has read from connection `c` and still has to send back. -/
def Holds (s : Server) (c : Nat) (held : Bytes) : Prop :=
  held = [] ∨ ∃ fd, s.fds.file fd = some (.client c) ∧ s.interest fd = some epollout ∧
    s.buf = overwrite (zeros EpollServer.maxSize) held

theorem Connected.held (connected : Connected sock n) (c : Nat)
    (clean : .write none ∉ trace c n.server.log) :
    ∃ held, n.received c = n.sent c ++ held ∧ Holds n.server c held := by
  by_cases waits : ∃ fd, n.server.fds.file fd = some (.client c) ∧
      n.server.interest fd = some epollout
  · obtain ⟨fd, client, waiting⟩ := waits
    obtain ⟨data, -, -, buf, owed⟩ := connected.echo.held fd c client waiting
    refine ⟨data, ?_, Or.inr ⟨fd, client, waiting, buf⟩⟩
    simp only [Network.received, Network.sent, owed, List.flatten_append, List.flatten_singleton]
  · have answered := connected.echo.answered c clean fun fd client waiting =>
      waits ⟨fd, client, waiting⟩
    exact ⟨[], by simp only [Network.received, Network.sent, answered, List.append_nil],
      Or.inl rfl⟩

theorem append_drop {l l' : Bytes} (before : l <+: l') : l ++ l'.drop l.length = l' := by
  obtain ⟨rest, rfl⟩ := before
  rw [List.drop_left]

/-- Every byte typed is printed or is in one place on its way. -/
theorem Connected.accounted (connected : Connected sock n) {c : Nat} {mode : Mode}
    (here : InMode (sock c) (n.clients c) mode) {held : Bytes}
    (owed : n.received c = n.sent c ++ held) :
    n.typed c = n.printed c ++ mode.reply.flatten ++ n.down sock c ++ held ++ n.up sock c ++
      mode.request.flatten := by
  have replies : n.delivered sock c = n.printed c ++ mode.reply.flatten := by
    rw [Network.delivered, here.replies, List.flatten_append]
    rfl
  have requests : n.typed c = n.written sock c ++ mode.request.flatten := by
    rw [Network.typed, here.requests, List.flatten_append]
    rfl
  calc n.typed c
      = n.written sock c ++ mode.request.flatten := requests
    _ = n.received c ++ n.up sock c ++ mode.request.flatten := by
        rw [Network.up, append_drop (connected.reliable c).1]
    _ = n.delivered sock c ++ n.down sock c ++ held ++ n.up sock c ++ mode.request.flatten := by
        rw [owed, Network.down, append_drop (connected.reliable c).2]
    _ = _ := by rw [replies]

end Invariant

end UnixDemos.EpollNetwork
