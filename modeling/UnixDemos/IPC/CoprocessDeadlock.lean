/-
# IPC.CoprocessDeadlock — when parent and coprocess wait for each other

The parent waits for a reply to every chunk `fgets` gives it, but sends only the
chunk's C string.  A chunk that starts with a NUL is sent as nothing at all, so
`add2` never answers: both processes stand in `read` on an empty pipe, and each
holds the write end the other one waits for.

* `Awake` is what excludes this while no chunk starts with a NUL: whenever both
  stand in `read`, a message is on its way to one of them;
* `Ready.round` runs one chunk that does not start with a NUL to its end, so the
  first one that does is reached, and then `Waiting.deadlocked`.

Nothing here depends on what the buffers hold or on which calls fail.
-/
import UnixDemos.IPC.Coprocess

namespace UnixDemos.IPC.Coprocess

open UnixDemos.Library
open UnixDemos.IPC.Add2 (maxLine reply answer)

set_option autoImplicit false

/-- Both processes wait in `read` for a message that is not there. -/
def Deadlocked (s : System) : Prop :=
  s.parent = .read ∧ s.replies.flatten = [] ∧ s.child = .read ∧ s.requests.flatten = []

instance (s : System) : Decidable (Deadlocked s) := inferInstanceAs (Decidable (_ ∧ _))

/-- No chunk that `fgets` cuts from the stream starts with a NUL. -/
def NoSilentChunk (stdin : Bytes) : Prop :=
  ∀ chunk ∈ fgetsChunks maxLine stdin, chunk.head? ≠ some 0

section Chunks

variable {stdin chunk rest : Bytes}

theorem noSilentChunk_cons (stored : fgets maxLine stdin = some (chunk, rest)) :
    NoSilentChunk stdin ↔ chunk.head? ≠ some 0 ∧ NoSilentChunk rest := by
  unfold NoSilentChunk
  rw [fgetsChunks_cons (by decide) stored, List.forall_mem_cons]

/-- What the parent sends of a chunk. -/
theorem sent_eq_nil (nonempty : chunk ≠ []) (line : Bytes) :
    cstr (overwrite line (chunk ++ [0])) = [] ↔ chunk.head? = some 0 := by
  cases chunk with
  | nil => exact absurd rfl nonempty
  | cons b more =>
      show cstr (b :: (more ++ [0] ++ _)) = [] ↔ some b = some 0
      rw [cstr_cons_eq_nil, Option.some.injEq]

theorem length_sent_le (short : chunk.length < maxLine) (line : Bytes) :
    (cstr (overwrite line (chunk ++ [0]))).length ≤ maxLine := by
  have atMost := length_cstr_append_nul_le chunk (line.drop (chunk ++ [0]).length)
  rw [overwrite, List.append_assoc, List.singleton_append]
  omega

end Chunks

/-! ## No chunk starts with a NUL -/

/-- While both stand in `read` there is a message for one of them. -/
structure Awake (s : System) : Prop where
  stdin : NoSilentChunk s.stdin
  asks : s.parent = .write → cstr s.parentLine ≠ []
  answers : ∀ text, s.child = .write text → text ≠ []
  waits : s.parent = .read → s.child = .read →
    s.requests.flatten ≠ [] ∨ s.replies.flatten ≠ []

theorem flatten_write_ne_nil {data : Bytes} (nonempty : data ≠ []) (p : Pipe) :
    (Pipe.write p data).flatten ≠ [] := by
  simp [Pipe.write, nonempty]

section Steps

variable {s s' : System}

theorem Awake.parent (awake : Awake s) (effect : ParentEffect s s') : Awake s' := by
  cases effect with
  | exits code => exact { awake with asks := nofun, waits := nofun }
  | fails quiet code => exact { awake with asks := nofun, waits := nofun }
  | fgets pc stored =>
      obtain ⟨speaks, later⟩ := (noSilentChunk_cons stored).mp awake.stdin
      have nonempty := (fgets_spec (by decide) stored).2.1
      exact { awake with
        stdin := later
        asks := fun _ nothing => speaks ((sent_eq_nil nonempty _).mp nothing)
        waits := nofun }
  | writes pc =>
      exact { awake with
        asks := nofun
        waits := fun _ _ => Or.inl (flatten_write_ne_nil (awake.asks pc) _) }
  | reads pc nonempty returned => exact { awake with asks := nofun, waits := nofun }
  | overruns pc stored => exact { awake with asks := nofun, waits := nofun }
  | terminates pc stored => exact { awake with asks := nofun, waits := nofun }
  | fputs pc => exact { awake with asks := nofun, waits := nofun }

theorem Awake.child (awake : Awake s) (effect : ChildEffect s s') : Awake s' := by
  cases effect with
  | exits how => exact { awake with answers := nofun, waits := nofun }
  | fails quiet how => exact { awake with answers := nofun, waits := nofun }
  | reads pc nonempty returned => exact { awake with answers := nofun, waits := nofun }
  | overruns pc stored => exact { awake with answers := nofun, waits := nofun }
  | terminates pc stored => exact { awake with answers := nofun, waits := nofun }
  | answers pc =>
      refine { awake with answers := ?_, waits := nofun }
      rintro text ⟨rfl⟩
      rw [Add2.answer_text]
      exact Add2.reply_ne_nil _
  | writes pc =>
      exact { awake with
        answers := nofun
        waits := fun _ _ => Or.inr (flatten_write_ne_nil (awake.answers _ pc) _) }

theorem run_awake {moves : List Move} (awake : Awake s)
    (reached : run System.step s moves = some s') : Awake s' := by
  refine run_invariant System.step Awake ?_ awake reached
  rintro s ⟨who, fails⟩ s' awake step
  cases who with
  | parent => exact awake.parent (stepParent_effect step)
  | child => exact awake.child (stepChild_effect step)

theorem Awake.not_deadlocked (awake : Awake s) : ¬ Deadlocked s := by
  rintro ⟨parent, noReply, child, noRequest⟩
  rcases awake.waits parent child with request | answer
  · exact request noRequest
  · exact answer noReply

end Steps

/-! ## A chunk that starts with a NUL -/

/-- What decides which steps are possible: the rest of standard input, both
program counters and both pipes. -/
structure At (rest : Bytes) (parent : ParentPc) (child : ChildPc) (requests replies : Pipe)
    (s : System) : Prop where
  stdin : s.stdin = rest
  parent : s.parent = parent
  child : s.child = child
  requests : s.requests = requests
  replies : s.replies = replies

section Round

variable {s : System} {stdin rest chunk text line : Bytes}

/-- `fgets` and `write`, whatever the chunk is. -/
theorem At.asks (here : At stdin .fgets .read [] [] s)
    (stored : fgets maxLine stdin = some (chunk, rest)) :
    Leads System.step s (At rest .read .read
      (Pipe.write [] (cstr (overwrite s.parentLine (chunk ++ [0])))) []) := by
  have got : fgets maxLine s.stdin = some (chunk, rest) := here.stdin ▸ stored
  have alive : s.child.running = true := by rw [here.child]; rfl
  refine leads_step ⟨.parent, false⟩ (t := { s with
    stdin := rest
    parentLine := overwrite s.parentLine (chunk ++ [0])
    parent := .write }) (by simp [System.step, stepParent, here.parent, got]) ?_
  refine leads_step ⟨.parent, false⟩ (by simp [System.step, stepParent, alive]; rfl) ?_
  apply leads_here
  constructor <;> simp [System.note, here.child, here.requests, here.replies]

/-- A turn of `add2` on a message that is there; the reply may be to any string. -/
theorem At.answers (here : At rest .read .read [text] [] s) (nonempty : text ≠ [])
    (short : text.length ≤ maxLine) :
    Leads System.step s fun t => ∃ line, At rest .read .read [] [reply line] t := by
  have some_byte : text.length ≠ 0 := fun empty => nonempty (List.length_eq_zero_iff.mp empty)
  have alive : s.parent.running = true := by rw [here.parent]; rfl
  have message : s.requests.read maxLine true = some (text, []) := by
    rw [here.requests]
    exact Pipe.read_single nonempty short true
  -- from `line[n] = 0` on, with whatever the store did
  have reply : ∀ (line : Bytes) (outside : Bool) (log : List Io),
      Leads System.step
        { s with
          childLine := line
          outside := outside
          log := log
          requests := []
          child := .answer }
        fun t => ∃ line, At rest .read .read [] [reply line] t := by
    intro line outside log
    refine leads_step ⟨.child, false⟩ rfl ?_
    refine leads_step ⟨.child, false⟩ (by simp [System.step, stepChild, alive]; rfl) ?_
    refine leads_here ⟨cstr line, ?_⟩
    constructor <;> simp [here.stdin, here.parent, here.replies, Add2.answer_text,
      Pipe.write_empty (Add2.reply_ne_nil _)]
  refine leads_step ⟨.child, false⟩ (t := { s.note (.add2Read text) with
    childLine := overwrite s.childLine text
    requests := []
    child := .terminate text.length })
    (by simp [System.step, stepChild, here.child, alive, message, some_byte]) ?_
  cases stored : store (overwrite s.childLine text) text.length 0 with
  | none =>
      refine leads_step ⟨.child, false⟩ ?_ (reply (overwrite s.childLine text) true
        (s.log ++ [.add2Read text]))
      simp [System.step, stepChild, stored, System.note]
  | some line =>
      refine leads_step ⟨.child, false⟩ ?_ (reply line s.outside (s.log ++ [.add2Read text]))
      simp [System.step, stepChild, stored, System.note]

/-- The parent takes the reply and prints it. -/
theorem At.shows (here : At rest .read .read [] [reply line] s) :
    Leads System.step s (At rest .fgets .read [] []) := by
  have some_byte : (reply line).length ≠ 0 :=
    fun empty => Add2.reply_ne_nil line (List.length_eq_zero_iff.mp empty)
  have alive : s.child.running = true := by rw [here.child]; rfl
  have message : s.replies.read maxLine true = some (reply line, []) := by
    rw [here.replies]
    exact Pipe.read_single (Add2.reply_ne_nil line)
      (Nat.le_trans (Add2.length_reply_le line) (by decide)) true
  have print : ∀ (shown : Bytes) (outside : Bool),
      Leads System.step
        { s with parentLine := shown, outside := outside, replies := [], parent := .fputs }
        (At rest .fgets .read [] []) := by
    intro shown outside
    refine leads_step ⟨.parent, false⟩ rfl (leads_here ?_)
    constructor <;> simp [System.note, here.stdin, here.child, here.requests]
  refine leads_step ⟨.parent, false⟩ (t := { s with
    parentLine := overwrite s.parentLine (reply line)
    replies := []
    parent := .terminate (reply line).length })
    (by simp [System.step, stepParent, here.parent, alive, message, some_byte]) ?_
  cases stored : store (overwrite s.parentLine (reply line)) (reply line).length 0 with
  | none =>
      refine leads_step ⟨.parent, false⟩ ?_ (print (overwrite s.parentLine (reply line)) true)
      simp [System.step, stepParent, stored]
  | some shown =>
      refine leads_step ⟨.parent, false⟩ ?_ (print shown s.outside)
      simp [System.step, stepParent, stored]

/-- One chunk that does not start with a NUL, from `fgets` to the next `fgets`. -/
theorem At.round (here : At stdin .fgets .read [] [] s)
    (stored : fgets maxLine stdin = some (chunk, rest)) (speaks : chunk.head? ≠ some 0) :
    Leads System.step s (At rest .fgets .read [] []) := by
  obtain ⟨-, some_byte, short⟩ := fgets_spec (by decide) stored
  have nonempty := mt (sent_eq_nil some_byte s.parentLine).mp speaks
  apply (here.asks stored).trans
  intro t asked
  rw [Pipe.write_empty nonempty] at asked
  apply (asked.answers nonempty (length_sent_le short _)).trans
  rintro u ⟨line, answered⟩
  exact answered.shows

/-- A chunk that starts with a NUL is sent as nothing. -/
theorem At.deadlocks (here : At stdin .fgets .read [] [] s)
    (stored : fgets maxLine stdin = some (chunk, rest)) (silent : chunk.head? = some 0) :
    Leads System.step s Deadlocked := by
  obtain ⟨-, some_byte, -⟩ := fgets_spec (by decide) stored
  have nothing := (sent_eq_nil some_byte s.parentLine).mpr silent
  apply (here.asks stored).trans
  intro t asked
  rw [nothing] at asked
  refine leads_here ⟨asked.parent, ?_, asked.child, ?_⟩
  · rw [asked.replies]
    rfl
  · rw [asked.requests]
    rfl

/-- The first chunk that starts with a NUL is reached by rounds. -/
theorem At.reaches_deadlock (here : At stdin .fgets .read [] [] s)
    (silent : ¬ NoSilentChunk stdin) : Leads System.step s Deadlocked := by
  induction left : stdin.length using Nat.strong_induction_on generalizing stdin s with
  | _ left ih =>
      cases call : fgets maxLine stdin with
      | none =>
          have empty := fgets_eq_none call
          subst empty
          refine absurd ?_ silent
          intro chunk member
          rw [fgetsChunks_nil] at member
          cases member
      | some stored =>
          obtain ⟨chunk, rest⟩ := stored
          by_cases first : chunk.head? = some 0
          · exact here.deadlocks call first
          · apply (here.round call first).trans
            intro t next
            have later : ¬ NoSilentChunk rest :=
              fun all => silent ((noSilentChunk_cons call).mpr ⟨first, all⟩)
            exact ih rest.length (left ▸ fgets_smaller (by decide) _ _ _ call) next later rfl

end Round

/-! ## Result -/

/-- **Deadlock exactly at a silent chunk.**  Whatever the buffers hold at first,
no schedule and no pattern of failing calls leads both processes to wait for each
other if and only if no chunk that `fgets` cuts from standard input starts with a
NUL. -/
theorem deadlock_free_iff (stdin parentLine childLine : Bytes) :
    (∀ moves s, run System.step (start stdin parentLine childLine) moves = some s →
      ¬ Deadlocked s) ↔ NoSilentChunk stdin := by
  constructor
  · intro free
    by_contra silent
    have begin : At stdin .fgets .read [] [] (start stdin parentLine childLine) :=
      ⟨rfl, rfl, rfl, rfl, rfl⟩
    obtain ⟨moves, s, reached, stuck⟩ := begin.reaches_deadlock silent
    exact free moves s reached stuck
  · intro speaks moves s reached
    have awake : Awake (start stdin parentLine childLine) := ⟨speaks, nofun, nofun, nofun⟩
    exact (run_awake awake reached).not_deadlocked

/-- A line that consists of a NUL and its newline. -/
theorem nul_line_deadlocks :
    ∃ moves s, run System.step (start [0, 10] (zeros maxLine) (zeros maxLine)) moves = some s ∧
      Deadlocked s := by
  have observed : (run System.step (start [0, 10] (zeros maxLine) (zeros maxLine))
      [⟨.parent, false⟩, ⟨.parent, false⟩]).map (fun s => decide (Deadlocked s)) = some true := by
    decide +kernel
  obtain ⟨s, reached, stuck⟩ := Option.map_eq_some_iff.mp observed
  exact ⟨_, s, reached, of_decide_eq_true stuck⟩

end UnixDemos.IPC.Coprocess
