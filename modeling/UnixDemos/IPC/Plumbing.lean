/-
# IPC.Plumbing — coprocess.c and pipe_pager.c: who holds which end of a pipe

Both programs open pipes, fork, close the ends they do not need and move the rest of
the child's to its standard descriptors.  A pipe reads as end of file, and a write to it
breaks, once no process holds the other end, so a forgotten `close` would leave the other
side waiting for ever.

The descriptors the program starts with are arbitrary: with standard input closed the
first pipe itself gets number 0, and `coprocess` then must not move it.  `pipe` numbers
ascend (`Piped.ascending`), which is why the two `dup2` of a child never overwrite an end
that is still needed.  The theorems say which ends each process holds, for every table to
start with.
-/
import UnixDemos.Library.Descriptor

namespace UnixDemos.IPC.Plumbing

open UnixDemos.Library

set_option autoImplicit false

/-! ## Pipes and moved descriptors -/

/-- What a descriptor stands for: a file opened without a pipe, or one end of a pipe. -/
inductive File (φ π : Type) where
  | plain (f : φ)
  | readEnd (p : π)
  | writeEnd (p : π)
  deriving DecidableEq, Repr

section Calls

variable {φ π : Type}

/-- The table the program starts with. -/
def inherited (t : FdTable φ) : FdTable (File φ π) := t.map (Option.map .plain)

/-- `pipe(fd)`: the table and `fd[0]`, `fd[1]`. -/
def pipe (t : FdTable (File φ π)) (p : π) : FdTable (File φ π) × Nat × Nat :=
  let reading := t.install (.readEnd p)
  (reading.install (.writeEnd p), t.lowestFree, reading.lowestFree)

/-- `if (dup2(fd, target) != target) { perror(text); exit(-1); }` -/
def dup2OrExit (t : FdTable (File φ π)) (fd target : Nat) (text : String) :
    Except String (FdTable (File φ π)) :=
  match t.dup2 fd target with
  | none => .error text
  | some t => .ok t

/-- The same under `if (fd != target)`. -/
def moveTo (t : FdTable (File φ π)) (fd target : Nat) (text : String) :
    Except String (FdTable (File φ π)) :=
  if fd ≠ target then dup2OrExit t fd target text else .ok t

/-- After `fork`; the child's `exit(-1)` has the text of its `perror`. -/
structure Forked (φ π : Type) where
  parent : FdTable (File φ π)
  child : Except String (FdTable (File φ π))
  deriving DecidableEq

/-- Some descriptor of the process stands for `file`. -/
def Holds (t : FdTable (File φ π)) (file : File φ π) : Prop := ∃ fd, t.file fd = some file

end Calls

/-! ## The programs -/

section Programs

variable {φ : Type}

inductive Channel where
  | requests
  | replies
  deriving DecidableEq, Repr

/-- The child of `coprocess` up to its `execl`. -/
def coprocessChild (t : FdTable (File φ Channel)) (fd1 fd2 : Nat × Nat) :
    Except String (FdTable (File φ Channel)) := do
  let t := (t.close fd1.2).close fd2.1
  let t ← moveTo t fd1.1 0 "dup2 error to stdin"
  moveTo t fd2.2 1 "dup2 error to stdout"

/-- `false` is a call that fails. -/
structure CoprocessAnswers where
  pipe1 : Bool
  pipe2 : Bool
  fork : Bool

/-- `coprocess` up to the parent's loop and the child's `execl`. -/
def coprocess (answers : CoprocessAnswers) (t : FdTable φ) : Except String (Forked φ Channel) :=
  if answers.pipe1 = false then .error "pipe error"
  else
    let (t, fd1) := pipe (inherited t) .requests
    if answers.pipe2 = false then .error "pipe error"
    else
      let (t, fd2) := pipe t .replies
      if answers.fork = false then .error "fork error"
      else .ok ⟨(t.close fd1.1).close fd2.2, coprocessChild t fd1 fd2⟩

/-- The child of `pipe_pager` up to its `execl`. -/
def pagerChild (t : FdTable (File φ Unit)) (fd : Nat × Nat) :
    Except String (FdTable (File φ Unit)) := do
  let t := t.close fd.2
  if fd.1 ≠ 0 then
    let t ← dup2OrExit t fd.1 0 "dup2 error"
    pure (t.close fd.1)
  else pure t

/-- `fopen` has the opened file. -/
structure PagerAnswers (φ : Type) where
  fopen : Option φ
  pipe : Bool
  fork : Bool

/-- `pipe_pager` up to the parent's loop and the child's `execl`. -/
def pager (answers : PagerAnswers φ) (t : FdTable φ) : Except String (Forked φ Unit) :=
  match answers.fopen with
  | none => .error "fopen error"
  | some f =>
      let t := t.install f
      if answers.pipe = false then .error "pipe error"
      else
        let (t, fd) := pipe (inherited t) ()
        if answers.fork = false then .error "fork error"
        else .ok ⟨t.close fd.1, pagerChild t fd⟩

end Programs

/-! ## What the calls do -/

section Calls

variable {φ π : Type}

theorem file_inherited (t : FdTable φ) (fd : Nat) :
    (inherited t : FdTable (File φ π)).file fd = (t.file fd).map .plain := by
  unfold inherited FdTable.file
  rw [List.getElem?_map]
  rcases t[fd]? with _ | _ | _ <;> rfl

/-- Table `after` is `before` with a new pipe `p` in `fd`. -/
structure Piped (before : FdTable (File φ π)) (p : π) (after : FdTable (File φ π))
    (fd : Nat × Nat) : Prop where
  ascending : fd.1 < fd.2
  freeRead : before.file fd.1 = none
  freeWrite : before.file fd.2 = none
  usedBelow : ∀ i < fd.2, after.file i ≠ none
  read : after.file fd.1 = some (.readEnd p)
  write : after.file fd.2 = some (.writeEnd p)
  other : ∀ i, i ≠ fd.1 → i ≠ fd.2 → after.file i = before.file i

theorem piped_pipe (t : FdTable (File φ π)) (p : π) :
    Piped t p (pipe t p).1 (pipe t p).2 := by
  have ascending : t.lowestFree < (t.install (.readEnd p)).lowestFree :=
    FdTable.lowestFree_lt_install _
  have keeps : ∀ i, i ≠ (t.install (.readEnd p)).lowestFree →
      (pipe t p).1.file i = (t.install (.readEnd p)).file i :=
    fun i other => FdTable.file_install_of_ne _ other
  exact {
    ascending
    freeRead := FdTable.file_lowestFree
    freeWrite := by
      have free := FdTable.file_lowestFree (t := t.install (.readEnd p))
      rwa [FdTable.file_install_of_ne _ (Nat.ne_of_gt ascending)] at free
    usedBelow := fun i below => by
      rw [keeps i (Nat.ne_of_lt below)]
      exact FdTable.file_of_lt_lowestFree below
    read := (keeps _ (Nat.ne_of_lt ascending)).trans (FdTable.file_install_self _)
    write := FdTable.file_install_self _
    other := fun i notRead notWrite => by
      rw [keeps i notWrite, FdTable.file_install_of_ne _ notRead] }

/-- A second pipe lies above the first. -/
theorem Piped.above {t t' t'' : FdTable (File φ π)} {p q : π} {fd fd' : Nat × Nat}
    (first : Piped t p t' fd) (second : Piped t' q t'' fd') : fd.2 < fd'.1 := by
  by_contra notAbove
  rcases Nat.lt_or_eq_of_le (Nat.le_of_not_lt notAbove) with below | same
  · exact first.usedBelow _ below second.freeRead
  · have free := second.freeRead
    rw [same, first.write] at free
    cases free

theorem dup2OrExit_open {t : FdTable (File φ π)} {fd : Nat} {file : File φ π}
    (here : t.file fd = some file) (target : Nat) (text : String) :
    dup2OrExit t fd target text = .ok (t.put target file) := by
  simp only [dup2OrExit, FdTable.dup2, here, Option.map_some]

/-- An open descriptor can be moved, and its target is all that changes. -/
theorem moveTo_open {t : FdTable (File φ π)} {fd : Nat} {file : File φ π}
    (here : t.file fd = some file) (target : Nat) (text : String) :
    ∃ t', moveTo t fd target text = .ok t' ∧ t'.file target = some file ∧
      ∀ i, i ≠ target → t'.file i = t.file i := by
  by_cases same : fd = target
  · exact ⟨t, if_neg (not_not.mpr same), same ▸ here, fun i _ => rfl⟩
  · exact ⟨t.put target file, (if_pos same).trans (dup2OrExit_open here target text),
      FdTable.file_put_self target file, fun i other => FdTable.file_put_of_ne file other⟩

end Calls

/-! ## The coprocess -/

section Coprocess

variable {φ : Type}

/-- How the two processes of `coprocess` are connected, if the program started with `t`. -/
structure Connected (t : FdTable φ) (parent child : FdTable (File φ Channel)) : Prop where
  stdin : child.file 0 = some (.readEnd .requests)
  stdout : child.file 1 = some (.writeEnd .replies)
  parentReads : ∀ p, Holds parent (.readEnd p) ↔ p = .replies
  parentWrites : ∀ p, Holds parent (.writeEnd p) ↔ p = .requests
  childReads : ∀ p, Holds child (.readEnd p) ↔ p = .requests
  childWrites : ∀ p, Holds child (.writeEnd p) ↔ p = .replies
  parentKeeps : ∀ fd f, t.file fd = some f → parent.file fd = some (.plain f)
  childKeeps : ∀ fd f, 2 ≤ fd → t.file fd = some f → child.file fd = some (.plain f)
  /-- The parent's output goes to the coprocess if the program starts without standard
  input and output. -/
  looped : parent.file 1 = some (.writeEnd .requests) ↔ t.file 0 = none ∧ t.file 1 = none

/-- Two pipes on top of an inherited table. -/
structure TwoPipes (t : FdTable φ) (both : FdTable (File φ Channel)) (fd1 fd2 : Nat × Nat) :
    Prop where
  lower : fd1.1 < fd1.2
  between : fd1.2 < fd2.1
  upper : fd2.1 < fd2.2
  requestsRead : both.file fd1.1 = some (.readEnd .requests)
  requestsWrite : both.file fd1.2 = some (.writeEnd .requests)
  repliesRead : both.file fd2.1 = some (.readEnd .replies)
  repliesWrite : both.file fd2.2 = some (.writeEnd .replies)
  plain : ∀ i, i ≠ fd1.1 → i ≠ fd1.2 → i ≠ fd2.1 → i ≠ fd2.2 →
    both.file i = (t.file i).map .plain
  free : ∀ i, i = fd1.1 ∨ i = fd1.2 ∨ i = fd2.1 ∨ i = fd2.2 → t.file i = none
  usedBelow : ∀ i < fd1.2, i ≠ fd1.1 → t.file i ≠ none

theorem twoPipes (t : FdTable φ) {once both : FdTable (File φ Channel)} {fd1 fd2 : Nat × Nat}
    (first : Piped (inherited t) .requests once fd1) (second : Piped once .replies both fd2) :
    TwoPipes t both fd1 fd2 := by
  have lower := first.ascending
  have between := first.above second
  have upper := second.ascending
  have inheritedFree : ∀ i, (inherited t : FdTable (File φ Channel)).file i = none →
      t.file i = none := fun i free => by
    rw [file_inherited] at free
    exact Option.map_eq_none_iff.mp free
  have lateFree : ∀ i, fd1.2 < i → once.file i = none → t.file i = none :=
    fun i late free => by
      rw [first.other i (by omega) (by omega)] at free
      exact inheritedFree i free
  exact {
    lower, between, upper
    requestsRead := by rw [second.other _ (by omega) (by omega), first.read]
    requestsWrite := by rw [second.other _ (by omega) (by omega), first.write]
    repliesRead := second.read
    repliesWrite := second.write
    plain := fun i a b c d => by rw [second.other i c d, first.other i a b, file_inherited]
    free := by
      rintro i (rfl | rfl | rfl | rfl)
      · exact inheritedFree _ first.freeRead
      · exact inheritedFree _ first.freeWrite
      · exact lateFree _ between second.freeRead
      · exact lateFree _ (by omega) second.freeWrite
    usedBelow := fun i below notRead free => by
      refine first.usedBelow i below ?_
      rw [first.other i notRead (by omega), file_inherited, free]
      rfl }

namespace TwoPipes

variable {t : FdTable φ} {both : FdTable (File φ Channel)} {fd1 fd2 : Nat × Nat}
  (pipes : TwoPipes t both fd1 fd2)

include pipes

/-- A number the program started with is not one of the pipes'. -/
theorem plain_of_file {i : Nat} {f : φ} (here : t.file i = some f) :
    (i ≠ fd1.1 ∧ i ≠ fd1.2 ∧ i ≠ fd2.1 ∧ i ≠ fd2.2) ∧ both.file i = some (.plain f) := by
  have inUse : t.file i ≠ none := by
    rw [here]
    exact Option.some_ne_none f
  have apart : i ≠ fd1.1 ∧ i ≠ fd1.2 ∧ i ≠ fd2.1 ∧ i ≠ fd2.2 :=
    ⟨fun eq => inUse (pipes.free i (.inl eq)), fun eq => inUse (pipes.free i (.inr (.inl eq))),
      fun eq => inUse (pipes.free i (.inr (.inr (.inl eq)))),
      fun eq => inUse (pipes.free i (.inr (.inr (.inr eq))))⟩
  refine ⟨apart, ?_⟩
  rw [pipes.plain i apart.1 apart.2.1 apart.2.2.1 apart.2.2.2, here]
  rfl

/-- Descriptors that stand for an end of a pipe are the pipes' own. -/
theorem fd_of_end {i : Nat} {file : File φ Channel} (here : both.file i = some file)
    (notPlain : ∀ f, file ≠ .plain f) :
    (i = fd1.1 ∧ file = .readEnd .requests) ∨ (i = fd1.2 ∧ file = .writeEnd .requests) ∨
      (i = fd2.1 ∧ file = .readEnd .replies) ∨ (i = fd2.2 ∧ file = .writeEnd .replies) := by
  have found : ∀ {fd : Nat} {file' : File φ Channel}, both.file fd = some file' → i = fd →
      i = fd ∧ file = file' := fun there same => by
    subst same
    exact ⟨rfl, Option.some.inj (here.symm.trans there)⟩
  by_cases r1 : i = fd1.1
  · exact .inl (found pipes.requestsRead r1)
  by_cases w1 : i = fd1.2
  · exact .inr (.inl (found pipes.requestsWrite w1))
  by_cases r2 : i = fd2.1
  · exact .inr (.inr (.inl (found pipes.repliesRead r2)))
  by_cases w2 : i = fd2.2
  · exact .inr (.inr (.inr (found pipes.repliesWrite w2)))
  rw [pipes.plain i r1 w1 r2 w2] at here
  obtain ⟨f, -, same⟩ := Option.map_eq_some_iff.mp here
  exact absurd same.symm (notPlain f)

/-- The parent keeps the write end of the requests and the read end of the replies. -/
theorem parent_end {file : File φ Channel} (notPlain : ∀ f, file ≠ .plain f) :
    Holds ((both.close fd1.1).close fd2.2) file ↔
      file = .writeEnd .requests ∨ file = .readEnd .replies := by
  have lower := pipes.lower
  have between := pipes.between
  have upper := pipes.upper
  simp only [Holds, FdTable.file_close_eq_some_iff]
  constructor
  · rintro ⟨i, notWrite, notRead, here⟩
    rcases pipes.fd_of_end here notPlain with r1 | w1 | r2 | w2
    · exact absurd r1.1 notRead
    · exact .inl w1.2
    · exact .inr r2.2
    · exact absurd w2.1 notWrite
  · rintro (rfl | rfl)
    · exact ⟨fd1.2, by omega, by omega, pipes.requestsWrite⟩
    · exact ⟨fd2.1, by omega, by omega, pipes.repliesRead⟩

/-- Neither `dup2` of the child fails, and the second leaves the first alone. -/
theorem coprocessChild_ok : ∃ child, coprocessChild both fd1 fd2 = .ok child ∧
    child.file 0 = some (.readEnd .requests) ∧ child.file 1 = some (.writeEnd .replies) ∧
    ∀ i, 2 ≤ i → child.file i = ((both.close fd1.2).close fd2.1).file i := by
  have lower := pipes.lower
  have between := pipes.between
  have upper := pipes.upper
  have readEnd : ((both.close fd1.2).close fd2.1).file fd1.1 = some (.readEnd .requests) :=
    FdTable.file_close_eq_some_iff.mpr
      ⟨by omega, FdTable.file_close_eq_some_iff.mpr ⟨by omega, pipes.requestsRead⟩⟩
  have writeEnd : ((both.close fd1.2).close fd2.1).file fd2.2 = some (.writeEnd .replies) :=
    FdTable.file_close_eq_some_iff.mpr
      ⟨by omega, FdTable.file_close_eq_some_iff.mpr ⟨by omega, pipes.repliesWrite⟩⟩
  obtain ⟨moved, move1, zero, others⟩ := moveTo_open readEnd 0 "dup2 error to stdin"
  have kept : moved.file fd2.2 = some (.writeEnd .replies) :=
    (others _ (by omega)).trans writeEnd
  obtain ⟨child, move2, one, others'⟩ := moveTo_open kept 1 "dup2 error to stdout"
  refine ⟨child, ?_, ?_, one, fun i high => ?_⟩
  · unfold coprocessChild
    dsimp only
    rw [move1]
    exact move2
  · rw [others' 0 (by omega), zero]
  · rw [others' i (by omega), others i (by omega)]

theorem child_end {child : FdTable (File φ Channel)}
    (zero : child.file 0 = some (.readEnd .requests))
    (one : child.file 1 = some (.writeEnd .replies))
    (others : ∀ i, 2 ≤ i → child.file i = ((both.close fd1.2).close fd2.1).file i)
    {file : File φ Channel} (notPlain : ∀ f, file ≠ .plain f) :
    Holds child file ↔ file = .readEnd .requests ∨ file = .writeEnd .replies := by
  constructor
  · rintro ⟨i, here⟩
    match i with
    | 0 => exact .inl (Option.some.inj (here.symm.trans zero))
    | 1 => exact .inr (Option.some.inj (here.symm.trans one))
    | i + 2 =>
        rw [others (i + 2) (by omega)] at here
        simp only [FdTable.file_close_eq_some_iff] at here
        obtain ⟨notRead, notWrite, here⟩ := here
        rcases pipes.fd_of_end here notPlain with r1 | w1 | r2 | w2
        · exact .inl r1.2
        · exact absurd w1.1 notWrite
        · exact absurd r2.1 notRead
        · exact .inr w2.2
  · rintro (rfl | rfl)
    · exact ⟨0, zero⟩
    · exact ⟨1, one⟩

/-- The parent's number 1 is a pipe's only if 0 and 1 were the lowest free numbers. -/
theorem looped_iff : ((both.close fd1.1).close fd2.2).file 1 = some (.writeEnd .requests) ↔
    t.file 0 = none ∧ t.file 1 = none := by
  have lower := pipes.lower
  have between := pipes.between
  have upper := pipes.upper
  simp only [FdTable.file_close_eq_some_iff]
  constructor
  · rintro ⟨-, notRead, here⟩
    have second : 1 = fd1.2 := by
      rcases pipes.fd_of_end here (fun f => by simp) with r1 | w1 | r2 | w2
      · exact absurd r1.1 notRead
      · exact w1.1
      · cases r2.2
      · cases w2.2
    exact ⟨pipes.free 0 (.inl (by omega)), pipes.free 1 (.inr (.inl second))⟩
  · rintro ⟨free0, free1⟩
    have first : fd1.1 = 0 := by
      by_contra notZero
      exact pipes.usedBelow 0 (by omega) (Ne.symm notZero) free0
    have second : fd1.2 = 1 := by
      by_contra notOne
      exact pipes.usedBelow 1 (by omega) (by omega) free1
    exact ⟨by omega, by omega, second ▸ pipes.requestsWrite⟩

theorem connected : ∃ child, coprocessChild both fd1 fd2 = .ok child ∧
    Connected t ((both.close fd1.1).close fd2.2) child := by
  obtain ⟨child, ok, zero, one, others⟩ := pipes.coprocessChild_ok
  refine ⟨child, ok, ?_⟩
  exact {
    stdin := zero
    stdout := one
    parentReads := fun p => (pipes.parent_end (by simp)).trans (by simp)
    parentWrites := fun p => (pipes.parent_end (by simp)).trans (by simp)
    childReads := fun p => (pipes.child_end zero one others (by simp)).trans (by simp)
    childWrites := fun p => (pipes.child_end zero one others (by simp)).trans (by simp)
    parentKeeps := fun fd f here => by
      obtain ⟨⟨r1, _, _, w2⟩, kept⟩ := pipes.plain_of_file here
      rw [FdTable.file_close_of_ne w2, FdTable.file_close_of_ne r1, kept]
    childKeeps := fun fd f high here => by
      obtain ⟨⟨_, w1, r2, _⟩, kept⟩ := pipes.plain_of_file here
      rw [others fd high, FdTable.file_close_of_ne r2, FdTable.file_close_of_ne w1, kept]
    looped := pipes.looped_iff }

end TwoPipes

/-- Whatever descriptors the program starts with, a `coprocess` that gets through its
`fork` has a child that reads the requests on standard input and writes the replies to
standard output.  Each end of each pipe is held by one process only, so each side sees
when the other is gone. -/
theorem coprocess_connected {answers : CoprocessAnswers} {t : FdTable φ}
    {forked : Forked φ Channel} (ready : coprocess answers t = .ok forked) :
    ∃ child, forked.child = .ok child ∧ Connected t forked.parent child := by
  have pipes := twoPipes t (piped_pipe (inherited t) Channel.requests)
    (piped_pipe _ Channel.replies)
  unfold coprocess at ready
  split at ready
  · cases ready
  · dsimp only at ready
    split at ready
    · cases ready
    · split at ready
      · cases ready
      · cases ready
        exact pipes.connected

/-- Started without standard input and output, the parent prints into the requests. -/
theorem coprocess_connected_noStdio :
    ∃ forked child, coprocess ⟨true, true, true⟩ [none, none, some "tty"] = .ok forked ∧
      forked.parent = [none, some (.writeEnd .requests), some (.plain "tty"),
        some (.readEnd .replies), none] ∧
      Connected [none, none, some "tty"] forked.parent child := by
  obtain ⟨child, -, connected⟩ :=
    @coprocess_connected String ⟨true, true, true⟩ [none, none, some "tty"] _ rfl
  exact ⟨_, child, rfl, by decide +kernel, connected⟩

end Coprocess

/-! ## The pager -/

section Pager

variable {φ : Type}

/-- How the two processes of `pipe_pager` are connected, if the program started with `t`
and opened `f`. -/
structure Feeds (t : FdTable φ) (f : φ) (parent child : FdTable (File φ Unit)) : Prop where
  source : parent.file t.lowestFree = some (.plain f)
  parentReads : ¬ Holds parent (.readEnd ())
  parentWrites : Holds parent (.writeEnd ())
  childReads : ∀ fd, child.file fd = some (.readEnd ()) ↔ fd = 0
  childWrites : ¬ Holds child (.writeEnd ())
  parentKeeps : ∀ fd g, t.file fd = some g → parent.file fd = some (.plain g)
  childKeeps : ∀ fd g, fd ≠ 0 → t.file fd = some g → child.file fd = some (.plain g)

section OnePipe

variable {opened : FdTable φ} {after : FdTable (File φ Unit)} {fd : Nat × Nat}
  (piped : Piped (inherited opened) () after fd)

include piped

theorem Piped.plain_of_file {i : Nat} {f : φ} (here : opened.file i = some f) :
    (i ≠ fd.1 ∧ i ≠ fd.2) ∧ after.file i = some (.plain f) := by
  have there : (inherited opened : FdTable (File φ Unit)).file i = some (.plain f) := by
    rw [file_inherited, here]
    rfl
  have notRead : i ≠ fd.1 := fun same => by
    rw [same, piped.freeRead] at there
    cases there
  have notWrite : i ≠ fd.2 := fun same => by
    rw [same, piped.freeWrite] at there
    cases there
  exact ⟨⟨notRead, notWrite⟩, (piped.other i notRead notWrite).trans there⟩

theorem Piped.fd_of_end {i : Nat} {file : File φ Unit} (here : after.file i = some file)
    (notPlain : ∀ f, file ≠ .plain f) :
    (i = fd.1 ∧ file = .readEnd ()) ∨ (i = fd.2 ∧ file = .writeEnd ()) := by
  by_cases notRead : i = fd.1
  · exact .inl ⟨notRead, Option.some.inj (here.symm.trans (notRead ▸ piped.read))⟩
  by_cases notWrite : i = fd.2
  · exact .inr ⟨notWrite, Option.some.inj (here.symm.trans (notWrite ▸ piped.write))⟩
  rw [piped.other i notRead notWrite, file_inherited] at here
  obtain ⟨f, -, same⟩ := Option.map_eq_some_iff.mp here
  exact absurd same.symm (notPlain f)

/-- `fopen` has taken number 0 if it was free, so the pipe never has it. -/
theorem Piped.pagerChild_ok (zeroUsed : opened.file 0 ≠ none) :
    pagerChild after fd = .ok (((after.close fd.2).put 0 (.readEnd ())).close fd.1) ∧
      fd.1 ≠ 0 := by
  have notZero : fd.1 ≠ 0 := fun zero => by
    have free := piped.freeRead
    rw [zero, file_inherited] at free
    exact zeroUsed (Option.map_eq_none_iff.mp free)
  have ascending := piped.ascending
  have readEnd : (after.close fd.2).file fd.1 = some (.readEnd ()) :=
    FdTable.file_close_eq_some_iff.mpr ⟨by omega, piped.read⟩
  refine ⟨?_, notZero⟩
  unfold pagerChild
  dsimp only
  rw [if_pos notZero, dup2OrExit_open readEnd]
  rfl

end OnePipe

theorem file_zero_install (t : FdTable φ) (f : φ) : (t.install f).file 0 ≠ none := by
  by_cases zero : 0 = t.lowestFree
  · rw [zero, FdTable.file_install_self]
    exact Option.some_ne_none f
  · rw [FdTable.file_install_of_ne f zero]
    exact FdTable.file_of_lt_lowestFree (by omega)

theorem file_install_of_file {t : FdTable φ} {i : Nat} {g : φ} (here : t.file i = some g)
    (f : φ) : (t.install f).file i = some g := by
  have other : i ≠ t.lowestFree := fun same => by
    rw [same, FdTable.file_lowestFree] at here
    cases here
  rw [FdTable.file_install_of_ne f other, here]

theorem Piped.feeds {t : FdTable φ} {f : φ} {after : FdTable (File φ Unit)} {fd : Nat × Nat}
    (piped : Piped (inherited (t.install f)) () after fd) :
    ∃ child, pagerChild after fd = .ok child ∧ Feeds t f (after.close fd.1) child := by
  obtain ⟨ok, notZero⟩ := piped.pagerChild_ok (file_zero_install t f)
  have ascending := piped.ascending
  refine ⟨_, ok, ?_⟩
  exact {
    source := by
      obtain ⟨⟨notRead, -⟩, kept⟩ := piped.plain_of_file (FdTable.file_install_self (t := t) f)
      rw [FdTable.file_close_of_ne notRead, kept]
    parentReads := by
      rintro ⟨i, here⟩
      obtain ⟨notRead, here⟩ := FdTable.file_close_eq_some_iff.mp here
      rcases piped.fd_of_end here (by simp) with read | write
      · exact notRead read.1
      · cases write.2
    parentWrites :=
      ⟨fd.2, FdTable.file_close_eq_some_iff.mpr ⟨by omega, piped.write⟩⟩
    childReads := fun i => by
      rw [FdTable.file_close_eq_some_iff]
      constructor
      · rintro ⟨notRead, here⟩
        by_contra other
        rw [FdTable.file_put_of_ne _ other] at here
        rcases piped.fd_of_end (FdTable.file_close_eq_some_iff.mp here).2 (by simp) with
          read | write
        · exact notRead read.1
        · cases write.2
      · rintro rfl
        exact ⟨Ne.symm notZero, FdTable.file_put_self 0 _⟩
    childWrites := by
      rintro ⟨i, here⟩
      obtain ⟨-, here⟩ := FdTable.file_close_eq_some_iff.mp here
      by_cases zero : i = 0
      · rw [zero, FdTable.file_put_self] at here
        cases here
      rw [FdTable.file_put_of_ne _ zero] at here
      obtain ⟨notWrite, here⟩ := FdTable.file_close_eq_some_iff.mp here
      rcases piped.fd_of_end here (by simp) with read | write
      · cases read.2
      · exact notWrite write.1
    parentKeeps := fun i g here => by
      obtain ⟨⟨notRead, -⟩, kept⟩ := piped.plain_of_file (file_install_of_file here f)
      rw [FdTable.file_close_of_ne notRead, kept]
    childKeeps := fun i g other here => by
      obtain ⟨⟨notRead, notWrite⟩, kept⟩ := piped.plain_of_file (file_install_of_file here f)
      rw [FdTable.file_close_of_ne notRead, FdTable.file_put_of_ne _ other,
        FdTable.file_close_of_ne notWrite, kept] }

/-- The pager reads the pipe on standard input and nowhere else, no process but the
parent can write to it, and the parent cannot read it: the pager sees end of file as soon
as the parent closes its end. -/
theorem pager_feeds {answers : PagerAnswers φ} {t : FdTable φ} {forked : Forked φ Unit}
    (ready : pager answers t = .ok forked) :
    ∃ f child, answers.fopen = some f ∧ forked.child = .ok child ∧
      Feeds t f forked.parent child := by
  unfold pager at ready
  split at ready
  · cases ready
  · rename_i f opened
    dsimp only at ready
    split at ready
    · cases ready
    · split at ready
      · cases ready
      · cases ready
        obtain ⟨child, ok, feeds⟩ := (piped_pipe (inherited (t.install f)) ()).feeds
        exact ⟨f, child, opened, ok, feeds⟩

/-- Started without standard input: `fopen` gets number 0. -/
theorem pager_feeds_noStdin :
    ∃ forked f child, pager ⟨some "text", true, true⟩ [none, some "tty", some "tty"] = .ok forked ∧
      forked.child =
        .ok [some (.readEnd ()), some (.plain "tty"), some (.plain "tty"), none, none] ∧
      Feeds [none, some "tty", some "tty"] f forked.parent child := by
  obtain ⟨f, child, -, -, feeds⟩ :=
    @pager_feeds String ⟨some "text", true, true⟩ [none, some "tty", some "tty"] _ rfl
  exact ⟨_, f, child, rfl, by decide +kernel, feeds⟩

end Pager

end UnixDemos.IPC.Plumbing
