/-
# IPC.MmapDemo — mmap_demo.c: a file copied through shared mappings

`main` opens the source, opens (and by that empties) the destination, takes the size of
the source, stretches the destination to it and copies chunk after chunk, each through
one mapping of either file.  The page size and `COPYINCR` are parameters, and `Answers`
says which calls fail of those that could succeed.

The sizes are as in C: `off_t` is signed, `copysz` is a `size_t`, and `fsz += copysz` is
done unsigned and stored signed.  None of it wraps (`copySize_eq`, `advance_eq`).

* `Copied` is the loop's invariant: the source is as it was, and the destination has its
  size and its front as far as `fsz`;
* `Tiled` is the invariant of the calls to `mmap` when none of them fails;
* the source is emptied by the second `open` if the second name leads to it then, and by
  nothing else.

When the source is open it has the names of its descriptor as well, such as `/dev/fd/3`,
so a name that led nowhere before can lead to it (`sourceOpened`).
-/
import UnixDemos.Library.CInt
import UnixDemos.Library.FileSystem
import UnixDemos.Library.Tiles

namespace UnixDemos.IPC.MmapDemo

open UnixDemos.Library

set_option autoImplicit false

/-! ## The program -/

/-- `COPYINCR`. -/
def copyIncr : Int := 1024 * 1024 * 1024

inductive Fd where
  | fdin
  | fdout
  deriving DecidableEq, Repr

inductive Io where
  | mmap (fd : Fd) (range : Range)
  | perror (text : String)
  | fprintf (text : String)
  deriving DecidableEq, Repr

inductive Exit where
  | status (code : Int)
  | sigbus
  deriving DecidableEq, Repr

/-- `false` is a call that fails; `fdNames` are the names of the first descriptor, `fresh`
is the inode of a file that is created, and a call to `mmap` is known by its descriptor and
its offset. -/
structure Answers (ι : Type) where
  openIn : Bool
  fdNames : String → Bool
  openOut : Bool
  fresh : ι
  fstat : Bool
  ftruncate : Bool
  mmap : Fd → Int → Bool

structure State (ι : Type) where
  fs : FileSystem String ι
  fsz : Int
  log : List Io

variable {ι : Type} [DecidableEq ι]

def State.start (fs : FileSystem String ι) : State ι := { fs, fsz := 0, log := [] }

def State.note (s : State ι) (io : Io) : State ι := { s with log := s.log ++ [io] }

/-- `copysz`. -/
def copySize (incr stSize fsz : Int) : Int :=
  if wrap64 (stSize - fsz) > incr then toSize incr else toSize (wrap64 (stSize - fsz))

/-- `fsz += copysz`. -/
def advance (fsz copysz : Int) : Int := wrap64 (toSize (toSize fsz + copysz))

/-- `mmap` refuses a range without bytes and an offset inside a page. -/
def mmap (page : Int) (answers : Answers ι) (fd : Fd) (range : Range) : Bool :=
  decide (range.length ≠ 0) && decide (range.start % page = 0) && answers.mmap fd range.start

/-- The body of the loop. -/
def copyChunk (page incr : Int) (answers : Answers ι) (fdin fdout : ι) (stSize : Int)
    (s : State ι) : State ι × Option Exit :=
  let copysz := copySize incr stSize s.fsz
  let range : Range := ⟨s.fsz, copysz⟩
  let s := s.note (.mmap .fdin range)
  if mmap page answers .fdin range = false then
    (s.note (.perror "mmap error"), some (.status (-1)))
  else
    let s := s.note (.mmap .fdout range)
    if mmap page answers .fdout range = false then
      (s.note (.perror "mmap error"), some (.status (-1)))
    else
      match s.fs.memcpy fdout fdin s.fsz.toNat copysz.toNat with
      | none => (s, some .sigbus)
      | some fs => ({ s with fs, fsz := advance s.fsz copysz }, none)

/-- The loop; `none` is a loop that is not done after `fuel` rounds. -/
def copyLoop (page incr : Int) (answers : Answers ι) (fdin fdout : ι) (stSize : Int) :
    Nat → State ι → Option (State ι × Exit)
  | 0, s => if s.fsz < stSize then none else some (s, .status 0)
  | fuel + 1, s =>
      if s.fsz < stSize then
        match copyChunk page incr answers fdin fdout stSize s with
        | (s, some exit) => some (s, exit)
        | (s, none) => copyLoop page incr answers fdin fdout stSize fuel s
      else some (s, .status 0)

/-- `main` behind the two calls to `open`. -/
def copyFile (page incr : Int) (answers : Answers ι) (fuel : Nat) (fdin fdout : ι) (s : State ι) :
    Option (State ι × Exit) :=
  match answers.fstat, s.fs.fstat fdin with
  | true, some stSize =>
      match answers.ftruncate, s.fs.ftruncate fdout stSize with
      | true, some fs => copyLoop page incr answers fdin fdout stSize fuel { s with fs }
      | _, _ => some (s.note (.perror "ftruncate error"), .status (-1))
  | _, _ => some (s.note (.perror "fstat error"), .status (-1))

def main (page incr : Int) (answers : Answers ι) (fuel : Nat) (argv : List String)
    (fs : FileSystem String ι) : Option (State ι × Exit) :=
  let s := State.start fs
  match argv with
  | [_, src, dst] =>
      match answers.openIn, fs.lookup src with
      | true, some fdin =>
          let fs := fs.appear answers.fdNames fdin
          match answers.openOut, fs.openTruncate dst answers.fresh with
          | true, some (fs, fdout) => copyFile page incr answers fuel fdin fdout { s with fs }
          | _, _ => some (s.note (.perror "open error"), .status (-1))
      | _, _ => some (s.note (.perror "open error"), .status (-1))
  | _ =>
      let usage := "Usage: " ++ argv.headD "(null)" ++ " <srcfile> <dstfile>\n"
      some (s.note (.fprintf usage), .status 127)

/-! ## One chunk -/

section Sizes

variable {incr stSize fsz : Int}

theorem copySize_eq (positive : 0 < incr) (nonneg : 0 ≤ fsz) (more : fsz < stSize)
    (fits : stSize < 2 ^ 63) : copySize incr stSize fsz = min incr (stSize - fsz) := by
  unfold copySize
  rw [wrap64_of_mem (by omega) (by omega)]
  split
  · rw [toSize_of_mem (by omega) (by omega)]
    omega
  · rw [toSize_of_mem (by omega) (by omega)]
    omega

theorem advance_eq {copysz : Int} (nonneg : 0 ≤ fsz) (some_bytes : 0 ≤ copysz)
    (fits : fsz + copysz < 2 ^ 63) : advance fsz copysz = fsz + copysz := by
  unfold advance
  rw [toSize_of_mem nonneg (by omega), toSize_of_mem (by omega) (by omega),
    wrap64_of_mem (by omega) fits]

end Sizes

/-- The source is as it was, the destination has its size and its first `fsz` bytes, and
no name has changed.  A file that is copied to itself has nothing in it. -/
structure Copied (fdin fdout : ι) (file : File) (fs : FileSystem String ι) (s : State ι) :
    Prop where
  nonneg : 0 ≤ s.fsz
  upto : s.fsz ≤ file.size
  names : s.fs.names = fs.names
  own : fdin = fdout → file = .empty
  source : s.fs.files fdin = some file
  target : ∃ out, s.fs.files fdout = some out ∧ out.bytes.length = file.bytes.length ∧
    out.bytes.take s.fsz.toNat = file.bytes.take s.fsz.toNat

/-- The calls to `mmap` on a descriptor. -/
def mapped (fd : Fd) (log : List Io) : List Range :=
  log.filterMap fun
    | .mmap fd' range => if fd' = fd then some range else none
    | _ => none

/-- The calls so far tile the front of the file, and the next one will be at the start of
a page if there is one. -/
structure Tiled (page stSize : Int) (s : State ι) : Prop where
  aligned : page ∣ s.fsz ∨ s.fsz = stSize
  starts : ∀ fd, ∀ r ∈ mapped fd s.log, page ∣ r.start
  tiles : ∀ fd, Tiles 0 s.fsz (mapped fd s.log)

section Chunk

variable {page incr : Int} {answers : Answers ι} {fdin fdout : ι} {file : File}
  {fs : FileSystem String ι} {s : State ι}

/-- The state after a chunk of `n` bytes was copied. -/
def State.copied (s : State ι) (fdout : ι) (out : File) (n : Int) : State ι where
  fs := s.fs.write fdout out
  fsz := s.fsz + n
  log := s.log ++ [.mmap .fdin ⟨s.fsz, n⟩, .mmap .fdout ⟨s.fsz, n⟩]

/-- What a round can do: one of the maps is refused, and no file changes, or the chunk is
copied. -/
theorem copyChunk_cases (positive : 0 < incr) (copied : Copied fdin fdout file fs s)
    (more : s.fsz < file.size) :
    let n := min incr (file.size - s.fsz)
    (∃ fd log, mmap page answers fd ⟨s.fsz, n⟩ = false ∧
      copyChunk page incr answers fdin fdout file.size s =
        ({ s with log }, some (.status (-1)))) ∨
    ∃ out, copyChunk page incr answers fdin fdout file.size s = (s.copied fdout out n, none) ∧
      Copied fdin fdout file fs (s.copied fdout out n) := by
  intro n
  have nonneg := copied.nonneg
  have different : fdin ≠ fdout := by
    intro same
    rw [copied.own same] at more
    exact absurd more (Int.not_lt.mpr nonneg)
  have fits := file.size_lt
  have copysz : copySize incr file.size s.fsz = n := copySize_eq positive nonneg more fits
  have bounds : 0 < n ∧ s.fsz + n ≤ file.size := by omega
  simp only [copyChunk, copysz]
  by_cases mapIn : mmap page answers .fdin ⟨s.fsz, n⟩ = false
  · exact .inl ⟨.fdin, _, mapIn, if_pos mapIn⟩
  rw [if_neg mapIn]
  by_cases mapOut : mmap page answers .fdout ⟨s.fsz, n⟩ = false
  · exact .inl ⟨.fdout, _, mapOut, if_pos mapOut⟩
  rw [if_neg mapOut]
  right
  obtain ⟨old, present, size, agree⟩ := copied.target
  have inside : s.fsz.toNat + n.toNat ≤ file.bytes.length := by
    have := bounds.2
    unfold File.size at this
    omega
  obtain ⟨out, stored, length, front⟩ :=
    FileSystem.memcpy_write copied.source present inside size agree
  have upto : (s.fsz + n).toNat = s.fsz.toNat + n.toNat := by omega
  refine ⟨out, ?_, ?_⟩
  · simp only [State.note, stored, State.copied]
    rw [advance_eq nonneg (by omega) (by omega), List.append_assoc, List.singleton_append]
  · exact {
      nonneg := by
        show 0 ≤ s.fsz + n
        omega
      upto := bounds.2
      names := copied.names
      own := copied.own
      source := (FileSystem.files_write_of_ne _ _ different).trans copied.source
      target := ⟨out, FileSystem.files_write_self .., length, by
        show out.bytes.take (s.fsz + n).toNat = _
        rw [upto, front]
        show _ = file.bytes.take (s.fsz + n).toNat
        rw [upto]⟩ }

omit [DecidableEq ι] in
/-- With an answer for every call, a chunk that starts at a page is mapped. -/
theorem mmap_of_aligned (grants : ∀ fd offset, answers.mmap fd offset = true) {range : Range}
    (nonempty : 0 < range.length) (aligned : page ∣ range.start) (fd : Fd) :
    mmap page answers fd range = true := by
  have some_bytes : range.length ≠ 0 := by omega
  simp [mmap, grants, some_bytes, Int.emod_eq_zero_of_dvd aligned]

theorem mapped_copied (fd : Fd) (out : File) (n : Int) :
    mapped fd (s.copied fdout out n).log = mapped fd s.log ++ [⟨s.fsz, n⟩] := by
  cases fd <;> simp [mapped, State.copied]

theorem Tiled.copied (tiled : Tiled page file.size s) (multiple : page ∣ incr) (positive : 0 < incr)
    (more : s.fsz < file.size) (out : File) :
    Tiled page file.size (s.copied fdout out (min incr (file.size - s.fsz))) := by
  have here : page ∣ s.fsz := tiled.aligned.resolve_right (by omega)
  refine ⟨?_, fun fd r member => ?_, fun fd => ?_⟩
  · show page ∣ s.fsz + _ ∨ s.fsz + _ = _
    by_cases last : file.size - s.fsz ≤ incr
    · right
      omega
    · left
      have whole : min incr (file.size - s.fsz) = incr := by omega
      rw [whole]
      exact Int.dvd_add here multiple
  · rw [mapped_copied, List.mem_append, List.mem_singleton] at member
    rcases member with old | rfl
    · exact tiled.starts fd r old
    · exact here
  · rw [mapped_copied]
    exact (tiled.tiles fd).snoc (by omega)

end Chunk

/-! ## The loop -/

section Loop

variable {page incr : Int} {answers : Answers ι} {fdin fdout : ι}

theorem copyLoop_finished {stSize : Int} {s : State ι} (finished : ¬ s.fsz < stSize) (fuel : Nat) :
    copyLoop page incr answers fdin fdout stSize fuel s = some (s, .status 0) := by
  cases fuel <;> exact if_neg finished

/-- An invariant that every round keeps or leaves by an exit, and a size that grows in
every round: the loop returns. -/
theorem copyLoop_rule {stSize : Int} {invariant : State ι → Prop} {post : State ι → Exit → Prop}
    (done : ∀ s, invariant s → ¬ s.fsz < stSize → post s (.status 0))
    (round : ∀ s, invariant s → s.fsz < stSize →
      (∃ s' exit, copyChunk page incr answers fdin fdout stSize s = (s', some exit) ∧
        post s' exit) ∨
      ∃ s', copyChunk page incr answers fdin fdout stSize s = (s', none) ∧ invariant s' ∧
        s.fsz < s'.fsz)
    {fuel : Nat} {s : State ι} (holds : invariant s) (enough : (stSize - s.fsz).toNat ≤ fuel) :
    ∃ s' exit, copyLoop page incr answers fdin fdout stSize fuel s = some (s', exit) ∧
      post s' exit := by
  induction fuel generalizing s with
  | zero =>
      have finished : ¬ s.fsz < stSize := by omega
      exact ⟨s, .status 0, copyLoop_finished finished 0, done s holds finished⟩
  | succ fuel ih =>
      by_cases more : s.fsz < stSize
      · rw [copyLoop, if_pos more]
        rcases round s holds more with ⟨s', exit, left, after⟩ | ⟨s', kept, again, grown⟩
        · exact ⟨s', exit, by rw [left], after⟩
        · rw [kept]
          exact ih again (by omega)
      · exact ⟨s, .status 0, copyLoop_finished more _, done s holds more⟩

end Loop

/-- The program exited with the source, and every name, as they were. -/
structure Kept (fdin : ι) (file : File) (fs : FileSystem String ι) (s : State ι) (exit : Exit) :
    Prop where
  exits : ∃ code, exit = .status code
  names : s.fs.names = fs.names
  source : s.fs.files fdin = some file

/-- The program returned with a copy of the source, having mapped either file piece by
piece. -/
structure Whole (page : Int) (fdin fdout : ι) (file : File) (fs : FileSystem String ι)
    (s : State ι) (exit : Exit) : Prop where
  returns : exit = .status 0
  names : s.fs.names = fs.names
  source : s.fs.files fdin = some file
  target : s.fs.files fdout = some file
  starts : ∀ fd, ∀ r ∈ mapped fd s.log, page ∣ r.start
  ranges : ∀ fd, Partition 0 file.size (mapped fd s.log)

section Runs

variable {page incr : Int} {answers : Answers ι} {fdin fdout : ι} {file out : File}
  {fs : FileSystem String ι} {s : State ι} {fuel : Nat}

/-- `ftruncate` stretches the destination to the size of the source, and the loop starts
with nothing copied. -/
theorem copied_start (source : fs.files fdin = some file) (present : fs.files fdout = some out)
    (own : fdin = fdout → file = .empty) :
    ∃ fs', fs.ftruncate fdout file.size = some fs' ∧
      Copied fdin fdout file fs { State.start fs with fs := fs' } := by
  obtain ⟨stretched, cut, length⟩ := out.truncate_size file
  refine ⟨fs.write fdout stretched, ?_, ?_⟩
  · rw [FileSystem.ftruncate_write _ present, cut, Option.map_some]
  · exact {
      nonneg := Int.le_refl 0
      upto := file.size_nonneg
      names := rfl
      own := own
      source := by
        by_cases same : fdin = fdout
        · obtain rfl := own same
          have nothing : stretched = .empty := File.ext_bytes (List.length_eq_zero_iff.mp length)
          rw [same, nothing]
          exact FileSystem.files_write_self ..
        · exact (FileSystem.files_write_of_ne _ _ same).trans source
      target := ⟨stretched, FileSystem.files_write_self .., length, rfl⟩ }

omit [DecidableEq ι] in
theorem tiled_start (fs fs' : FileSystem String ι) :
    Tiled page file.size { State.start fs with fs := fs' } where
  aligned := .inl (Int.dvd_zero page)
  starts _ _ member := absurd member List.not_mem_nil
  tiles _ := .nil 0

omit [DecidableEq ι] in
theorem Copied.rounds (copied : Copied fdin fdout file fs s) (enough : file.bytes.length ≤ fuel) :
    (file.size - s.fsz).toNat ≤ fuel := by
  have := copied.nonneg
  unfold File.size
  omega

omit [DecidableEq ι] in
/-- At the end of the loop the two files are the same. -/
theorem Copied.whole (copied : Copied fdin fdout file fs s) (finished : ¬ s.fsz < file.size) :
    s.fsz = file.size ∧ s.fs.files fdout = some file := by
  have all : s.fsz = file.size := by
    have := copied.upto
    omega
  obtain ⟨out, present, length, front⟩ := copied.target
  have count : s.fsz.toNat = file.bytes.length := by
    unfold File.size at all
    omega
  rw [count, List.take_length, ← length, List.take_length] at front
  exact ⟨all, by rw [present, File.ext_bytes front]⟩

theorem fsz_lt_copied (positive : 0 < incr) (more : s.fsz < file.size) :
    s.fsz < (s.copied fdout out (min incr (file.size - s.fsz))).fsz := by
  show s.fsz < s.fsz + _
  omega

/-- Whatever fails, the loop returns and the source is as it was. -/
theorem copyLoop_keeps (positive : 0 < incr) (copied : Copied fdin fdout file fs s)
    (enough : file.bytes.length ≤ fuel) :
    ∃ s' exit, copyLoop page incr answers fdin fdout file.size fuel s = some (s', exit) ∧
      Kept fdin file fs s' exit := by
  refine copyLoop_rule (fun s' inv _ => ⟨⟨0, rfl⟩, inv.names, inv.source⟩) ?_ copied
    (copied.rounds enough)
  intro s' inv more
  rcases copyChunk_cases positive inv more with ⟨fd, log, -, refused⟩ | ⟨out, next, again⟩
  · exact .inl ⟨_, _, refused, ⟨⟨_, rfl⟩, inv.names, inv.source⟩⟩
  · exact .inr ⟨_, next, again, fsz_lt_copied positive more⟩

/-- If no map fails, the loop copies the whole file. -/
theorem copyLoop_copies (positive : 0 < incr) (multiple : page ∣ incr)
    (grants : ∀ fd offset, answers.mmap fd offset = true) (copied : Copied fdin fdout file fs s)
    (tiled : Tiled page file.size s) (enough : file.bytes.length ≤ fuel) :
    ∃ s' exit, copyLoop page incr answers fdin fdout file.size fuel s = some (s', exit) ∧
      Whole page fdin fdout file fs s' exit := by
  have done : ∀ s' : State ι, Copied fdin fdout file fs s' ∧ Tiled page file.size s' →
      ¬ s'.fsz < file.size → Whole page fdin fdout file fs s' (.status 0) := by
    rintro s' ⟨inv, tiled⟩ finished
    obtain ⟨all, target⟩ := inv.whole finished
    exact ⟨rfl, inv.names, inv.source, target, tiled.starts,
      fun fd => all ▸ (tiled.tiles fd).partition⟩
  refine copyLoop_rule done ?_ ⟨copied, tiled⟩ (copied.rounds enough)
  rintro s' ⟨inv, tiled⟩ more
  rcases copyChunk_cases positive inv more with ⟨fd, log, refused, -⟩ | ⟨out, next, again⟩
  · have here : page ∣ s'.fsz := tiled.aligned.resolve_right (by omega)
    rw [mmap_of_aligned grants (by show 0 < min _ _; omega) here] at refused
    cases refused
  · exact .inr ⟨_, next, ⟨again, tiled.copied multiple positive more out⟩,
      fsz_lt_copied positive more⟩

/-- Behind the calls to `open`, whatever fails: the source stays as it is. -/
theorem copyFile_keeps (positive : 0 < incr) (source : fs.files fdin = some file)
    (present : fs.files fdout = some out) (own : fdin = fdout → file = .empty)
    (enough : file.bytes.length ≤ fuel) :
    ∃ s exit, copyFile page incr answers fuel fdin fdout (State.start fs) = some (s, exit) ∧
      Kept fdin file fs s exit := by
  have stat : (State.start fs).fs.fstat fdin = some file.size := by
    rw [State.start, FileSystem.fstat, source, Option.map_some]
  obtain ⟨fs', truncated, copied⟩ := copied_start source present own
  have truncates : (State.start fs).fs.ftruncate fdout file.size = some fs' := truncated
  have kept : ∀ io code, Kept fdin file fs ((State.start fs).note io) (.status code) :=
    fun _ code => ⟨⟨code, rfl⟩, rfl, source⟩
  unfold copyFile
  rw [stat]
  cases answers.fstat with
  | false => exact ⟨_, _, rfl, kept _ _⟩
  | true =>
      dsimp only
      rw [truncates]
      cases answers.ftruncate with
      | false => exact ⟨_, _, rfl, kept _ _⟩
      | true => exact copyLoop_keeps positive copied enough

/-- No call fails. -/
structure Answers.Grants (answers : Answers ι) : Prop where
  fstat : answers.fstat = true
  ftruncate : answers.ftruncate = true
  mmap : ∀ fd offset, answers.mmap fd offset = true

theorem copyFile_copies (positive : 0 < incr) (multiple : page ∣ incr) (grants : answers.Grants)
    (source : fs.files fdin = some file) (present : fs.files fdout = some out)
    (different : fdin ≠ fdout) (enough : file.bytes.length ≤ fuel) :
    ∃ s exit, copyFile page incr answers fuel fdin fdout (State.start fs) = some (s, exit) ∧
      Whole page fdin fdout file fs s exit := by
  obtain ⟨fs', truncated, copied⟩ :=
    copied_start source present (fun same => absurd same different)
  have loop : copyFile page incr answers fuel fdin fdout (State.start fs) =
      copyLoop page incr answers fdin fdout file.size fuel { State.start fs with fs := fs' } := by
    simp only [copyFile, State.start, FileSystem.fstat, source, Option.map_some, truncated,
      grants.fstat, grants.ftruncate]
  rw [loop]
  exact copyLoop_copies positive multiple grants.mmap copied (tiled_start fs fs') enough

end Runs

/-! ## The program on two names -/

/-- The file system in which the second `open` is made. -/
def sourceOpened (answers : Answers ι) (fs : FileSystem String ι) (src : String) :
    FileSystem String ι :=
  match fs.lookup src with
  | some fdin => fs.appear answers.fdNames fdin
  | none => fs

/-- Both calls to `open` succeed. -/
structure Answers.Opens (answers : Answers ι) (fs : FileSystem String ι) (src dst : String) :
    Prop where
  openIn : answers.openIn = true
  found : (fs.lookup src).isSome
  openOut : answers.openOut = true
  opened : ((sourceOpened answers fs src).openTruncate dst answers.fresh).isSome

section Main

variable {page incr : Int} {answers : Answers ι} {fs : FileSystem String ι} {file : File}
  {prog src dst : String} {fuel : Nat}

/-- The descriptors, and the file system the rest of `main` starts from. -/
theorem main_opened (page incr : Int) (fuel : Nat) (prog : String)
    (opens : answers.Opens fs src dst) :
    ∃ fdin fdout fs', fs.lookup src = some fdin ∧
      (sourceOpened answers fs src).lookup src = some fdin ∧
      (sourceOpened answers fs src).files = fs.files ∧
      (sourceOpened answers fs src).openTruncate dst answers.fresh = some (fs', fdout) ∧
      main page incr answers fuel [prog, src, dst] fs =
        copyFile page incr answers fuel fdin fdout (State.start fs') := by
  obtain ⟨fdin, found⟩ := Option.isSome_iff_exists.mp opens.found
  obtain ⟨⟨fs', fdout⟩, opened⟩ := Option.isSome_iff_exists.mp opens.opened
  have names : sourceOpened answers fs src = fs.appear answers.fdNames fdin := by
    rw [sourceOpened, found]
  rw [names] at opened ⊢
  refine ⟨fdin, fdout, fs', found, ?_, rfl, opened, ?_⟩
  · exact FileSystem.lookup_extends (FileSystem.extends_appear fs _ _) found
  · simp only [main, opens.openIn, opens.openOut, found, opened, State.start]

/-- What the second `open` leaves of the source. -/
theorem source_opened {fs' : FileSystem String ι} {fdin fdout fresh : ι}
    (opened : fs.openTruncate dst fresh = some (fs', fdout)) (before : fs.files fdin = some file) :
    ∃ left, fs'.files fdin = some left ∧ left.bytes.length ≤ file.bytes.length ∧
      (fdin = fdout → left = .empty) ∧ (left = file ↔ fdin ≠ fdout ∨ file.bytes = []) := by
  obtain ⟨emptied, others⟩ := FileSystem.files_openTruncate opened
  by_cases same : fdin = fdout
  · refine ⟨.empty, same ▸ emptied, Nat.zero_le _, fun _ => rfl, ?_⟩
    constructor
    · rintro rfl
      exact .inr rfl
    · rintro (apart | nothing)
      · exact absurd same apart
      · exact File.ext_bytes nothing.symm
  · refine ⟨file, (others fdin same).trans before, Nat.le_refl _, fun own => absurd own same, ?_⟩
    exact ⟨fun _ => .inl same, fun _ => rfl⟩

/-- **The copy.**  If no call fails and the second name does not lead to the source when it
is opened, `main` returns 0 with a copy of the source under the second name and the source
unchanged.  On either descriptor it has mapped ranges that start at a page and divide the
file up. -/
theorem mmap_copies (positive : 0 < incr) (multiple : page ∣ incr)
    (opens : answers.Opens fs src dst) (grants : answers.Grants)
    (different : (sourceOpened answers fs src).lookup dst ≠ fs.lookup src)
    (contents : fs.contents src = some file) (enough : file.bytes.length ≤ fuel) :
    ∃ s, main page incr answers fuel [prog, src, dst] fs = some (s, .status 0) ∧
      (∀ fd, (∀ r ∈ mapped fd s.log, page ∣ r.start) ∧
        Partition 0 file.size (mapped fd s.log)) ∧
      s.fs.contents dst = some file ∧ s.fs.contents src = some file := by
  obtain ⟨fdin, fdout, fs', found, stays, files, opened, run⟩ :=
    main_opened page incr fuel prog opens
  rw [found, ← stays] at different
  have apart : fdin ≠ fdout :=
    mt (FileSystem.lookup_eq_iff_openTruncate opened stays).mpr different
  obtain ⟨emptied, others⟩ := FileSystem.files_openTruncate opened
  obtain ⟨target, still⟩ := FileSystem.lookup_openTruncate opened
  rw [FileSystem.contents_of_lookup found, ← files, ← others fdin apart] at contents
  obtain ⟨s, exit, returns, whole⟩ :=
    copyFile_copies positive multiple grants contents emptied apart enough
  have named : ∀ path, s.fs.lookup path = fs'.lookup path :=
    fun path => FileSystem.lookup_congr whole.names
  refine ⟨s, ?_, fun fd => ⟨whole.starts fd, whole.ranges fd⟩, ?_, ?_⟩
  · rw [run, returns, whole.returns]
  · rw [FileSystem.contents_of_lookup ((named dst).trans target), whole.target]
  · rw [FileSystem.contents_of_lookup ((named src).trans (still src fdin stays)), whole.source]

/-- **The source.**  Whatever fails behind the two calls to `open`, `main` exits, and the
source is what it was exactly if the second name did not lead to it when the second call was
made, or it was empty. -/
theorem source_kept_iff (positive : 0 < incr) (opens : answers.Opens fs src dst)
    (contents : fs.contents src = some file) (enough : file.bytes.length ≤ fuel) :
    ∃ s code, main page incr answers fuel [prog, src, dst] fs = some (s, .status code) ∧
      (s.fs.contents src = fs.contents src ↔
        (sourceOpened answers fs src).lookup dst ≠ fs.lookup src ∨ file.bytes = []) := by
  obtain ⟨fdin, fdout, fs', found, stays, files, opened, run⟩ :=
    main_opened page incr fuel prog opens
  have aliased := FileSystem.lookup_eq_iff_openTruncate opened stays
  have still := (FileSystem.lookup_openTruncate opened).2 src fdin stays
  have before : (sourceOpened answers fs src).files fdin = some file := by
    rw [files, ← FileSystem.contents_of_lookup found, contents]
  obtain ⟨left, present, short, own, iff⟩ := source_opened opened before
  obtain ⟨s, exit, returns, ⟨code, rfl⟩, names, source⟩ := copyFile_keeps positive present
    (FileSystem.files_openTruncate opened).1 own (short.trans enough)
  have after : s.fs.contents src = some left := by
    rw [FileSystem.contents_of_lookup ((FileSystem.lookup_congr names).trans still), source]
  refine ⟨s, code, run.trans returns, ?_⟩
  rw [after, contents, Option.some.injEq, iff, found, ← stays]
  exact or_congr_left (not_congr aliased).symm

end Main

def nineBytes : File := ⟨[1, 2, 3, 4, 5, 6, 7, 8, 9], by decide⟩

/-- `b` is a symbolic link to `a`, and no other name is taken. -/
def linked : FileSystem String Nat where
  names path :=
    if path = "a" then some (.file 0) else if path = "b" then some (.symlink "a") else none
  files ino := if ino = 0 then some nineBytes else none
  live path ino named := by
    by_cases first : path = "a"
    · rw [if_pos first, Option.some.injEq, Entry.file.injEq] at named
      rw [← named]
      rfl
    · by_cases second : path = "b"
      · simp [second] at named
      · simp [first, second] at named

/-- Every call succeeds, but for the maps from some offset of the destination on; the source
is descriptor 3. -/
def upTo (limit : Int) : Answers Nat where
  openIn := true
  fdNames path := path = "/dev/fd/3" || path = "/proc/self/fd/3"
  openOut := true
  fresh := 1
  fstat := true
  ftruncate := true
  mmap fd offset := decide (fd = .fdin ∨ offset < limit)

def granting : Answers Nat := { upTo 0 with mmap := fun _ _ => true }

/-- Nine bytes, in chunks of two pages of two bytes, to a new file. -/
theorem mmap_copies_nine_bytes :
    ∃ s, main 2 4 granting 9 ["mmap_demo", "a", "c"] linked = some (s, .status 0) ∧
      (∀ fd, (∀ r ∈ mapped fd s.log, 2 ∣ r.start) ∧
        Partition 0 nineBytes.size (mapped fd s.log)) ∧
      s.fs.contents "c" = some nineBytes ∧ s.fs.contents "a" = some nineBytes :=
  mmap_copies (by decide) (by decide) ⟨rfl, by decide +kernel, rfl, by decide +kernel⟩
    ⟨rfl, rfl, fun _ _ => rfl⟩ (by decide +kernel) rfl (by decide)

/-- Left after the first chunk. -/
theorem source_kept_iff_left :
    ∃ s code, main 2 4 (upTo 4) 9 ["mmap_demo", "b", "c"] linked = some (s, .status code) ∧
      s.fs.contents "b" = linked.contents "b" := by
  obtain ⟨s, code, exits, iff⟩ := @source_kept_iff _ _ 2 4 (upTo 4) linked nineBytes
    "mmap_demo" "b" "c" 9 (by decide) ⟨rfl, by decide +kernel, rfl, by decide +kernel⟩ rfl
    (by decide)
  exact ⟨s, code, exits, iff.mpr (.inl (by decide +kernel))⟩

/-- The name of the descriptor led nowhere before, and the source is emptied through it. -/
example : linked.lookup "/dev/fd/3" = none ∧
    (main 4096 copyIncr granting 1 ["mmap_demo", "a", "/dev/fd/3"] linked).map
      (fun result => result.1.fs.contents "a") = some (some .empty) := by
  decide +kernel

/-- A file that is copied to a symbolic link to it is lost. -/
theorem copied_to_itself :
    ¬ ∀ (answers : Answers Nat) (fs : FileSystem String Nat) (src dst : String) (fuel : Nat)
      (s : State Nat) (exit : Exit), answers.Opens fs src dst →
      main 4096 copyIncr answers fuel ["mmap_demo", src, dst] fs = some (s, exit) →
      s.fs.contents src = fs.contents src := by
  intro kept
  have run : (main 4096 copyIncr granting 1 ["mmap_demo", "a", "b"] linked).map
      (fun result => result.1.fs.contents "a") = some (some .empty) := by decide +kernel
  obtain ⟨⟨s, exit⟩, exits, emptied⟩ := Option.map_eq_some_iff.mp run
  have same := kept granting linked "a" "b" 1 s exit
    ⟨rfl, by decide +kernel, rfl, by decide +kernel⟩ exits
  have was_empty : linked.contents "a" = some .empty := same.symm.trans emptied
  exact absurd was_empty (by decide +kernel)

end UnixDemos.IPC.MmapDemo
