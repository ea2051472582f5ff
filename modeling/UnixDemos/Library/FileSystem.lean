/-
# Library.FileSystem — names, files and shared mappings

A name is a file (an inode) or a symbolic link to another name.  Several names can lead
to one file, by hard links (the same inode) or by symbolic links, and an operation on a
file is seen under all of them.  A file is its bytes, and their number is an `off_t`.

`open` with `O_CREAT | O_TRUNC` empties a file that is there before anything else is
done with it.  An open file has names of its own (`/dev/fd/3`), which appear with its
descriptor (`appear`).  A shared mapping is the bytes of its range: `File.slice` is what is read
through it, `File.patch` the file after a store through it.  An access beyond the end of
the file has no answer.

* `files_openTruncate`: `open` empties one file and leaves the others;
* `lookup_openTruncate`: the names that led to a file lead to it afterwards;
* `memcpy_write`: a copy between two files of one size extends the front they share.
-/
import Mathlib.Algebra.Ring.Int.Defs
import Mathlib.Algebra.Ring.Nat
import Mathlib.Logic.Function.Basic
import UnixDemos.Library.CString

namespace UnixDemos.Library

set_option autoImplicit false

universe u v

/-! ## Files -/

structure File where
  bytes : Bytes
  fits : bytes.length < 2 ^ 63
  deriving DecidableEq

namespace File

def empty : File := ⟨[], by decide⟩

/-- `st_size`. -/
def size (f : File) : Int := f.bytes.length

/-- The file cut, or filled up with zeros, to `n` bytes. -/
def truncate (f : File) (n : Int) : Option File :=
  if h : 0 ≤ n ∧ n.toNat < 2 ^ 63 then
    some ⟨(f.bytes ++ zeros n.toNat).take n.toNat,
      Nat.lt_of_le_of_lt (List.length_take_le ..) h.2⟩
  else none

/-- The bytes of a range. -/
def slice (f : File) (start length : Nat) : Option Bytes :=
  if start + length ≤ f.bytes.length then some ((f.bytes.drop start).take length) else none

/-- The file with `data` stored from `start` on. -/
def patch (f : File) (start : Nat) (data : Bytes) : Option File :=
  if h : start + data.length ≤ f.bytes.length then
    some ⟨f.bytes.take start ++ (data ++ f.bytes.drop (start + data.length)), by
      have := f.fits
      rw [List.length_append, List.length_append, List.length_take, List.length_drop]
      omega⟩
  else none

theorem size_nonneg (f : File) : 0 ≤ f.size := Int.natCast_nonneg _

theorem size_lt (f : File) : f.size < 2 ^ 63 := by
  have := f.fits
  unfold size
  omega

theorem ext_bytes {f g : File} (same : f.bytes = g.bytes) : f = g := by
  cases f
  cases g
  cases same
  rfl

/-- Cut to the size of a file. -/
theorem truncate_size (f g : File) :
    ∃ h, f.truncate g.size = some h ∧ h.bytes.length = g.bytes.length := by
  have fits : 0 ≤ g.size ∧ g.size.toNat < 2 ^ 63 := ⟨g.size_nonneg, by simpa [size] using g.fits⟩
  refine ⟨_, dif_pos fits, ?_⟩
  simp [size, zeros]

/-- What is copied from a file at the end of a front that agrees with it makes a longer
one. -/
theorem patch_slice {f out : File} {start length : Nat} (inside : start + length ≤ f.bytes.length)
    (size : out.bytes.length = f.bytes.length)
    (agree : out.bytes.take start = f.bytes.take start) :
    ∃ data g, f.slice start length = some data ∧ out.patch start data = some g ∧
      g.bytes.length = f.bytes.length ∧
      g.bytes.take (start + length) = f.bytes.take (start + length) := by
  have count : ((f.bytes.drop start).take length).length = length := by
    rw [List.length_take, List.length_drop]
    omega
  have room : start + ((f.bytes.drop start).take length).length ≤ out.bytes.length := by omega
  have front : out.bytes.take start ++ (f.bytes.drop start).take length =
      f.bytes.take (start + length) := by
    rw [agree, List.take_add]
  refine ⟨_, _, if_pos inside, dif_pos room, ?_, ?_⟩
  · simp only [List.length_append, List.length_take, List.length_drop]
    omega
  · show (out.bytes.take start ++ ((f.bytes.drop start).take length ++ _)).take _ = _
    have exactly : (f.bytes.take (start + length)).length = start + length := by
      rw [List.length_take]
      omega
    rw [← List.append_assoc, front, List.take_append_of_le_length (Nat.le_of_eq exactly.symm),
      List.take_take, Nat.min_self]

end File

/-! ## Names -/

inductive Entry (π : Type u) (ι : Type v) where
  | file (ino : ι)
  | symlink (target : π)
  deriving DecidableEq, Repr

/-- Every name of a file leads to a file that exists. -/
structure FileSystem (π : Type u) (ι : Type v) where
  names : π → Option (Entry π ι)
  files : ι → Option File
  live : ∀ path ino, names path = some (.file ino) → (files ino).isSome

namespace FileSystem

variable {π : Type u} {ι : Type v}

/-- The name at the end of a chain of at most so many symbolic links. -/
def follow (names : π → Option (Entry π ι)) : Nat → π → Option π
  | 0, path =>
      match names path with
      | some (.symlink _) => none
      | _ => some path
  | n + 1, path =>
      match names path with
      | some (.symlink target) => follow names n target
      | _ => some path

/-- `MAXSYMLINKS`. -/
def maxSymlinks : Nat := 40

/-- The file a path leads to. -/
def lookup (fs : FileSystem π ι) (path : π) : Option ι :=
  match follow fs.names maxSymlinks path with
  | none => none
  | some path =>
      match fs.names path with
      | some (.file ino) => some ino
      | _ => none

def contents (fs : FileSystem π ι) (path : π) : Option File := (fs.lookup path).bind fs.files

/-- `fstat`, as far as the size. -/
def fstat (fs : FileSystem π ι) (ino : ι) : Option Int := (fs.files ino).map File.size

/-- The file system in which a file has further names, as far as they are not taken. -/
def appear (fs : FileSystem π ι) (new : π → Bool) (ino : ι) : FileSystem π ι where
  names path :=
    match fs.names path with
    | some entry => some entry
    | none => if new path && (fs.files ino).isSome then some (.file ino) else none
  files := fs.files
  live path i named := by
    split at named
    · rename_i old
      exact fs.live path i (old.trans named)
    · split at named
      · rename_i fresh
        cases named
        exact (Bool.and_eq_true_iff.mp fresh).2
      · cases named

variable [DecidableEq ι]

/-- The file system after a file got other contents. -/
def write (fs : FileSystem π ι) (ino : ι) (file : File) : FileSystem π ι where
  names := fs.names
  files := Function.update fs.files ino (some file)
  live path i named := by
    by_cases same : i = ino
    · rw [same, Function.update_self]
      rfl
    · rw [Function.update_of_ne same]
      exact fs.live path i named

def ftruncate (fs : FileSystem π ι) (ino : ι) (n : Int) : Option (FileSystem π ι) :=
  (fs.files ino).bind fun file => (file.truncate n).map (fs.write ino)

/-- `memcpy` from a mapping of a range of one file to a mapping of the same range of
another; `none` is an access beyond the end of one of them. -/
def memcpy (fs : FileSystem π ι) (dst src : ι) (start length : Nat) : Option (FileSystem π ι) :=
  ((fs.files src).bind (·.slice start length)).bind fun data =>
    ((fs.files dst).bind (·.patch start data)).map (fs.write dst)

variable [DecidableEq π]

/-- A new, empty file. -/
def create (fs : FileSystem π ι) (path : π) (ino : ι) : FileSystem π ι where
  names := Function.update fs.names path (some (.file ino))
  files := Function.update fs.files ino (some .empty)
  live p i named := by
    by_cases same : i = ino
    · rw [same, Function.update_self]
      rfl
    · rw [Function.update_of_ne same]
      by_cases here : p = path
      · rw [here, Function.update_self, Option.some.injEq, Entry.file.injEq] at named
        exact absurd named.symm same
      · rw [Function.update_of_ne here] at named
        exact fs.live p i named

/-- `open` with `O_RDWR | O_CREAT | O_TRUNC`; `fresh` is the inode of a file that has to
be created. -/
def openTruncate (fs : FileSystem π ι) (path : π) (fresh : ι) : Option (FileSystem π ι × ι) :=
  match follow fs.names maxSymlinks path with
  | none => none
  | some path =>
      match fs.names path with
      | some (.file ino) => some (fs.write ino .empty, ino)
      | some (.symlink _) => none
      | none => if fs.files fresh = none then some (fs.create path fresh, fresh) else none

section Lemmas

variable {fs fs' : FileSystem π ι} {path : π} {ino fresh i : ι} {file : File}

omit [DecidableEq ι] [DecidableEq π] in
theorem lookup_eq_some_iff : fs.lookup path = some ino ↔
    ∃ name, follow fs.names maxSymlinks path = some name ∧ fs.names name = some (.file ino) := by
  unfold lookup
  constructor
  · intro found
    split at found
    · cases found
    · rename_i name followed
      split at found
      · rename_i named
        cases found
        exact ⟨name, followed, named⟩
      · cases found
  · rintro ⟨name, followed, named⟩
    rw [followed]
    simp only [named]

omit [DecidableEq ι] [DecidableEq π] in
/-- A path that leads to a file leads to one that exists. -/
theorem exists_of_lookup (found : fs.lookup path = some ino) :
    ∃ file, fs.files ino = some file := by
  obtain ⟨name, -, named⟩ := lookup_eq_some_iff.mp found
  exact Option.isSome_iff_exists.mp (fs.live name ino named)

omit [DecidableEq ι] [DecidableEq π] in
theorem contents_of_lookup (found : fs.lookup path = some ino) :
    fs.contents path = fs.files ino := by
  rw [contents, found, Option.bind_some]

omit [DecidableEq ι] [DecidableEq π] in
theorem lookup_congr (same : fs'.names = fs.names) : fs'.lookup path = fs.lookup path := by
  unfold lookup
  rw [same]

omit [DecidableEq π] in
@[simp] theorem files_write_self (fs : FileSystem π ι) (ino : ι) (file : File) :
    (fs.write ino file).files ino = some file := Function.update_self ..

omit [DecidableEq π] in
theorem files_write_of_ne (fs : FileSystem π ι) (file : File) (other : i ≠ ino) :
    (fs.write ino file).files i = fs.files i := Function.update_of_ne other ..

/-- Names that were not taken name files. -/
def Extends (names names' : π → Option (Entry π ι)) : Prop :=
  ∀ path, names' path = names path ∨ (names path = none ∧ ∃ ino, names' path = some (.file ino))

omit [DecidableEq ι] [DecidableEq π] in
/-- New names change no chain of links, and a chain that ended at one of them now ends
there too. -/
theorem follow_extends {names names' : π → Option (Entry π ι)} (more : Extends names names')
    (n : Nat) (path : π) : follow names' n path = follow names n path := by
  induction n generalizing path with
  | zero =>
      rcases more path with same | ⟨absent, ino, named⟩
      · simp [follow, same]
      · simp [follow, absent, named]
  | succ n ih =>
      rcases more path with same | ⟨absent, ino, named⟩
      · simp [follow, same, ih]
      · simp [follow, absent, named]

omit [DecidableEq ι] [DecidableEq π] in
/-- A path that led to a file leads to it still. -/
theorem lookup_extends (more : Extends fs.names fs'.names) (found : fs.lookup path = some ino) :
    fs'.lookup path = some ino := by
  obtain ⟨name, followed, named⟩ := lookup_eq_some_iff.mp found
  refine lookup_eq_some_iff.mpr ⟨name, (follow_extends more _ path).trans followed, ?_⟩
  rcases more name with same | ⟨absent, -⟩
  · exact same.trans named
  · rw [absent] at named
    cases named

omit [DecidableEq ι] in
theorem extends_update {names : π → Option (Entry π ι)} {name : π} (absent : names name = none) :
    Extends names (Function.update names name (some (.file ino))) := by
  intro path
  by_cases here : path = name
  · subst here
    exact .inr ⟨absent, ino, Function.update_self ..⟩
  · exact .inl (Function.update_of_ne here ..)

omit [DecidableEq ι] [DecidableEq π] in
theorem extends_appear (fs : FileSystem π ι) (new : π → Bool) (ino : ι) :
    Extends fs.names (fs.appear new ino).names := by
  intro path
  unfold appear
  dsimp only
  cases fs.names path with
  | some entry => exact .inl rfl
  | none =>
      dsimp only
      split
      · exact .inr ⟨rfl, ino, rfl⟩
      · exact .inl rfl

/-- What `open` did: it emptied the file the path led to, or it created one. -/
theorem openTruncate_cases (opened : fs.openTruncate path fresh = some (fs', ino)) :
    (fs.lookup path = some ino ∧ fs' = fs.write ino .empty) ∨
      ∃ name, follow fs.names maxSymlinks path = some name ∧ fs.names name = none ∧
        fs.files ino = none ∧ fs' = fs.create name ino := by
  unfold openTruncate at opened
  split at opened
  · cases opened
  · rename_i name followed
    split at opened
    · rename_i named
      cases opened
      exact .inl ⟨lookup_eq_some_iff.mpr ⟨name, followed, named⟩, rfl⟩
    · cases opened
    · rename_i absent
      split at opened
      · rename_i unused
        cases opened
        exact .inr ⟨name, followed, absent, unused, rfl⟩
      · cases opened

/-- `open` empties the file it opens, and no other. -/
theorem files_openTruncate (opened : fs.openTruncate path fresh = some (fs', ino)) :
    fs'.files ino = some .empty ∧ ∀ i, i ≠ ino → fs'.files i = fs.files i := by
  obtain ⟨-, rfl⟩ | ⟨name, -, -, -, rfl⟩ := openTruncate_cases opened
  · exact ⟨files_write_self .., fun i other => files_write_of_ne _ _ other⟩
  · exact ⟨Function.update_self .., fun i other => Function.update_of_ne other ..⟩

/-- Every path that led to a file leads to it still, and the path that was opened leads
to the file that was opened. -/
theorem lookup_openTruncate (opened : fs.openTruncate path fresh = some (fs', ino)) :
    fs'.lookup path = some ino ∧ ∀ p i, fs.lookup p = some i → fs'.lookup p = some i := by
  obtain ⟨found, rfl⟩ | ⟨name, followed, absent, -, rfl⟩ := openTruncate_cases opened
  · exact ⟨found, fun p i => id⟩
  · constructor
    · refine lookup_eq_some_iff.mpr ⟨name, ?_, Function.update_self ..⟩
      exact (follow_extends (extends_update absent) _ path).trans followed
    · intro p i found
      exact lookup_extends (extends_update absent) found

/-- The file opened is the one another path leads to exactly if both paths led to it. -/
theorem lookup_eq_iff_openTruncate (opened : fs.openTruncate path fresh = some (fs', ino))
    {p : π} (found : fs.lookup p = some i) : fs.lookup path = fs.lookup p ↔ i = ino := by
  obtain ⟨same, -⟩ | ⟨name, followed, absent, unused, -⟩ := openTruncate_cases opened
  · rw [same, found, Option.some.injEq, eq_comm]
  · obtain ⟨file, present⟩ := exists_of_lookup found
    have created : i ≠ ino := by
      rintro rfl
      rw [present] at unused
      cases unused
    have nowhere : fs.lookup path ≠ some i := by
      intro same
      obtain ⟨q, followedTo, named⟩ := lookup_eq_some_iff.mp same
      rw [followed, Option.some.injEq] at followedTo
      rw [← followedTo, absent] at named
      cases named
    rw [found]
    exact ⟨fun same => absurd same nowhere, fun same => absurd same created⟩

omit [DecidableEq π] in
theorem ftruncate_write {out : File} (size : Int) (present : fs.files ino = some out) :
    fs.ftruncate ino size = (out.truncate size).map (fs.write ino) := by
  rw [ftruncate, present, Option.bind_some]

omit [DecidableEq π] in
/-- A copy between two files of one size extends the front they share. -/
theorem memcpy_write {out : File} {start length : Nat} (source : fs.files i = some file)
    (target : fs.files ino = some out) (inside : start + length ≤ file.bytes.length)
    (size : out.bytes.length = file.bytes.length)
    (agree : out.bytes.take start = file.bytes.take start) :
    ∃ g, fs.memcpy ino i start length = some (fs.write ino g) ∧
      g.bytes.length = file.bytes.length ∧
      g.bytes.take (start + length) = file.bytes.take (start + length) := by
  obtain ⟨data, g, read, stored, length_eq, front⟩ := File.patch_slice inside size agree
  refine ⟨g, ?_, length_eq, front⟩
  rw [memcpy, source, Option.bind_some, read, Option.bind_some, target, Option.bind_some, stored,
    Option.map_some]

end Lemmas

end FileSystem

end UnixDemos.Library
