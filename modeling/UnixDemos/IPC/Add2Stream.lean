/-
# IPC.Add2Stream — add2.c on a stream of lines

`add2` takes whatever one `read` returns for one line.  `turn` is a pass of its loop
and `add2` the loop, on the results of successive reads and the outcomes of the
writes; `add2_turns` says what it writes: one reply per read.  So a stream of lines is
answered line by line if each read holds the two integers of its line, and the operating
system does not promise that.
-/
import UnixDemos.IPC.Add2
import UnixDemos.Library.Stream

namespace UnixDemos.IPC.Add2

open UnixDemos.Library

set_option autoImplicit false

/-! ## The loop -/

/-- What `read` put at the start of `line`, and whether the `write` after it takes all
of the reply. -/
structure Turn where
  data : Bytes
  written : Bool
  deriving DecidableEq, Repr

structure Outcome where
  stdout : Bytes
  perror : List String
  status : Int
  deriving DecidableEq, Repr

def Outcome.after (text : Bytes) (later : Outcome) : Outcome :=
  { later with stdout := text ++ later.stdout }

/-- `line[n] = 0` and the work on the buffer; `none` is a store outside it. -/
def turn (line data : Bytes) : Option (Bytes × Bytes) :=
  (store (overwrite line data) data.length 0).map answer

/-- The loop ends with the first read that gives nothing, or with a failed write. -/
def add2 (line : Bytes) : List Turn → Option Outcome
  | [] => some ⟨[], [], 0⟩
  | t :: turns =>
      if t.data.length = 0 then some ⟨[], [], 0⟩
      else
        match turn line t.data with
        | none => none
        | some (line, text) =>
            if t.written then (add2 line turns).map (Outcome.after text)
            else some ⟨[], ["write error"], -1⟩

/-- Reads with these results, all replies written. -/
def turns (reads : List Bytes) : List Turn := reads.map fun data => ⟨data, true⟩

/-- The reads the stream is cut into: none is empty, none fills the buffer. -/
def Splits (reads : List Bytes) (stream : Bytes) : Prop :=
  reads.flatten = stream ∧ ∀ data ∈ reads, 1 ≤ data.length ∧ data.length ≤ maxLine - 1

theorem turn_eq {line data : Bytes} (fits : line.length = maxLine) (nulFree : NulFree data)
    (short : data.length ≤ maxLine - 1) :
    ∃ line', turn line data = some (line', reply data) ∧ line'.length = maxLine := by
  have inside : data.length < line.length := by
    simp only [fits, maxLine] at *
    omega
  have same : (overwrite line (data ++ [0])).length = maxLine :=
    (length_overwrite (by simpa using inside)).trans fits
  obtain ⟨text, kept⟩ := answer_eq (cstr_overwrite nulFree line) same
  refine ⟨(answer (overwrite line (data ++ [0]))).1, ?_, kept⟩
  rw [turn, store_overwrite 0 inside, Option.map_some, ← text]

/-- One reply per read. -/
theorem add2_turns {line : Bytes} {reads : List Bytes} (fits : line.length = maxLine)
    (sizes : ∀ data ∈ reads, 1 ≤ data.length ∧ data.length ≤ maxLine - 1)
    (nulFree : ∀ data ∈ reads, NulFree data) :
    add2 line (turns reads) = some ⟨(reads.map reply).flatten, [], 0⟩ := by
  induction reads generalizing line with
  | nil => rfl
  | cons data reads ih =>
      rw [List.forall_mem_cons] at sizes nulFree
      obtain ⟨line', text, fits'⟩ := turn_eq fits nulFree.1 sizes.1.2
      have some_bytes : data.length ≠ 0 := by omega
      show add2 line (⟨data, true⟩ :: turns reads) = _
      simp only [add2, if_neg some_bytes, text, ih fits' sizes.2 nulFree.2]
      rfl

/-! ## Replies -/

/-- The sum of the two integers a text starts with, as `add2` computes it. -/
def leadingSum (text : Bytes) : Option Int :=
  (sscanfTwo text).map fun (int1, int2) => wrap32 (int1 + int2)

def render : Option Int → Bytes
  | some sum => printInt sum ++ [newline]
  | none => invalidArgs

theorem reply_eq_render (text : Bytes) : reply text = render (leadingSum text) := by
  unfold reply leadingSum
  cases sscanfTwo text <;> rfl

theorem newline_notMem_printInt (v : Int) : newline ∉ printInt v := by
  intro member
  rcases mem_printInt member with sign | isD
  · cases sign
  · cases isD

theorem terminated_render (sum : Option Int) : Terminated newline (render sum) := by
  cases sum with
  | none => exact ⟨invalidArgs.dropLast, by decide, by decide⟩
  | some sum => exact ⟨printInt sum, rfl, newline_notMem_printInt sum⟩

/-- No sum prints as the error text, whose first letter is none of a number. -/
theorem render_injective : Function.Injective render := by
  have noError : ∀ v, printInt v ++ [newline] ≠ invalidArgs := by
    intro v same
    have whole : printInt v = invalidArgs.dropLast := by
      rw [← same, List.dropLast_concat]
    have letter : (105 : UInt8) ∈ printInt v := by
      rw [whole]
      decide
    rcases mem_printInt letter with sign | isD
    · cases sign
    · cases isD
  intro sum sum' same
  cases sum with
  | none =>
      cases sum' with
      | none => rfl
      | some w => exact absurd same.symm (noError w)
  | some v =>
      cases sum' with
      | none => exact absurd same (noError v)
      | some w => rw [printInt_injective (List.append_cancel_right same)]

theorem replies_eq_iff (reads lines : List Bytes) :
    (reads.map reply).flatten = (lines.map reply).flatten ↔
      reads.map leadingSum = lines.map leadingSum := by
  have rendered : ∀ texts : List Bytes, texts.map reply = (texts.map leadingSum).map render := by
    intro texts
    rw [List.map_map]
    exact List.map_congr_left fun text _ => reply_eq_render text
  have ends : ∀ sums : List (Option Int), ∀ block ∈ sums.map render, Terminated newline block := by
    intro sums block member
    obtain ⟨sum, -, rfl⟩ := List.mem_map.mp member
    exact terminated_render sum
  rw [rendered, rendered]
  constructor
  · intro same
    exact render_injective.list_map (eq_of_flatten_terminated (ends _) (ends _) same)
  · intro same
    rw [same]

/-! ## Lines of two integers -/

/-- A line that holds two decimal integers, and ends with its newline. -/
structure TwoInts (line : Bytes) : Prop where
  ended : Terminated newline line
  words : ∃ a b, words isSpace line = [a, b] ∧ isInt a = true ∧ isInt b = true

/-- No integer of the stream is cut by the end of a read. -/
def Uncut (reads : List Bytes) : Prop :=
  words isSpace reads.flatten = (reads.map (words isSpace)).flatten

section Lines

variable {lines reads : List Bytes}

theorem words_lines (ints : ∀ line ∈ lines, TwoInts line) :
    words isSpace lines.flatten = (lines.map (words isSpace)).flatten := by
  apply words_flatten
  intro line member
  obtain ⟨body, whole, -⟩ := (ints line member).ended
  exact ⟨body, newline, whole, rfl⟩

theorem isInt_of_mem_words (ints : ∀ line ∈ lines, TwoInts line) {w : Bytes}
    (member : w ∈ (lines.map (words isSpace)).flatten) : isInt w = true := by
  obtain ⟨ws, inMap, inWords⟩ := List.mem_flatten.mp member
  obtain ⟨line, inLines, rfl⟩ := List.mem_map.mp inMap
  obtain ⟨a, b, holds, isA, isB⟩ := (ints line inLines).words
  rw [holds] at inWords
  rcases List.mem_pair.mp inWords with rfl | rfl
  · exact isA
  · exact isB

theorem nulFree_lines (ints : ∀ line ∈ lines, TwoInts line) : NulFree lines.flatten := by
  intro nul
  rcases mem_words nul with space | ⟨w, inWords, inW⟩
  · exact absurd (show isSpace 0 = true from space) (by decide)
  · rw [words_lines ints] at inWords
    rcases mem_isInt (isInt_of_mem_words ints inWords) inW with sign | sign | isD
    · cases sign
    · cases sign
    · cases isD

/-- The sum of the first two of the words. -/
def firstSum : List Bytes → Option Int
  | first :: second :: _ => some (wrap32 (scanValue first + scanValue second))
  | _ => none

theorem leadingSum_eq {text : Bytes} (integers : ∀ w ∈ words isSpace text, isInt w = true) :
    leadingSum text = firstSum (words isSpace text) := by
  rw [leadingSum, sscanfTwo_eq integers]
  cases words isSpace text with
  | nil => rfl
  | cons first others => cases others <;> rfl

theorem leadingSum_map {texts : List Bytes}
    (integers : ∀ w ∈ (texts.map (words isSpace)).flatten, isInt w = true) :
    texts.map leadingSum = (texts.map (words isSpace)).map firstSum := by
  rw [List.map_map]
  apply List.map_congr_left
  intro text member
  exact leadingSum_eq fun w inWords =>
    integers w (List.mem_flatten.mpr ⟨_, List.mem_map_of_mem member, inWords⟩)

theorem two_le_of_firstSum {ws : List Bytes} (found : firstSum ws ≠ none) : 2 ≤ ws.length := by
  rcases ws with _ | ⟨a, _ | ⟨b, ws⟩⟩
  · exact absurd rfl found
  · exact absurd rfl found
  · exact Nat.le_add_left 2 ws.length

/-- Reads that cut no integer and give the sums of the lines hold the integers of the
lines: each has two at least, and there are no more to go round. -/
theorem words_eq_of_sums (ints : ∀ line ∈ lines, TwoInts line)
    (whole : reads.flatten = lines.flatten) (uncut : Uncut reads)
    (sums : reads.map leadingSum = lines.map leadingSum) :
    reads.map (words isSpace) = lines.map (words isSpace) := by
  have same : (reads.map (words isSpace)).flatten = (lines.map (words isSpace)).flatten := by
    rw [← uncut, whole, words_lines ints]
  have integers := fun w (member : w ∈ (lines.map (words isSpace)).flatten) =>
    isInt_of_mem_words ints member
  rw [leadingSum_map integers, leadingSum_map (same ▸ integers)] at sums
  apply eq_of_flatten_length (by simpa using congrArg List.length sums) _ _ same (k := 2)
  · intro ws member
    apply two_le_of_firstSum
    have asLine : firstSum ws ∈ (lines.map (words isSpace)).map firstSum :=
      sums ▸ List.mem_map_of_mem member
    rw [List.map_map] at asLine
    obtain ⟨line, inLines, equal⟩ := List.mem_map.mp asLine
    obtain ⟨a, b, holds, -⟩ := (ints line inLines).words
    rw [← equal, Function.comp_apply, holds]
    exact Option.some_ne_none _
  · intro ws member
    obtain ⟨line, inLines, rfl⟩ := List.mem_map.mp member
    obtain ⟨a, b, holds, -⟩ := (ints line inLines).words
    rw [holds]
    rfl

/-- Reads that hold the integers of the lines, whatever white space they have around
them. -/
theorem sums_of_words_eq (ints : ∀ line ∈ lines, TwoInts line)
    (same : reads.map (words isSpace) = lines.map (words isSpace)) :
    reads.map leadingSum = lines.map leadingSum := by
  have integers := fun w (member : w ∈ (lines.map (words isSpace)).flatten) =>
    isInt_of_mem_words ints member
  rw [leadingSum_map integers, leadingSum_map (same ▸ integers), same]

/-- **Line by line.**  A stream of lines is answered line by line if each read holds exactly
the two integers of its line, with any white space around them.  For reads that cut no
integer there is no other way; with an integer cut, the pieces can still add up by chance. -/
theorem add2_splits_iff {line : Bytes} (fits : line.length = maxLine)
    (ints : ∀ line ∈ lines, TwoInts line) (splits : Splits reads lines.flatten) :
    (reads.map (words isSpace) = lines.map (words isSpace) →
      add2 line (turns reads) = some ⟨(lines.map reply).flatten, [], 0⟩) ∧
    (Uncut reads → (add2 line (turns reads) = some ⟨(lines.map reply).flatten, [], 0⟩ ↔
      reads.map (words isSpace) = lines.map (words isSpace))) := by
  have nulFree : ∀ data ∈ reads, NulFree data := by
    intro data member nul
    apply nulFree_lines ints
    rw [← splits.1]
    exact List.mem_flatten_of_mem member nul
  have exact_sums : add2 line (turns reads) = some ⟨(lines.map reply).flatten, [], 0⟩ ↔
      reads.map leadingSum = lines.map leadingSum := by
    rw [add2_turns fits splits.2 nulFree, Option.some.injEq, Outcome.mk.injEq, replies_eq_iff]
    simp only [and_true]
  rw [exact_sums]
  refine ⟨sums_of_words_eq ints, fun uncut => ⟨fun sums => ?_, sums_of_words_eq ints⟩⟩
  exact words_eq_of_sums ints splits.1 uncut sums

end Lines

/-- The lines `1 2` and `3 4`. -/
def twoLines : List Bytes := [[49, 32, 50, 10], [51, 32, 52, 10]]

theorem twoInts_twoLines : ∀ line ∈ twoLines, TwoInts line := by
  intro line member
  rcases List.mem_pair.mp member with rfl | rfl
  · exact ⟨⟨[49, 32, 50], rfl, by decide⟩, [49], [50], rfl, rfl, rfl⟩
  · exact ⟨⟨[51, 32, 52], rfl, by decide⟩, [51], [52], rfl, rfl, rfl⟩

/-- `1 2` in one read and the rest in another: the boundary lies in white space. -/
theorem add2_splits_at_blank :
    Splits [[49, 32, 50], [10, 51, 32, 52, 10]] twoLines.flatten ∧
      add2 (zeros maxLine) (turns [[49, 32, 50], [10, 51, 32, 52, 10]]) =
        some ⟨(twoLines.map reply).flatten, [], 0⟩ := by
  have splits : Splits [[49, 32, 50], [10, 51, 32, 52, 10]] twoLines.flatten :=
    ⟨by decide, by decide⟩
  have fits : (zeros maxLine).length = maxLine := List.length_replicate
  exact ⟨splits, (add2_splits_iff fits twoInts_twoLines splits).1 (by decide)⟩

/-- Both lines in one read: the second is never answered. -/
theorem two_lines_one_reply :
    (∀ line ∈ twoLines, TwoInts line) ∧ twoLines.map leadingSum = [some 3, some 7] ∧
      Splits [twoLines.flatten] twoLines.flatten ∧
      ∀ line : Bytes, line.length = maxLine →
        add2 line (turns [twoLines.flatten]) = some ⟨[51, 10], [], 0⟩ ∧
        add2 line (turns [twoLines.flatten]) ≠ some ⟨(twoLines.map reply).flatten, [], 0⟩ := by
  refine ⟨twoInts_twoLines, by decide, ⟨by decide, by decide⟩, fun line fits => ?_⟩
  rw [add2_turns fits (by decide) (by decide)]
  decide

/-- `1 1`, `-15 22` and `7 2`, with `-15` and `22` cut in two: the sums are right. -/
example :
    let reads : List Bytes := [[49, 32, 49, 10, 45, 49], [53, 32, 50], [50, 10, 55, 32, 50, 10]]
    let lines : List Bytes := [[49, 32, 49, 10], [45, 49, 53, 32, 50, 50, 10], [55, 32, 50, 10]]
    reads.flatten = lines.flatten ∧ ¬ Uncut reads ∧
      reads.map leadingSum = lines.map leadingSum := by
  unfold Uncut
  decide

end UnixDemos.IPC.Add2
