/-
# Library.Words — the words of a text

The words of a text are its longest rows of elements that are not separators.  They
are found by a scan that carries the word it is in; a text that ends in a separator
can be followed by anything without its words changing (`words_append_sep`), and the
first word is where the separators in front of it end (`exists_of_words_cons`).
-/
import Mathlib.Data.List.Basic

namespace UnixDemos.Library

set_option autoImplicit false

universe u

section Words

variable {α : Type u} (sep : α → Bool)

/-- The word the scan is in, if it is in one. -/
def closeWord (word : List α) : List (List α) := if word.isEmpty then [] else [word]

def wordsFrom : List α → List α → List (List α)
  | word, [] => closeWord word
  | word, c :: text =>
      if sep c then closeWord word ++ wordsFrom [] text else wordsFrom (word ++ [c]) text

def words (text : List α) : List (List α) := wordsFrom sep [] text

variable {sep}

theorem closeWord_of_ne_nil {word : List α} (inside : word ≠ []) : closeWord word = [word] := by
  simp [closeWord, inside]

theorem words_cons_sep {c : α} (separates : sep c = true) (text : List α) :
    words sep (c :: text) = words sep text := by
  simp [words, wordsFrom, separates, closeWord]

theorem wordsFrom_append_sep {c : α} (separates : sep c = true) (word front back : List α) :
    wordsFrom sep word (front ++ c :: back) = wordsFrom sep word front ++ words sep back := by
  induction front generalizing word with
  | nil => simp [words, wordsFrom, separates]
  | cons d front ih =>
      by_cases atSep : sep d = true
      · simp [wordsFrom, atSep, ih]
      · simp [wordsFrom, atSep, ih]

theorem words_append_sep {c : α} (separates : sep c = true) (front back : List α) :
    words sep (front ++ [c] ++ back) = words sep (front ++ [c]) ++ words sep back := by
  have whole := wordsFrom_append_sep separates [] front back
  have ended := wordsFrom_append_sep separates [] front []
  rw [List.append_assoc, List.singleton_append]
  unfold words at *
  rw [whole, ended]
  simp [wordsFrom, closeWord]

/-- Texts that all end in a separator, one after the other. -/
theorem words_flatten {texts : List (List α)}
    (ends : ∀ text ∈ texts, ∃ front c, text = front ++ [c] ∧ sep c = true) :
    words sep texts.flatten = (texts.map (words sep)).flatten := by
  induction texts with
  | nil => rfl
  | cons text texts ih =>
      obtain ⟨front, c, rfl, separates⟩ := ends text List.mem_cons_self
      rw [List.flatten_cons, words_append_sep separates, List.map_cons, List.flatten_cons,
        ih fun t member => ends t (List.mem_cons_of_mem _ member)]

/-- The end of the text, or a separator. -/
def Stops (sep : α → Bool) (rest : List α) : Prop := ∀ c more, rest = c :: more → sep c = true

theorem wordsFrom_eq_cons {word text w : List α} {ws : List (List α)} (inside : word ≠ [])
    (shape : wordsFrom sep word text = w :: ws) :
    ∃ more rest, w = word ++ more ∧ text = more ++ rest ∧ (∀ c ∈ more, sep c = false) ∧
      Stops sep rest ∧ words sep rest = ws := by
  induction text generalizing word with
  | nil =>
      rw [wordsFrom, closeWord_of_ne_nil inside] at shape
      cases shape
      exact ⟨[], [], by simp, rfl, by simp, nofun, rfl⟩
  | cons c text ih =>
      by_cases atSep : sep c = true
      · rw [wordsFrom, if_pos atSep, closeWord_of_ne_nil inside] at shape
        cases shape
        refine ⟨[], c :: text, by simp, rfl, by simp, ?_, words_cons_sep atSep text⟩
        rintro d more ⟨rfl, rfl⟩
        exact atSep
      · rw [wordsFrom, if_neg atSep] at shape
        obtain ⟨more, rest, rfl, rfl, letters, stops, later⟩ := ih (by simp) shape
        refine ⟨c :: more, rest, by simp, rfl, ?_, stops, later⟩
        exact List.forall_mem_cons.mpr ⟨by simpa using atSep, letters⟩

/-- Where the first word stands. -/
theorem exists_of_words_cons {text w : List α} {ws : List (List α)}
    (shape : words sep text = w :: ws) :
    ∃ gap rest, text = gap ++ (w ++ rest) ∧ (∀ c ∈ gap, sep c = true) ∧
      Stops sep rest ∧ words sep rest = ws := by
  induction text with
  | nil => cases shape
  | cons c text ih =>
      by_cases atSep : sep c = true
      · rw [words_cons_sep atSep] at shape
        obtain ⟨gap, rest, rfl, separators, later⟩ := ih shape
        exact ⟨c :: gap, rest, rfl, List.forall_mem_cons.mpr ⟨atSep, separators⟩, later⟩
      · rw [words, wordsFrom, if_neg atSep] at shape
        obtain ⟨more, rest, rfl, rfl, -, later⟩ := wordsFrom_eq_cons (by simp) shape
        exact ⟨[], rest, rfl, by simp, later⟩

theorem mem_wordsFrom {word text : List α} {c : α} (member : c ∈ word ∨ c ∈ text) :
    sep c = true ∨ ∃ w ∈ wordsFrom sep word text, c ∈ w := by
  induction text generalizing word with
  | nil =>
      have inWord : c ∈ word := by simpa using member
      rw [wordsFrom, closeWord_of_ne_nil (List.ne_nil_of_mem inWord)]
      exact Or.inr ⟨word, List.mem_singleton_self word, inWord⟩
  | cons d text ih =>
      by_cases atSep : sep d = true
      · rw [wordsFrom, if_pos atSep]
        rcases member with inWord | inText
        · rw [closeWord_of_ne_nil (List.ne_nil_of_mem inWord)]
          exact Or.inr ⟨word, List.mem_cons_self, inWord⟩
        · rcases List.mem_cons.mp inText with rfl | later
          · exact Or.inl atSep
          · rcases ih (Or.inr later) with separates | ⟨w, inWords, inW⟩
            · exact Or.inl separates
            · exact Or.inr ⟨w, List.mem_append_right _ inWords, inW⟩
      · rw [wordsFrom, if_neg atSep]
        apply ih
        simpa [or_assoc] using member

/-- Every element is a separator or in a word. -/
theorem mem_words {text : List α} {c : α} (member : c ∈ text) :
    sep c = true ∨ ∃ w ∈ words sep text, c ∈ w :=
  mem_wordsFrom (Or.inr member)

end Words

end UnixDemos.Library
