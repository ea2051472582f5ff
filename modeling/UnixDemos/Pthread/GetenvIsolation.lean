/-
# Pthread.GetenvIsolation — the getenv_ calls of the threads do not disturb each other

`Sound s t` says how the slot, the buffer and the calls of one thread fit together:
each call that returned a pointer returned the buffer of the thread, and the buffer is
what `strncpy` made of its latest value.  `strncpy` fills up with NULs, so nothing of
an older value is left behind a shorter one.  `Sound.congr` is the frame rule: it is
enough that the slot of a thread, its buffer and its successful calls stay as they
are, and other threads leave them alone because the buffers are distinct.
-/
import UnixDemos.Library.Stream
import UnixDemos.Pthread.Getenv

namespace UnixDemos.Pthread.Getenv

open UnixDemos.Library

set_option autoImplicit false

section Isolation

variable {τ : Type} [DecidableEq τ] {s s' : System τ}

/-! ## One thread -/

structure Sound (s : System τ) (t : τ) : Prop where
  sized : ∀ a, s.buffer t = some a → ∃ buf, s.heap a = some buf ∧ buf.length = maxStringSz
  returned : ∀ c ∈ s.log, c.thread = t → ∀ a, c.result = some a → s.exited t = false →
    s.buffer t = some a
  holds : ∀ a v, latest t s.log = some (a, v) → s.exited t = false →
    ∃ old, s.heap a = some (strncpy old v (maxStringSz - 1))

theorem Sound.buffer_of_latest {t : τ} (sound : Sound s t) {a : Addr} {v : Bytes}
    (last : latest t s.log = some (a, v)) (runs : s.exited t = false) : s.buffer t = some a := by
  obtain ⟨c, member, success⟩ := mem_of_latest last
  obtain ⟨own, result, -⟩ := success_eq_some.mp success
  exact sound.returned c member own a result runs

theorem Sound.congr {t : τ} (sound : Sound s t) (buffer : s'.buffer t = s.buffer t)
    (heap : ∀ a, s.buffer t = some a → s'.heap a = s.heap a) (exited : s'.exited t = s.exited t)
    (calls : ∀ c ∈ s'.log, c.thread = t → c.result ≠ none → c ∈ s.log)
    (last : latest t s'.log = latest t s.log) : Sound s' t where
  sized a owns := by
    rw [buffer] at owns
    rw [heap a owns]
    exact sound.sized a owns
  returned c member own a result runs := by
    rw [buffer]
    exact sound.returned c (calls c member own (by simp [result])) own a result (exited ▸ runs)
  holds a v isLast runs := by
    rw [last] at isLast
    rw [exited] at runs
    rw [heap a (sound.buffer_of_latest isLast runs)]
    exact sound.holds a v isLast runs

/-- A thread without a buffer had no successful call. -/
theorem Sound.latest_eq_none {t : τ} (sound : Sound s t) (empty : s.buffer t = none)
    (runs : s.exited t = false) : latest t s.log = none := by
  cases last : latest t s.log with
  | none => rfl
  | some success =>
      have owns := sound.buffer_of_latest last runs
      rw [empty] at owns
      cases owns

/-! ## All threads -/

structure Good (s : System τ) : Prop where
  distinct : ∀ t u a, s.buffer t = some a → s.buffer u = some a → t = u
  sound : ∀ t, Sound s t
  answered : ∀ c ∈ s.log, c.block ≠ none → (c.result = none ↔ find c.name c.environ = some none)

theorem good_start (slot : τ → Option Addr) (heap : Addr → Option Bytes) :
    Good (start slot heap) where
  distinct := nofun
  sound _ := ⟨nofun, nofun, nofun⟩
  answered := nofun

theorem Good.ne_buffer (good : Good s) {t u : τ} {a b : Addr} (owns : s.buffer t = some a)
    (owns' : s.buffer u = some b) (other : u ≠ t) : b ≠ a := by
  rintro rfl
  exact other (good.distinct u t b owns' owns)

/-- A call that returns NULL. -/
theorem Good.null (good : Good s) (t : τ) {name : CString} {environ : List CString}
    {block : Option (Addr × Bytes)} (why : block = none ∨ find name environ = some none) :
    Good { s with log := s.log ++ [⟨t, name, environ, block, none⟩] } where
  distinct := good.distinct
  sound u := by
    refine (good.sound u).congr rfl (fun _ _ => rfl) rfl ?_ ?_
    · exact forall_mem_snoc.mpr ⟨fun c before _ _ => before, fun _ result => absurd rfl result⟩
    · rw [latest_snoc]
      have failed : Call.success u ⟨t, name, environ, block, none⟩ = none := by
        simp [Call.success]
      rw [failed, Option.none_or]
  answered := by
    refine forall_mem_snoc.mpr ⟨good.answered, fun memory => ?_⟩
    simpa using why.resolve_left memory

/-! ## The stages of a call -/

omit [DecidableEq τ] in
theorem buffer_of_initDone (done : s.initDone = true) : s.buffer = s.slot := by
  funext t
  exact if_pos done

omit [DecidableEq τ] in
theorem buffer_pthreadOnce : (pthreadOnce s).buffer = s.buffer := by
  funext t
  unfold pthreadOnce threadInit System.buffer
  split <;> simp_all

omit [DecidableEq τ] in
theorem pthreadOnce_frame (s : System τ) :
    (pthreadOnce s).initDone = true ∧ (pthreadOnce s).heap = s.heap ∧
      (pthreadOnce s).exited = s.exited ∧ (pthreadOnce s).log = s.log ∧
      (pthreadOnce s).outside = s.outside := by
  unfold pthreadOnce threadInit
  split <;> simp_all

theorem Good.once (good : Good s) : Good (pthreadOnce s) := by
  obtain ⟨-, heap, exited, log, -⟩ := pthreadOnce_frame s
  constructor
  · rw [buffer_pthreadOnce]
    exact good.distinct
  · intro t
    apply (good.sound t).congr (congrFun buffer_pthreadOnce t)
    · intro a _
      rw [heap]
    · rw [exited]
    · intro c member _ _
      exact log ▸ member
    · rw [log]
  · rw [log]
    exact good.answered

theorem buffer_update {t : τ} {x : Option Addr} (done : s.initDone = true)
    (done' : s'.initDone = true) (slots : s'.slot = Function.update s.slot t x) :
    s'.buffer = Function.update s.buffer t x := by
  rw [buffer_of_initDone done, buffer_of_initDone done', slots]

theorem distinct_update {f : τ → Option Addr} {t : τ} {x : Option Addr}
    (distinct : ∀ t u a, f t = some a → f u = some a → t = u)
    (new : ∀ u, ∀ a ∈ x, f u ≠ some a) (u w : τ) (b : Addr) :
    Function.update f t x u = some b → Function.update f t x w = some b → u = w := by
  rw [Function.update_apply, Function.update_apply]
  intro ownsU ownsW
  split at ownsU <;> split at ownsW
  · simp_all
  · exact absurd ownsW (new w b ownsU)
  · exact absurd ownsU (new u b ownsW)
  · exact distinct u w b ownsU ownsW

/-- A new block was nobody's buffer. -/
theorem Good.allocate (good : Good s) (done : s.initDone = true) {t : τ} {a : Addr}
    {bytes : Bytes} (empty : s.buffer t = none) (runs : s.exited t = false)
    (free : s.heap a = none) (size : bytes.length = maxStringSz) :
    Good { s with
      heap := Function.update s.heap a (some bytes)
      slot := Function.update s.slot t (some a) } := by
  have noBuffer : ∀ u, s.buffer u ≠ some a := by
    intro u owns
    obtain ⟨buf, allocated, -⟩ := (good.sound u).sized a owns
    rw [free] at allocated
    cases allocated
  have buffers : System.buffer { s with
      heap := Function.update s.heap a (some bytes)
      slot := Function.update s.slot t (some a) } = Function.update s.buffer t (some a) :=
    buffer_update done done rfl
  constructor
  · rw [buffers]
    apply distinct_update good.distinct
    rintro u b ⟨⟩
    exact noBuffer u
  · intro u
    by_cases own : u = t
    · subst own
      have last := (good.sound u).latest_eq_none empty runs
      refine ⟨?_, ?_, ?_⟩
      · rw [buffers, Function.update_self]
        rintro b ⟨⟩
        exact ⟨bytes, Function.update_self .., size⟩
      · intro c member same b result _
        have owns := (good.sound u).returned c member same b result runs
        rw [empty] at owns
        cases owns
      · intro b v isLast
        rw [last] at isLast
        cases isLast
    · refine (good.sound u).congr ?_ ?_ rfl (fun c member _ _ => member) rfl
      · rw [buffers, Function.update_of_ne own]
      · intro b owns
        apply Function.update_of_ne
        rintro rfl
        exact noBuffer u owns
  · exact good.answered

/-- A successful call writes over the thread's own buffer, all of it but the last byte. -/
theorem Good.write (good : Good s) {t : τ} {a : Addr} {buf v : Bytes} {name : CString}
    {environ : List CString} {block : Option (Addr × Bytes)} (owns : s.buffer t = some a)
    (runs : s.exited t = false) (allocated : s.heap a = some buf)
    (found : find name environ = some (some v)) :
    Good { s with
      heap := Function.update s.heap a (some (strncpy buf v (maxStringSz - 1)))
      log := s.log ++ [⟨t, name, environ, block, some a⟩] } := by
  have size : buf.length = maxStringSz := by
    obtain ⟨buf', allocated', size⟩ := (good.sound t).sized a owns
    rw [allocated] at allocated'
    cases allocated'
    exact size
  refine ⟨good.distinct, fun u => ?_,
    forall_mem_snoc.mpr ⟨good.answered, by simp [found]⟩⟩
  by_cases own : u = t
  · subst own
    have success : Call.success u ⟨u, name, environ, block, some a⟩ = some (a, v) :=
      success_eq_some.mpr ⟨rfl, rfl, found⟩
    refine ⟨?_, ?_, ?_⟩
    · intro b owns'
      cases owns.symm.trans owns'
      refine ⟨_, Function.update_self .., ?_⟩
      rw [length_strncpy (by omega), size]
    · refine forall_mem_snoc.mpr ⟨(good.sound u).returned, ?_⟩
      rintro - b ⟨⟩ -
      exact owns
    · intro b w last _
      rw [latest_snoc, success, Option.some_or] at last
      cases last
      exact ⟨buf, Function.update_self ..⟩
  · refine (good.sound u).congr rfl ?_ rfl ?_ ?_
    · intro b owns'
      exact Function.update_of_ne (good.ne_buffer owns owns' own) ..
    · exact forall_mem_snoc.mpr ⟨fun c before _ _ => before, fun same => absurd same.symm own⟩
    · rw [latest_snoc]
      have foreign : Call.success u ⟨t, name, environ, block, some a⟩ = none := if_neg (Ne.symm own)
      rw [foreign, Option.none_or]

/-- A thread is gone, and the buffers of the others stay as they are. -/
theorem Good.leave (good : Good s) {t : τ} (exited : s'.exited = Function.update s.exited t true)
    (log : s'.log = s.log) (buffers : s'.buffer = Function.update s.buffer t none)
    (heap : ∀ u, u ≠ t → ∀ b, s.buffer u = some b → s'.heap b = s.heap b) : Good s' := by
  refine ⟨?_, fun u => ?_, log ▸ good.answered⟩
  · rw [buffers]
    exact distinct_update good.distinct nofun
  · by_cases own : u = t
    · subst own
      have gone : s'.exited u = true := by rw [exited, Function.update_self]
      constructor
      · simp [buffers]
      · simp [gone]
      · simp [gone]
    · refine (good.sound u).congr ?_ (heap u own) ?_ ?_ (by rw [log])
      · rw [buffers, Function.update_of_ne own]
      · rw [exited, Function.update_of_ne own]
      · intro c member _ _
        exact log ▸ member

/-- `free` on the buffer of a thread that exits. -/
theorem Good.exit (good : Good s) (t : τ) : Good (threadExit s t) := by
  unfold threadExit
  split
  · rename_i empty
    refine good.leave rfl rfl ?_ fun _ _ _ _ => rfl
    show s.buffer = Function.update s.buffer t none
    rw [Function.update_eq_self_iff.mpr empty.symm]
  · rename_i a owns
    have done : s.initDone = true := by
      by_contra notDone
      simp [System.buffer, notDone] at owns
    refine good.leave rfl rfl (buffer_update done done rfl) ?_
    intro u other b owns'
    exact Function.update_of_ne (good.ne_buffer owns owns' other) ..

/-! ## Calls and runs -/

omit [DecidableEq τ] in
/-- What the loop and the copy can do. -/
theorem copyValue_cases {name : CString} {environ : List CString} {a : Addr}
    {result : Option Addr} (copied : copyValue s name environ a = some (s', result)) :
    (find name environ = some none ∧ s' = s ∧ result = none) ∨
      ∃ buf value, find name environ = some (some value) ∧ s.heap a = some buf ∧ s' = { s with
        heap := Function.update s.heap a (some (strncpy buf value (maxStringSz - 1))) } ∧
        result = some a := by
  unfold copyValue at copied
  split at copied
  · cases copied
  · rename_i found
    cases copied
    exact Or.inl ⟨found, rfl, rfl⟩
  · rename_i value found
    split at copied
    · cases copied
    · rename_i buf allocated
      split at copied
      · cases copied
      · cases copied
        exact Or.inr ⟨buf, value, found, allocated, rfl, rfl⟩

/-- What a call leaves alone, whichever way it goes. -/
structure Called (s s' : System τ) : Prop where
  exited : s'.exited = s.exited
  log : s'.log = s.log
  outside : s'.outside = s.outside

/-- The loop and the copy into the thread's buffer. -/
theorem Good.copy (good : Good s) {t : τ} {a : Addr} (owns : s.buffer t = some a)
    (runs : s.exited t = false) {name : CString} {environ : List CString}
    {result : Option Addr} (copied : copyValue s name environ a = some (s', result))
    (block : Option (Addr × Bytes)) :
    Good { s' with log := s'.log ++ [⟨t, name, environ, block, result⟩] } ∧ Called s s' := by
  rcases copyValue_cases copied with ⟨found, rfl, rfl⟩ | ⟨buf, v, found, allocated, rfl, rfl⟩
  · exact ⟨good.null t (Or.inr found), rfl, rfl, rfl⟩
  · exact ⟨good.write owns runs allocated found, rfl, rfl, rfl⟩

/-- The buffer is large enough, so only the loop can fail. -/
theorem Good.copyValue_some (good : Good s) {t : τ} {a : Addr} (owns : s.buffer t = some a)
    {name : CString} {environ : List CString} (inside : find name environ ≠ none) :
    ∃ s' result, copyValue s name environ a = some (s', result) := by
  obtain ⟨buf, allocated, size⟩ := (good.sound t).sized a owns
  have fits : ¬ buf.length < maxStringSz - 1 := by omega
  obtain ⟨answer, found⟩ := Option.ne_none_iff_exists'.mp inside
  cases answer with
  | none => exact ⟨s, none, by simp only [copyValue, found]⟩
  | some v => exact ⟨_, some a, by simp only [copyValue, found, allocated, if_neg fits]; rfl⟩

/-- The ways of a call: without a block it returns NULL, and otherwise the loop and the copy
are made with a buffer of the thread. -/
theorem Good.getenv_cases (good : Good s) {t : τ} (runs : s.exited t = false) (name : CString)
    (environ : List CString) {block : Option (Addr × Bytes)}
    (answers : mallocAnswers s block = true) :
    (block = none ∧ getenv_ s t name environ block = some (pthreadOnce s, none)) ∨
      ∃ m a, getenv_ s t name environ block = copyValue m name environ a ∧ Good m ∧
        m.buffer t = some a ∧ Called s m := by
  obtain ⟨done, heap, exited, log, outside⟩ := pthreadOnce_frame s
  have slots := buffer_of_initDone done
  have runs' : (pthreadOnce s).exited t = false := exited ▸ runs
  unfold getenv_ envbuf
  cases slot : (pthreadOnce s).slot t with
  | some a => exact Or.inr ⟨_, a, rfl, good.once, slots ▸ slot, exited, log, outside⟩
  | none =>
      cases block with
      | none => exact Or.inl ⟨rfl, rfl⟩
      | some new =>
          obtain ⟨a, bytes⟩ := new
          obtain ⟨free, size⟩ : s.heap a = none ∧ bytes.length = maxStringSz := by
            simpa [mallocAnswers] using answers
          have good' := good.once.allocate done (slots ▸ slot) runs' (heap ▸ free) size
          exact Or.inr ⟨_, a, rfl, good', (if_pos done).trans (Function.update_self ..), exited,
            log, outside⟩

omit [DecidableEq τ] in
theorem Called.trans {m : System τ} (first : Called s m) (second : Called m s') : Called s s' :=
  ⟨second.exited.trans first.exited, second.log.trans first.log,
    second.outside.trans first.outside⟩

theorem Good.getenv (good : Good s) {t : τ} (runs : s.exited t = false) {name : CString}
    {environ : List CString} {block : Option (Addr × Bytes)} {result : Option Addr}
    (answers : mallocAnswers s block = true)
    (called : getenv_ s t name environ block = some (s', result)) :
    Good { s' with log := s'.log ++ [⟨t, name, environ, block, result⟩] } ∧ Called s s' := by
  rcases good.getenv_cases runs name environ answers with
    ⟨noBlock, null⟩ | ⟨m, a, copies, goodM, owns, before⟩
  · rw [null] at called
    cases called
    obtain ⟨-, -, exited, log, outside⟩ := pthreadOnce_frame s
    exact ⟨good.once.null t (Or.inl noBlock), exited, log, outside⟩
  · rw [copies] at called
    obtain ⟨good', after⟩ := goodM.copy owns (before.exited ▸ runs) called block
    exact ⟨good', before.trans after⟩

/-- A call makes no access outside a block, if the loop makes none outside the entries. -/
theorem Good.getenv_some (good : Good s) {t : τ} (runs : s.exited t = false) {name : CString}
    {environ : List CString} {block : Option (Addr × Bytes)}
    (answers : mallocAnswers s block = true) (inside : find name environ ≠ none) :
    ∃ s' result, getenv_ s t name environ block = some (s', result) := by
  rcases good.getenv_cases runs name environ answers with
    ⟨-, null⟩ | ⟨m, a, copies, goodM, owns, -⟩
  · exact ⟨_, _, null⟩
  · rw [copies]
    exact goodM.copyValue_some owns inside

/-- The steps that are made, with an access outside or without. -/
theorem call_cases {t : τ} {name : CString} {environ : List CString}
    {block : Option (Addr × Bytes)}
    (stepped : s.step (.call t name environ block) = some s') :
    s.outside = false ∧ s.exited t = false ∧ mallocAnswers s block = true ∧
      ((getenv_ s t name environ block = none ∧ s' = { s with outside := true }) ∨
        ∃ m result, getenv_ s t name environ block = some (m, result) ∧
          s' = { m with log := m.log ++ [⟨t, name, environ, block, result⟩] }) := by
  simp only [System.step] at stepped
  split at stepped
  · cases stepped
  · rename_i able
    simp only [not_or, Bool.not_eq_true, Bool.not_eq_false] at able
    refine ⟨able.1, able.2.1, able.2.2, ?_⟩
    split at stepped
    · rename_i outside
      exact Or.inl ⟨outside, (Option.some.inj stepped).symm⟩
    · rename_i m result called
      exact Or.inr ⟨m, result, called, (Option.some.inj stepped).symm⟩

theorem exit_cases {t : τ} (stepped : s.step (.exit t) = some s') :
    s.outside = false ∧ s' = threadExit s t := by
  simp only [System.step] at stepped
  split at stepped
  · cases stepped
  · rename_i able
    simp only [not_or, Bool.not_eq_true] at able
    exact ⟨able.1, (Option.some.inj stepped).symm⟩

theorem threadExit_frame (s : System τ) (t : τ) :
    (threadExit s t).exited = Function.update s.exited t true ∧ (threadExit s t).log = s.log ∧
      (threadExit s t).outside = s.outside := by
  unfold threadExit
  split <;> exact ⟨rfl, rfl, rfl⟩

/-- A thread exits only by its exit event, and every call without an access outside is
logged. -/
theorem Good.step (good : Good s) {e : Event τ} (stepped : s.step e = some s') :
    Good s' ∧ (∀ t, s'.exited t = true → s.exited t = true ∨ e = .exit t) ∧
      (s'.log = s.log ∧ s'.outside = true ∨
        s'.log.map Call.asked = s.log.map Call.asked ++ e.asks.toList ∧ s'.outside = false) := by
  cases e with
  | call t name environ block =>
      obtain ⟨sane, runs, answers, ⟨-, rfl⟩ | ⟨m, result, called, rfl⟩⟩ := call_cases stepped
      · refine ⟨⟨good.distinct, fun u => ?_, good.answered⟩, fun u gone => Or.inl gone,
          Or.inl ⟨rfl, rfl⟩⟩
        exact (good.sound u).congr rfl (fun _ _ => rfl) rfl (fun _ member _ _ => member) rfl
      · obtain ⟨good', same⟩ := good.getenv runs answers called
        refine ⟨good', fun u gone => Or.inl (same.exited ▸ gone), Or.inr ⟨?_, ?_⟩⟩
        · rw [List.map_append, same.log]
          rfl
        · exact same.outside.trans sane
  | exit t =>
      obtain ⟨sane, rfl⟩ := exit_cases stepped
      obtain ⟨exited, log, outside⟩ := threadExit_frame s t
      refine ⟨good.exit t, fun u gone => ?_, Or.inr ⟨?_, outside.trans sane⟩⟩
      · rw [exited, Function.update_apply] at gone
        split at gone
        · rename_i same
          exact Or.inr (same ▸ rfl)
        · exact Or.inl gone
      · rw [log]
        exact (List.append_nil _).symm

theorem step_outside {e : Event τ} (outside : s.outside = true) : s.step e = none := by
  cases e <;> exact if_pos (Or.inl outside)

theorem Good.run (good : Good s) {events : List (Event τ)}
    (ran : run System.step s events = some s') :
    Good s' ∧ (∀ t, s'.exited t = true → s.exited t = true ∨ .exit t ∈ events) ∧
      s'.log.map Call.asked <+: s.log.map Call.asked ++ events.filterMap Event.asks ∧
      (s'.outside = false →
        s'.log.map Call.asked = s.log.map Call.asked ++ events.filterMap Event.asks) := by
  induction events generalizing s with
  | nil =>
      cases ran
      exact ⟨good, fun t gone => Or.inl gone, by simp, by simp⟩
  | cons e events ih =>
      obtain ⟨m, first, rest⟩ := (run_cons_some _).mp ran
      obtain ⟨goodM, exitedM, logM⟩ := good.step first
      obtain ⟨good', exited, log, all⟩ := ih goodM rest
      refine ⟨good', fun t gone => ?_, ?_⟩
      · rcases exited t gone with earlier | later
        · rcases exitedM t earlier with before | now
          · exact Or.inl before
          · exact Or.inr (now ▸ List.mem_cons_self)
        · exact Or.inr (List.mem_cons_of_mem _ later)
      · rcases logM with ⟨sameLog, outside⟩ | ⟨grown, -⟩
        · -- nothing comes behind an access outside
          have last : s' = m := by
            cases events with
            | nil => exact (Option.some.inj rest).symm
            | cons e' events =>
                obtain ⟨m', next, -⟩ := (run_cons_some _).mp rest
                rw [step_outside outside] at next
                cases next
          subst last
          rw [sameLog, outside]
          exact ⟨List.prefix_append _ _, nofun⟩
        · rw [grown, List.append_assoc, ← filterMap_cons_toList] at log all
          exact ⟨log, all⟩

/-- With arguments that the `int`s can count, no call makes an access outside. -/
theorem Good.run_inside (good : Good s) (sane : s.outside = false) {events : List (Event τ)}
    (ran : Library.run System.step s events = some s')
    (counted : ∀ asked ∈ events.filterMap Event.asks, Counted asked.2.1 asked.2.2.1) :
    s'.outside = false := by
  induction events generalizing s with
  | nil =>
      cases ran
      exact sane
  | cons e events ih =>
      obtain ⟨m, first, rest⟩ := (run_cons_some _).mp ran
      rw [filterMap_cons_toList] at counted
      refine ih (good.step first).1 ?_ rest fun asked member =>
        counted asked (List.mem_append_right _ member)
      cases e with
      | call t name environ block =>
          obtain ⟨-, runs, answers, ⟨outside, -⟩ | ⟨m', result, called, rfl⟩⟩ := call_cases first
          · obtain ⟨m', result, called⟩ := good.getenv_some runs answers
              (find_inside (counted (t, name, environ, block) (List.mem_append_left _ (by
                simp [Event.asks]))))
            rw [outside] at called
            cases called
          · exact (good.getenv runs answers called).2.outside.trans sane
      | exit t =>
          obtain ⟨-, rfl⟩ := exit_cases first
          exact (threadExit_frame s t).2.2.trans sane

/-- **Thread isolation.**  Let any number of threads call `getenv_` in any order, in any
environments, with any contents of the blocks from `malloc`.  As far as names and
environments can be counted by an `int`, every call is answered without an access outside a
string or a block.  The answer is NULL exactly if the variable is not there, once `malloc`
answers.  Two calls return one pointer if they are of one thread, and two if they
are of two.  And whatever was called since, the buffer of a thread holds the value its
latest successful call found, if that is shorter than `MAXSTRINGSZ - 1` bytes. -/
theorem getenv_isolated (slot : τ → Option Addr) (heap : Addr → Option Bytes)
    {events : List (Event τ)} {s : System τ}
    (ran : Library.run System.step (start slot heap) events = some s) :
    ((∀ asked ∈ events.filterMap Event.asks, Counted asked.2.1 asked.2.2.1) →
      s.outside = false ∧ s.log.map Call.asked = events.filterMap Event.asks) ∧
    (∀ c ∈ s.log, c.block ≠ none → (c.result = none ↔ find c.name c.environ = some none)) ∧
    (∀ c ∈ s.log, ∀ d ∈ s.log, ∀ a b, c.result = some a → d.result = some b →
      .exit c.thread ∉ events → .exit d.thread ∉ events → (a = b ↔ c.thread = d.thread)) ∧
    ∀ t a v, latest t s.log = some (a, v) → .exit t ∉ events → v.length < maxStringSz - 1 →
      ∃ buf, s.heap a = some buf ∧ cstr buf = v := by
  obtain ⟨good, exited, -, log⟩ := (good_start slot heap).run ran
  have running : ∀ t, .exit t ∉ events → s.exited t = false := by
    intro t stays
    by_contra gone
    rcases exited t (by simpa using gone) with before | now
    · cases before
    · exact stays now
  refine ⟨fun counted => ?_, good.answered, ?_, ?_⟩
  · have inside := (good_start slot heap).run_inside rfl ran counted
    exact ⟨inside, log inside⟩
  · intro c memberC d memberD a b resultC resultD staysC staysD
    have ownsC := (good.sound c.thread).returned c memberC rfl a resultC (running _ staysC)
    have ownsD := (good.sound d.thread).returned d memberD rfl b resultD (running _ staysD)
    constructor
    · rintro rfl
      exact good.distinct _ _ a ownsC ownsD
    · intro same
      rw [same, ownsD] at ownsC
      exact (Option.some.inj ownsC).symm
  · intro t a v last stays short
    obtain ⟨old, written⟩ := (good.sound t).holds a v last (running t stays)
    obtain ⟨c, -, success⟩ := mem_of_latest last
    obtain ⟨-, -, found⟩ := success_eq_some.mp success
    exact ⟨_, written, cstr_strncpy (find_nulFree found) short old⟩

end Isolation

/-! ## The threads of test_env.c -/

def nameVar : CString := ⟨[78, 65, 77, 69], by decide⟩

def idVar : CString := ⟨[73, 68], by decide⟩

/-- `NAME=joe` and `ID=7`. -/
def testEnviron : List CString :=
  [⟨[78, 65, 77, 69, 61, 106, 111, 101], by decide⟩, ⟨[73, 68, 61, 55], by decide⟩]

/-- `thr_fn1` and `thr_fn2` in turns, the second on a block without a NUL. -/
def testEnv : List (Event Bool) :=
  [.call true nameVar testEnviron (some (1, zeros maxStringSz)),
    .call false nameVar testEnviron (some (2, List.replicate maxStringSz 255)),
    .call true idVar testEnviron none, .call false idVar testEnviron none]

theorem testEnv_runs :
    (run System.step (start (fun _ => some 7) fun _ => none) testEnv).map
      (fun s => (s.log.map Call.result, latest false s.log)) =
        some ([some 1, some 2, some 1, some 2], some (2, [55])) := by
  decide +kernel

/-- The shorter `7` over `joe`, and nothing of `joe` left. -/
theorem getenv_isolated_test_env :
    ∃ s, run System.step (start (fun _ => some 7) fun _ => none) testEnv = some s ∧
      s.log.map Call.result = [some 1, some 2, some 1, some 2] ∧
      ∃ buf, s.heap 2 = some buf ∧ cstr buf = [55] := by
  obtain ⟨s, ran, seen⟩ := Option.map_eq_some_iff.mp testEnv_runs
  obtain ⟨results, last⟩ := Prod.mk.inj seen
  obtain ⟨-, -, -, buffers⟩ := getenv_isolated _ _ ran
  refine ⟨s, ran, results, buffers false 2 [55] last ?_ (by decide)⟩
  simp [testEnv]

end UnixDemos.Pthread.Getenv
