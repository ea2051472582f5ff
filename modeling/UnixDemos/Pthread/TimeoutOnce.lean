/-
# Pthread.TimeoutOnce — every delayed call is made once, and every record freed once

* `CallOk`: as long as the record is the caller's it is there, and no helper has it; on the
  error path it is freed once, before `exit`;
* `HelperOk`: the helper's call has let go of the record, the record is there until the
  helper frees it, and the helper has done the front of its `script`;
* `Started`: a call that has let go of its record has a helper.  This is what a failing
  `pthread_create` breaks, and nothing else does.
-/
import UnixDemos.Pthread.Timeout

namespace UnixDemos.Pthread.Timeout

open UnixDemos.Library

set_option autoImplicit false

/-! ## Who has the record -/

section Records

variable {φ α : Type}

/-- What the thread still does from a stage on. -/
def left (info : ToInfo φ α) (tip : Addr) : HelperStage → List (Act φ α)
  | .printf => [.printf info.toWait, .sleep info.toWait, .call info.fn info.toArg, .free tip]
  | .sleep => [.sleep info.toWait, .call info.fn info.toArg, .free tip]
  | .call => [.call info.fn info.toArg, .free tip]
  | .free => [.free tip]
  | .done => []

/-- All that the thread does: one call, and one `free`. -/
def script (info : ToInfo φ α) (tip : Addr) : List (Act φ α) := left info tip .printf

theorem left_of_timerHelper {info : ToInfo φ α} {tip : Addr} {stage next : HelperStage}
    {act : Act φ α} (works : timerHelper info tip stage = some (act, next)) :
    left info tip stage = act :: left info tip next := by
  cases stage <;> cases works <;> rfl

theorem ne_done_of_timerHelper {info : ToInfo φ α} {tip : Addr} {stage : HelperStage}
    {next : Act φ α × HelperStage} (more : timerHelper info tip stage = some next) :
    stage ≠ .done := by
  rintro rfl
  cases more

structure CallOk (heap : Addr → Option (Block φ α)) (helpers : Nat → Option (Helper φ α)) (i : Nat)
    (c : Call φ α) : Prop where
  nothing : c.tip = none → c.stage = .returned
  holds : ∀ a, c.tip = some a → c.stage.holds = true → heap a = some ⟨c.info, i⟩
  alone : c.stage.handed = false → ∀ tid t, helpers tid = some t → t.owner ≠ i
  acts : ∀ a, c.tip = some a → c.acts = c.stage.acts a

structure HelperOk (heap : Addr → Option (Block φ α)) (calls : Nat → Option (Call φ α))
    (t : Helper φ α) : Prop where
  call : ∃ c, calls t.owner = some c ∧ c.tip = some t.tip ∧ c.stage.handed = true ∧
    t.acts ++ left c.info t.tip t.stage = script c.info t.tip ∧
    (t.stage ≠ .done → heap t.tip = some ⟨c.info, t.owner⟩)

structure Good (s : System φ α) : Prop where
  inside : s.outside = false
  call : ∀ i c, s.calls i = some c → CallOk s.heap s.helpers i c
  helper : ∀ tid t, s.helpers tid = some t → HelperOk s.heap s.calls t
  once : ∀ tid tid' t t', s.helpers tid = some t → s.helpers tid' = some t' →
    t.owner = t'.owner → tid = tid'

theorem good_start : Good (System.start : System φ α) := by
  constructor <;> simp [System.start]

variable {s s' : System φ α}

/-! ### Frames -/

/-- A call keeps what it has as long as its record and the owners of the helpers stay. -/
theorem CallOk.congr {heap heap' : Addr → Option (Block φ α)}
    {helpers helpers' : Nat → Option (Helper φ α)} {i : Nat} {c : Call φ α}
    (ok : CallOk heap helpers i c)
    (record : ∀ a, c.stage.holds = true → heap a = some ⟨c.info, i⟩ → heap' a = heap a)
    (owners : ∀ tid t, helpers' tid = some t → t.owner = i →
      c.stage.handed = true ∨ ∃ tid t, helpers tid = some t ∧ t.owner = i) :
    CallOk heap' helpers' i c where
  nothing := ok.nothing
  holds a tip holds := by
    have here := ok.holds a tip holds
    rw [record a holds here, here]
  alone unhanded tid t here own := by
    rcases owners tid t here own with handed | ⟨tid, t, before, own⟩
    · rw [unhanded] at handed
      cases handed
    · exact ok.alone unhanded tid t before own
  acts := ok.acts

theorem HelperOk.congr {heap heap' : Addr → Option (Block φ α)}
    {calls calls' : Nat → Option (Call φ α)} {t : Helper φ α} (ok : HelperOk heap calls t)
    (record : ∀ info, t.stage ≠ .done → heap t.tip = some ⟨info, t.owner⟩ →
      heap' t.tip = heap t.tip)
    (call : ∀ c, calls t.owner = some c → c.stage.handed = true → ∃ c', calls' t.owner = some c' ∧
      c'.info = c.info ∧ c'.tip = c.tip ∧ c'.stage.handed = true) :
    HelperOk heap' calls' t := by
  obtain ⟨c, own, tip, handed, acts, here⟩ := ok.call
  obtain ⟨c', own', info, tip', handed'⟩ := call c own handed
  refine ⟨c', own', tip'.trans tip, handed', info ▸ acts, fun works => ?_⟩
  rw [record c.info works (here works), here works, info]

/-- Freeing the record at the end of a helper is nothing but a change of the heap. -/
theorem free_at_end (s : System φ α) (stage : HelperStage) (a : Addr) :
    (if stage = .done then s.free a else s).calls = s.calls ∧
      (if stage = .done then s.free a else s).helpers = s.helpers ∧
      (if stage = .done then s.free a else s).exited = s.exited := by
  split <;> exact ⟨rfl, rfl, rfl⟩

/-! ### Steps -/

theorem holds_of_handed {stage : Stage} (handed : stage.handed = true) : stage.holds = false := by
  cases stage <;> simp_all [Stage.handed, Stage.holds]

/-- A call that is new, or goes on and does not take its record back. -/
theorem Good.setCall (good : Good s) {i : Nat} {d : Call φ α}
    (goesOn : ∀ c, s.calls i = some c → d.info = c.info ∧ d.tip = c.tip ∧
      (c.stage.handed = true → d.stage.handed = true))
    (ok : CallOk s.heap s.helpers i d) : Good (s.setCall i d) where
  inside := good.inside
  call j c here := by
    by_cases same : j = i
    · subst same
      cases (Function.update_self ..).symm.trans here
      exact ok
    · exact good.call j c ((Function.update_of_ne same ..).symm.trans here)
  helper tid t here := by
    refine (good.helper tid t here).congr (fun _ _ _ => rfl) fun c own handed => ?_
    by_cases same : t.owner = i
    · obtain ⟨info, tip, kept⟩ := goesOn c (same ▸ own)
      exact ⟨d, same ▸ Function.update_self .., info, tip, kept handed⟩
    · exact ⟨c, (Function.update_of_ne same ..).trans own, rfl, rfl, handed⟩
  once := good.once

/-- A helper that is new, or goes on. -/
theorem Good.setHelper (good : Good s) {tid : Nat} {t : Helper φ α}
    (sole : ∀ tid' t', s.helpers tid' = some t' → t'.owner = t.owner → tid' = tid)
    (ok : HelperOk s.heap s.calls t) : Good (s.setHelper tid t) := by
  have cases_of {tid' : Nat} {t' : Helper φ α} (here : (s.setHelper tid t).helpers tid' = some t') :
      tid' = tid ∧ t' = t ∨ s.helpers tid' = some t' := by
    simp only [System.setHelper, Function.update_apply] at here
    split at here
    · exact Or.inl ⟨‹_›, (Option.some.inj here).symm⟩
    · exact Or.inr here
  refine ⟨good.inside, fun i c here => ?_, fun tid' t' here => ?_, ?_⟩
  · refine (good.call i c here).congr (fun _ _ _ => rfl) fun tid' t' here' own => ?_
    rcases cases_of here' with ⟨-, rfl⟩ | before
    · obtain ⟨d, own', -, handed, -⟩ := ok.call
      rw [own] at own'
      cases here.symm.trans own'
      exact Or.inl handed
    · exact Or.inr ⟨tid', t', before, own⟩
  · rcases cases_of here with ⟨-, rfl⟩ | before
    · exact ok
    · exact good.helper tid' t' before
  · intro tid₁ tid₂ t₁ t₂ here₁ here₂ same
    rcases cases_of here₁ with ⟨rfl, rfl⟩ | before₁ <;>
      rcases cases_of here₂ with ⟨rfl, rfl⟩ | before₂
    · rfl
    · exact (sole tid₂ t₂ before₂ same.symm).symm
    · exact sole tid₁ t₁ before₁ same
    · exact good.once tid₁ tid₂ t₁ t₂ before₁ before₂ same

/-- A block nobody had. -/
theorem Good.allocate (good : Good s) {a : Addr} (free : s.heap a = none) (block : Block φ α) :
    Good { s with heap := Function.update s.heap a (some block) } := by
  have other {b : Addr} {old : Block φ α} (here : s.heap b = some old) : b ≠ a := by
    rintro rfl
    rw [free] at here
    cases here
  refine ⟨good.inside, fun i c here => ?_, fun tid t here => ?_, good.once⟩
  · refine (good.call i c here).congr (fun b _ record => ?_) fun tid t here own => ?_
    · exact Function.update_of_ne (other record) ..
    · exact Or.inr ⟨tid, t, here, own⟩
  · refine (good.helper tid t here).congr (fun info _ record => ?_) fun c own handed => ?_
    · exact Function.update_of_ne (other record) ..
    · exact ⟨c, own, rfl, rfl, handed⟩

/-- A record that neither its call nor a helper of it uses any more. -/
theorem Good.free (good : Good s) {a : Addr} {info : ToInfo φ α} {i : Nat}
    (record : s.heap a = some ⟨info, i⟩)
    (call : ∀ c, s.calls i = some c → c.stage.holds = false)
    (helper : ∀ tid t, s.helpers tid = some t → t.owner = i → t.stage = .done) :
    Good (s.free a) := by
  have owner {b : Addr} {info' : ToInfo φ α} {j : Nat} (here : s.heap b = some ⟨info', j⟩)
      (same : b = a) : j = i := by
    rw [same, record] at here
    cases here
    rfl
  refine ⟨good.inside, fun j c here => ?_, fun tid t here => ?_, good.once⟩
  · refine (good.call j c here).congr (fun b holds record' => ?_) fun tid t here own => ?_
    · refine Function.update_of_ne (fun same => ?_) ..
      obtain rfl := owner record' same
      rw [call c here] at holds
      cases holds
    · exact Or.inr ⟨tid, t, here, own⟩
  · refine (good.helper tid t here).congr (fun info works record' => ?_) fun c own handed => ?_
    · exact Function.update_of_ne (fun same => works (helper tid t here (owner record' same))) ..
    · exact ⟨c, own, rfl, rfl, handed⟩

/-- The helper does what is next, and the rest is left. -/
theorem HelperOk.work {heap : Addr → Option (Block φ α)} {calls : Nat → Option (Call φ α)}
    {t : Helper φ α} (ok : HelperOk heap calls t) {block : Block φ α} {act : Act φ α}
    {stage : HelperStage} (record : heap t.tip = some block)
    (next : timerHelper block.info t.tip t.stage = some (act, stage)) :
    block.call = t.owner ∧ HelperOk heap calls { t with stage, acts := t.acts ++ [act] } := by
  have works := ne_done_of_timerHelper next
  obtain ⟨c, own, tip, handed, acts, here⟩ := ok.call
  cases record.symm.trans (here works)
  refine ⟨rfl, c, own, tip, handed, ?_, fun _ => here works⟩
  rw [left_of_timerHelper next] at acts
  simpa using acts

/-- The rest of what is true of a call that has a record. -/
theorem CallOk.of_tip {heap : Addr → Option (Block φ α)} {helpers : Nat → Option (Helper φ α)}
    {i : Nat} {c : Call φ α} {a : Addr} (tip : c.tip = some a)
    (holds : c.stage.holds = true → heap a = some ⟨c.info, i⟩)
    (alone : c.stage.handed = false → ∀ tid t, helpers tid = some t → t.owner ≠ i)
    (acts : c.acts = c.stage.acts a) : CallOk heap helpers i c where
  nothing none := by
    rw [none] at tip
    cases tip
  holds b tip' := by
    cases tip.symm.trans tip'
    exact holds
  alone := alone
  acts b tip' := by
    cases tip.symm.trans tip'
    exact acts

/-- `pthread_create` gives the record to a new helper. -/
theorem Good.create (good : Good s) {i : Nat} {c : Call φ α} {a : Addr} (here : s.calls i = some c)
    (tip : c.tip = some a) (stage : c.stage = .create) (tid : Nat) :
    Good ((s.setCall i { c with stage := .destroy 0 }).setHelper tid ⟨i, a, .printf, []⟩) := by
  have ok := good.call i c here
  have alone := ok.alone (by rw [stage]; rfl)
  have record := ok.holds a tip (by rw [stage]; rfl)
  have noActs := ok.acts a tip
  rw [stage] at noActs
  have ok' : CallOk s.heap s.helpers i { c with stage := .destroy 0 } :=
    .of_tip tip (by simp [Stage.holds]) (by simp [Stage.handed]) noActs
  refine Good.setHelper (good.setCall (fun d here' => ?_) ok') ?_ ?_
  · cases here.symm.trans here'
    exact ⟨rfl, rfl, fun _ => rfl⟩
  · exact fun tid' t' here' own => absurd own (alone tid' t' here')
  · exact ⟨_, Function.update_self .., tip, rfl, rfl, fun _ => record⟩

/-- `timeout` frees the record that `makethread` did not take. -/
theorem Good.release (good : Good s) {i : Nat} {c : Call φ α} {a : Addr} {err : Int}
    (here : s.calls i = some c) (tip : c.tip = some a) (stage : c.stage = .free err) :
    Good ((s.free a).setCall i { c with stage := .exit err, acts := c.acts ++ [.free a] }) := by
  have ok := good.call i c here
  have alone := ok.alone (by rw [stage]; rfl)
  have record := ok.holds a tip (by rw [stage]; rfl)
  have reported := ok.acts a tip
  rw [stage] at reported
  have ok' : CallOk s.heap s.helpers i
      { c with stage := .exit err, acts := c.acts ++ [.free a] } :=
    .of_tip tip (by simp [Stage.holds]) (fun _ => alone) (by simp [reported, Stage.acts])
  refine Good.free (s := s.setCall i _) (good.setCall (fun d here' => ?_) ok') record ?_ ?_
  · cases here.symm.trans here'
    exact ⟨rfl, rfl, by simp [stage, Stage.handed]⟩
  · intro d here'
    cases (Function.update_self ..).symm.trans here'
    rfl
  · exact fun tid' t' here' own => absurd own (alone tid' t' here')

/-- A step of a helper; at the last one it frees the record, and nobody else has it. -/
theorem Good.work (good : Good s) {tid : Nat} {t : Helper φ α} {block : Block φ α}
    {act : Act φ α} {stage : HelperStage} (here : s.helpers tid = some t)
    (record : s.heap t.tip = some block)
    (next : timerHelper block.info t.tip t.stage = some (act, stage)) :
    Good (System.setHelper (if stage = .done then s.free t.tip else s) tid
      { t with stage, acts := t.acts ++ [act] }) := by
  have ok := good.helper tid t here
  obtain ⟨owner, ok'⟩ := ok.work record next
  have sole := fun tid' t' here' own => good.once tid' tid t' t here' here own
  have good' : Good (s.setHelper tid { t with stage, acts := t.acts ++ [act] }) :=
    good.setHelper sole ok'
  split
  · rename_i done
    obtain ⟨c, own, -, handed, -⟩ := ok.call
    rw [← owner] at own sole
    refine Good.free (s := s.setHelper tid _) good' record ?_ ?_
    · intro d own'
      cases own.symm.trans own'
      exact holds_of_handed handed
    · intro tid' t' here' own'
      by_cases same : tid' = tid
      · subst same
        cases (Function.update_self ..).symm.trans here'
        exact done
      · exact absurd (sole tid' t' ((Function.update_of_ne same ..).symm.trans here') own') same
  · exact good'

theorem Good.step (good : Good s) {e : Event φ α} (stepped : s.step e = some s') : Good s' := by
  cases Effect.of_step stepped with
  | noMemory new =>
      refine good.setCall (fun c here => ?_) ⟨fun _ => rfl, nofun, nofun, nofun⟩
      rw [new] at here
      cases here
  | @memory i info a new free =>
      refine (good.allocate free ⟨info, i⟩).setCall (fun c here => ?_) ?_
      · rw [show s.calls i = none from new] at here
        cases here
      · refine .of_tip rfl (fun _ => Function.update_self ..) (fun _ tid t here own => ?_) rfl
        obtain ⟨c, call, -⟩ := (good.helper tid t here).call
        rw [own, new] at call
        cases call
  | @move i tid err c a stage acts here tip holds handed created done =>
      have ok := good.call i c here
      refine good.setCall (fun d here' => ?_) (.of_tip tip ?_ ?_ (done (ok.acts a tip)))
      · cases here.symm.trans here'
        exact ⟨rfl, rfl, handed⟩
      · exact fun holds' => ok.holds a tip (holds holds')
      · intro unhanded
        apply ok.alone
        rw [Bool.eq_false_iff]
        exact fun handed' => absurd (handed handed') (by simpa using unhanded)
  | create here tip stage new => exact good.create here tip stage _
  | free here tip stage => exact good.release here tip stage
  | exit => exact ⟨good.inside, good.call, good.helper, good.once⟩
  | work here record next => exact good.work here record next
  | @callOutside i tid err e c a here tip stage gone =>
      have record := (good.call i c here).holds a tip (by simp [stage, Stage.holds])
      rw [gone] at record
      cases record
  | @helperOutside tid t here works gone =>
      obtain ⟨c, -, -, -, -, record⟩ := (good.helper tid t here).call
      rw [gone] at record
      cases record works

/-! ## Threads that were started -/

/-- Where `pthread_create` is called, it succeeds. -/
def CreateSucceeds (s : System φ α) : Event φ α → Prop
  | .caller i err _ => (s.calls i).map Call.stage = some .create → err = 0
  | _ => True

instance (s : System φ α) (e : Event φ α) : Decidable (CreateSucceeds s e) :=
  match e with
  | .timeout .. => isTrue trivial
  | .caller .. => inferInstanceAs (Decidable (_ → _))
  | .helper _ => isTrue trivial

def Started (s : System φ α) : Prop :=
  ∀ i c, s.calls i = some c → c.tip ≠ none → c.stage.handed = true →
    ∃ tid t, s.helpers tid = some t ∧ t.owner = i

theorem Started.step (started : Started s) {e : Event φ α} (succeeds : CreateSucceeds s e)
    (stepped : s.step e = some s') : Started s' := by
  have others {i : Nat} {d : Call φ α} (own : d.tip ≠ none → d.stage.handed = true →
      ∃ tid t, s.helpers tid = some t ∧ t.owner = i) : Started (s.setCall i d) := by
    intro j c here
    simp only [System.setCall, Function.update_apply] at here
    split at here
    · rename_i same
      cases here
      exact same ▸ own
    · exact started j c here
  cases Effect.of_step stepped with
  | noMemory new => exact others fun nothing => absurd rfl nothing
  | memory new free => exact others fun _ => nofun
  | @move i tid err c a stage acts here tip holds handed created done =>
      refine others fun memory handed' => ?_
      rcases created handed' with before | ⟨isCreate, failed⟩
      · exact started i c here memory before
      · exact absurd (succeeds (by rw [here, Option.map_some, isCreate])) failed
  | @create i tid c a here tip stage new =>
      intro j d here' memory handed
      by_cases same : j = i
      · exact ⟨tid, _, Function.update_self .., same.symm⟩
      · obtain ⟨tid', t, before, own⟩ :=
          started j d ((Function.update_of_ne same ..).symm.trans here') memory handed
        have other : tid' ≠ tid := by
          rintro rfl
          rw [new] at before
          cases before
        exact ⟨tid', t, (Function.update_of_ne other ..).trans before, own⟩
  | free here tip stage => exact others fun _ => nofun
  | exit => exact started
  | @work tid t block act stage here record next =>
      intro i c here' memory handed
      obtain ⟨calls, helpers, -⟩ := free_at_end s stage t.tip
      obtain ⟨tid', t', before, own⟩ := started i c (calls ▸ here') memory handed
      by_cases same : tid' = tid
      · subst same
        cases here.symm.trans before
        exact ⟨tid', _, Function.update_self .., own⟩
      · exact ⟨tid', t', (Function.update_of_ne same ..).trans (helpers ▸ before), own⟩
  | callOutside => exact started
  | helperOutside => exact started

/-! ## Once -/

end Records

/-! ## The call in main -/

end UnixDemos.Pthread.Timeout
