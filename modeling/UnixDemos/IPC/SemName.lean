/-
# IPC.SemName — when two names of sem_lock.c are the same

`s_alloc` prints its pid, a dot and its counter into an array of 14 bytes, and
`snprintf` drops what does not fit.  A positive pid has ten digits at most, so the pid
and the dot are always there, and two processes never make the same name.  For the
counter there are `room pid` places, from two to eleven; a counter with more digits
loses its last ones, and the name is that of `lead (room pid) cnt` (`semName_eq_iff`).

As long as the counter has no more digits than there are places, a retry of the loop
tries a new name, and the lock has one that was not tried before (`sAlloc_fresh`).
-/
import UnixDemos.IPC.SemLock
import UnixDemos.Library.Stream

namespace UnixDemos.IPC.SemLock

open UnixDemos.Library

set_option autoImplicit false

/-- The values of a pid and of the counter. -/
structure Named (pid cnt : Int) : Prop where
  pid : 0 < pid ∧ pid < 2 ^ 31
  cnt : 0 ≤ cnt ∧ cnt < 2 ^ 31

instance (pid cnt : Int) : Decidable (Named pid cnt) :=
  decidable_of_iff ((0 < pid ∧ pid < 2 ^ 31) ∧ (0 ≤ cnt ∧ cnt < 2 ^ 31))
    ⟨fun h => ⟨h.1, h.2⟩, fun h => ⟨h.pid, h.cnt⟩⟩

/-- How many digits of the counter fit behind a pid and the dot. -/
def room (pid : Int) : Nat := posixNameMax - 2 - (printInt pid).length

section Names

variable {p q c d : Int}

theorem printInt_of_nonneg {v : Int} (nonneg : 0 ≤ v) : printInt v = decimal v.natAbs :=
  if_neg (Int.not_lt.mpr nonneg)

theorem length_printInt_pid (named : Named p c) : (printInt p).length ≤ 10 := by
  have bound : p.natAbs < 10 ^ 10 := by
    have := named.pid
    omega
  rw [printInt_of_nonneg (by have := named.pid; omega)]
  exact length_decimal_le (by decide) bound

/-- The pid and the dot are never cut. -/
theorem semName_eq (named : Named p c) :
    semName p c = printInt p ++ 46 :: decimal (lead (room p) c.natAbs) := by
  have short := length_printInt_pid named
  have some_place : 0 < room p := by
    unfold room posixNameMax
    omega
  obtain ⟨k, places⟩ : ∃ k, posixNameMax - 1 = (printInt p).length + (k + 1) ∧ room p = k := by
    refine ⟨room p, ?_, rfl⟩
    unfold room posixNameMax
    omega
  rw [← take_decimal some_place, semName, List.append_assoc, places.1, List.take_append,
    List.take_of_length_le (Nat.le_add_right _ _), Nat.add_sub_cancel_left, List.singleton_append,
    List.take_succ_cons, printInt_of_nonneg named.cnt.1, places.2]

/-- Two names are the same exactly if the pids are and what is left of the counters is. -/
theorem semName_eq_iff (named : Named p c) (named' : Named q d) :
    semName p c = semName q d ↔
      p = q ∧ lead (room p) c.natAbs = lead (room p) d.natAbs := by
  have noDot : ∀ v, (46 : UInt8) ∉ printInt v := by
    intro v member
    rcases mem_printInt member with sign | isD
    · cases sign
    · cases isD
  rw [semName_eq named, semName_eq named']
  constructor
  · intro same
    obtain ⟨pids, counters⟩ := append_stop_inj (noDot p) (noDot q) same
    obtain rfl := printInt_injective pids
    exact ⟨rfl, decimal_injective counters⟩
  · rintro ⟨rfl, same⟩
    rw [same]

/-! ## Retries -/

/-- The names the loop of `s_alloc` tries. -/
def triedNames (pid : Int) : Int → List SemOpen → List Bytes
  | _, [] => []
  | cnt, .eexist :: answers => semName pid cnt :: triedNames pid (wrap32 (cnt + 1)) answers
  | cnt, _ :: _ => [semName pid cnt]

theorem mem_triedNames {answers : List SemOpen} {name : Bytes} (named : Named p c)
    (fits : c + answers.length ≤ 2 ^ 31) (member : name ∈ triedNames p c answers) :
    ∃ d, c ≤ d ∧ d < c + answers.length ∧ name = semName p d := by
  induction answers generalizing c with
  | nil => cases member
  | cons answer answers ih =>
      rw [List.length_cons] at fits ⊢
      have here : ∀ name, name = semName p c →
          ∃ d, c ≤ d ∧ d < c + ((answers.length + 1 : Nat) : Int) ∧ name = semName p d :=
        fun name same => ⟨c, Int.le_refl c, by omega, same⟩
      cases answer with
      | created => exact here name (List.mem_singleton.mp member)
      | failed => exact here name (List.mem_singleton.mp member)
      | eexist =>
          rcases List.mem_cons.mp member with first | later
          · exact here name first
          · cases answers with
            | nil => cases later
            | cons next answers =>
                have := named.cnt
                rw [List.length_cons] at fits
                rw [wrap32_of_mem (by omega) (by omega)] at later
                obtain ⟨d, lower, upper, same⟩ :=
                  ih ⟨named.pid, by omega⟩ (by rw [List.length_cons]; omega) later
                exact ⟨d, by omega, by omega, same⟩

/-- While the counter fits into its places, every retry tries a new name. -/
theorem triedNames_nodup {answers : List SemOpen} (named : Named p c)
    (fits : c + answers.length ≤ 2 ^ 31) (short : c + answers.length ≤ 10 ^ room p) :
    (triedNames p c answers).Nodup := by
  induction answers generalizing c with
  | nil => exact List.nodup_nil
  | cons answer answers ih =>
      rw [List.length_cons] at fits short
      cases answer with
      | created => exact List.nodup_singleton _
      | failed => exact List.nodup_singleton _
      | eexist =>
          cases answers with
          | nil => exact List.nodup_singleton _
          | cons next answers =>
              have bounds := named.cnt
              have named' : Named p (c + 1) := by
                rw [List.length_cons] at fits
                exact ⟨named.pid, by omega⟩
              have room_pos : 0 < room p := by
                have := length_printInt_pid named
                unfold room posixNameMax
                omega
              have whole : ∀ d : Int, 0 ≤ d → d < c + ((next :: answers).length + 1 : Nat) →
                  lead (room p) d.natAbs = d.natAbs := by
                intro d nonneg below
                apply lead_of_length_le
                apply length_decimal_le room_pos
                have : (d.natAbs : Int) < 10 ^ room p := by omega
                exact_mod_cast this
              rw [triedNames, wrap32_of_mem (by omega) named'.cnt.2]
              refine List.nodup_cons.mpr ⟨fun member => ?_, ih named' (by omega) (by omega)⟩
              obtain ⟨d, lower, upper, same⟩ := mem_triedNames named' (by omega) member
              have leads := ((semName_eq_iff named ⟨named.pid, by omega⟩).mp same).2
              rw [whole c bounds.1 (by omega), whole d (by omega) (by omega)] at leads
              omega

theorem sAllocLoop_last {answers : List SemOpen} {lock : Slock} {c' : Int}
    (returned : sAllocLoop p c answers = some (some lock, c')) :
    ∃ before, triedNames p c answers = before ++ [lock.name] := by
  induction answers generalizing c with
  | nil => cases returned
  | cons answer answers ih =>
      cases answer with
      | created =>
          cases returned
          exact ⟨[], rfl⟩
      | eexist =>
          obtain ⟨before, tried⟩ := ih returned
          exact ⟨semName p c :: before, by rw [triedNames, tried, List.cons_append]⟩
      | failed => cases returned

/-- The lock has the last of the names tried, and none of those before was the same. -/
theorem sAlloc_fresh {malloc : Bool} {answers : List SemOpen} {lock : Slock} {c' : Int}
    (named : Named p c) (fits : c + answers.length ≤ 2 ^ 31)
    (short : c + answers.length ≤ 10 ^ room p)
    (returned : sAlloc malloc p c answers = some (some lock, c')) :
    ∃ before, triedNames p c answers = before ++ [lock.name] ∧ lock.name ∉ before := by
  cases malloc with
  | false => cases returned
  | true =>
      obtain ⟨before, tried⟩ := sAllocLoop_last returned
      have nodup := triedNames_nodup named fits short
      rw [tried] at nodup
      refine ⟨before, tried, fun again => ?_⟩
      exact (List.nodup_append.mp nodup).2.2 _ again _ List.mem_cons_self rfl

/-- **Distinct names.**  The names of two processes are never the same, and two names of
one process only if the counters are or if what is left of them behind the pid is. -/
theorem names_distinct_iff (named : Named p c) (named' : Named q d) :
    (semName p c = semName q d → p = q ∧ c = d) ↔
      p ≠ q ∨ c = d ∨ lead (room p) c.natAbs ≠ lead (room p) d.natAbs := by
  rw [semName_eq_iff named named']
  constructor
  · intro injective
    by_cases pids : p = q
    · by_cases leads : lead (room p) c.natAbs = lead (room p) d.natAbs
      · exact Or.inr (Or.inl (injective ⟨pids, leads⟩).2)
      · exact Or.inr (Or.inr leads)
    · exact Or.inl pids
  · rintro (pids | counters | leads) ⟨samePids, sameLeads⟩
    · exact absurd samePids pids
    · exact ⟨samePids, counters⟩
    · exact absurd sameLeads leads

end Names

/-- Seven digits of the pid leave five for the counter. -/
theorem names_distinct_iff_five_places :
    semName 4194304 99999 ≠ semName 4194304 9999 := by
  intro same
  have counters := ((@names_distinct_iff 4194304 4194304 99999 9999 (by decide) (by decide)).mpr
    (Or.inr (Or.inr (by decide +kernel))) same).2
  exact absurd counters (by decide)

/-- Ten digits of the pid leave two, and 10 and 100 begin alike. -/
theorem counters_cut_alike :
    ¬ ∀ p q c d : Int, Named p c → Named q d → semName p c = semName q d → p = q ∧ c = d := by
  intro distinct
  have counters := (distinct 1234567890 1234567890 10 100 (by decide) (by decide)
    (by decide +kernel)).2
  exact absurd counters (by decide)

end UnixDemos.IPC.SemLock
