/-
# Signal.Pending — which of the pending signals Linux takes

When several signals are pending, the kernel first takes those that a fault of the program
raises, and then the one with the lowest number, so the real-time signals come last.  `next`
is the signal it takes among those that are `ready`: not blocked when it delivers them, or in
the set that a call waits for.  `rank` is the same order as a number (`next_first`).

A signal that stops a process takes back a pending SIGCONT, and SIGCONT those that stop.
-/
import UnixDemos.Signal.RtSigRecv

namespace UnixDemos.Signal.Pending

open UnixDemos.Library
open RtSigRecv (Signo queues)

set_option autoImplicit false

/-! ## Order -/

/-- SIGILL, SIGTRAP, SIGBUS, SIGFPE, SIGSEGV and SIGSYS. -/
def synchronous (sig : Signo) : Bool := sig.val ∈ [4, 5, 7, 8, 11, 31]

def order : List Signo :=
  (List.finRange 65).filter synchronous ++ (List.finRange 65).filter fun sig => !synchronous sig

def next (ready : Signo → Bool) : Option Signo := order.find? ready

def rank (sig : Signo) : Nat := if synchronous sig then sig.val else 65 + sig.val

variable {ready : Signo → Bool} {sig other : Signo}

theorem mem_order (sig : Signo) : sig ∈ order := by
  cases kind : synchronous sig <;> simp [order, kind]

theorem order_sorted : order.Pairwise fun sig other => rank sig < rank other := by
  decide +kernel

theorem next_eq_none : next ready = none ↔ ∀ sig, ready sig = false := by
  simp [next, mem_order]

theorem ready_of_next (first : next ready = some sig) : ready sig = true :=
  List.find?_some first

/-- No signal that is ready goes before the one that is taken. -/
theorem next_first (first : next ready = some sig) (waits : ready other = true) :
    other = sig ∨ rank sig < rank other := by
  obtain ⟨-, before, after, split, unready⟩ := List.find?_eq_some_iff_append.mp first
  have sorted := order_sorted
  have member := mem_order other
  rw [split] at sorted member
  rcases List.mem_append.mp member with early | late
  · have absent := unready other early
    rw [waits] at absent
    cases absent
  · refine (List.mem_cons.mp late).imp_right fun later => ?_
    exact List.rel_of_pairwise_cons (List.pairwise_append.mp sorted).2.1 later

/-! ## Signals that are taken back -/

/-- SIGSTOP, SIGTSTP, SIGTTIN and SIGTTOU. -/
def stops (sig : Signo) : Bool := sig.val ∈ [19, 20, 21, 22]

def isCont (sig : Signo) : Bool := sig.val = 18

/-- What `sig` takes back when it is sent. -/
def discards (sig other : Signo) : Bool := isCont sig && stops other || stops sig && isCont other

theorem discards_eq_false_of_queues (rt : queues other = true) : discards sig other = false := by
  simp only [queues, decide_eq_true_eq] at rt
  have apart (n : Nat) (low : n < 32) : other.val ≠ n := by omega
  simp [discards, stops, isCont, apart]

end UnixDemos.Signal.Pending
