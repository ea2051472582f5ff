/-
# EpollDemo.ServerScan — the server's scans for a NUL

`printf("%s", buf)` and `strlen(buf)` stop at the first NUL, and nothing but the history
of the buffer puts one there: it starts zeroed, `read` overwrites its front, and
`do_write` zeroes it again.  The last byte is the one no shorter read reaches, so while
every read that fills the buffer ends in a NUL, the last byte is a NUL at every scan.
One read of `MAXSIZE` other bytes is enough to break it.
-/
import UnixDemos.EpollDemo.ServerRegistration

namespace UnixDemos.EpollServer

open UnixDemos.Library

set_option autoImplicit false

/-- A read that fills the buffer ends in a NUL. -/
def LastKept (_ : Server) : Label → Prop
  | .handle (.read (some data) _) => data.length < maxSize ∨ data.getLast? = some 0
  | _ => True

instance (s : Server) : (label : Label) → Decidable (LastKept s label)
  | .epollWait _ => isTrue trivial
  | .handle (.accept _) => isTrue trivial
  | .handle (.read none _) => isTrue trivial
  | .handle (.read (some _) _) => inferInstanceAs (Decidable (_ ∨ _))
  | .handle (.write _ _) => isTrue trivial

structure Bounded (s : Server) : Prop where
  sized : s.buf.length = maxSize
  last : s.buf.getLast? = some 0
  scans : Io.scanned false ∉ s.log

section Scan

variable {s s' : Server} {label : Label}

/-- The last byte of the buffer after a read. -/
theorem getLast_overwrite {buf data : Bytes} (fits : data.length ≤ buf.length)
    (last : buf.getLast? = some 0) (kept : data.length < buf.length ∨ data.getLast? = some 0) :
    (overwrite buf data).getLast? = some 0 := by
  by_cases short : data.length < buf.length
  · rw [getLast_overwrite_of_lt short, last]
  · rw [overwrite, List.drop_of_length_le (by omega), List.append_nil]
    exact kept.resolve_left short

/-- A scan of a buffer with a NUL is terminated. -/
theorem scanned_ne {buf : Bytes} (last : buf.getLast? = some 0) :
    Io.scanned false ≠ .scanned (decide (0 ∈ buf)) := by
  simp [List.mem_of_getLast? last]

theorem Effect.bounded (bounded : Bounded s) (kept : LastKept s label)
    (effect : Effect s label s') : Bounded s' := by
  obtain ⟨sized, last, scans⟩ := bounded
  have zeroed : (zeros maxSize).getLast? = some 0 := by decide +kernel
  have zeroedSize : (zeros maxSize).length = maxSize := List.length_replicate
  have nul := scanned_ne last
  cases effect with
  | waitFailed idle => exact ⟨sized, last, by simpa using scans⟩
  | waited idle reportable => exact ⟨sized, last, scans⟩
  | acceptFailed head => exact ⟨sized, last, by simpa using scans⟩
  | accepted head => exact ⟨sized, last, by simpa using scans⟩
  | ended beyond head client readable shown =>
      refine ⟨sized, last, ?_⟩
      rcases shown with ⟨-, rfl⟩ | ⟨-, rfl⟩ <;> simpa using scans
  | @read p rest c data beyond head client readable nonempty fits =>
      rw [← sized] at fits
      have last' := getLast_overwrite fits last (sized.symm ▸ kept)
      refine ⟨(length_overwrite fits).trans sized, last', ?_⟩
      simp [scans, scanned_ne last']
  | writeFailed beyond head client writable =>
      refine ⟨zeroedSize, zeroed, ?_⟩
      simp [scans, nul]
  | wrote beyond head client writable most =>
      refine ⟨zeroedSize, zeroed, ?_⟩
      simp [scans, nul]

theorem start_bounded (inherited : List Bool) : Bounded (start inherited) where
  sized := List.length_replicate
  last := by
    show (zeros maxSize).getLast? = some 0
    decide +kernel
  scans := List.not_mem_nil

/-- **Every scan is bounded** in a run in which no read fills the buffer with a last byte
that is not a NUL. -/
theorem scans_terminated {inherited : List Bool} {labels : List Label}
    (kept : Along Server.step LastKept (start inherited) labels)
    (reached : run Server.step (start inherited) labels = some s) :
    Io.scanned false ∉ s.log := by
  have both := run_along Server.step (fun s => Registered s ∧ Bounded s)
    (fun s label s' inv kept stepped =>
      have effect := step_effect inv.1 stepped
      ⟨effect.registered inv.1, effect.bounded inv.2 kept⟩)
    ⟨start_registered inherited, start_bounded inherited⟩ kept reached
  exact both.2.scans

end Scan

/-- A client sends all but one byte of a buffer, is answered, and then a whole buffer with a
NUL at its end. -/
def fullButNul : List Label :=
  [.epollWait (some [⟨3, epollin⟩]), .handle (.accept true),
    .epollWait (some [⟨5, epollin⟩]), .handle (.read (some (List.replicate 1023 97)) []),
    .epollWait (some [⟨5, epollout⟩]), .handle (.write (some 1023) []),
    .epollWait (some [⟨5, epollin⟩]), .handle (.read (some (List.replicate 1023 97 ++ [0])) [])]

theorem scans_terminated_full_but_nul :
    ∃ s, run Server.step (start [true, true, true]) fullButNul = some s ∧
      s.log.count (.scanned true) = 3 ∧ Io.scanned false ∉ s.log := by
  have observed : (run Server.step (start [true, true, true]) fullButNul).map
      (fun s => s.log.count (.scanned true)) = some 3 := by decide +kernel
  obtain ⟨s, reached, three⟩ := Option.map_eq_some_iff.mp observed
  exact ⟨s, reached, three, scans_terminated (by decide +kernel) reached⟩

/-- A client sends a whole buffer of another byte. -/
def fullBuffer : List Label :=
  [.epollWait (some [⟨3, epollin⟩]), .handle (.accept true),
    .epollWait (some [⟨5, epollin⟩]), .handle (.read (some (List.replicate 1024 97)) [])]

/-- `printf` runs past the end of the buffer. -/
theorem full_buffer_unterminated :
    ¬ ∀ (inherited : List Bool) (labels : List Label) (s : Server),
      run Server.step (start inherited) labels = some s → Io.scanned false ∉ s.log := by
  intro terminated
  have observed : (run Server.step (start [true, true, true]) fullBuffer).map
      (fun s => decide (Io.scanned false ∈ s.log)) = some true := by decide +kernel
  obtain ⟨s, reached, found⟩ := Option.map_eq_some_iff.mp observed
  exact terminated _ _ s reached (of_decide_eq_true found)

end UnixDemos.EpollServer
