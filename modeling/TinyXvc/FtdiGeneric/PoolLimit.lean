import TinyXvc.FtdiGeneric.PoolUse

/-!
# The vectors that fit the pool

Every admissible vector is shifted without an abort exactly if its bit-mode
reads need at most 2730 records.  Vectors with many short visits to the shift
states need more.  The pool of the command buffer is large enough for every
vector.
-/

namespace TinyXvc

open Mpsse

section Limit

variable {dev : Device} {p : FtParams} {s₀ s : Sys Usb} {r : SplitRequest}

theorem no_oom_of_records (h₀ : PoweredUp s₀) (h : Reachable dev p s₀ s)
    (hmax : r.numBits ≤ maxVectorBits s.gFtdi)
    (hrecords : r.records s.gFtdi.jtagSplitter.state ≤ 2730) (n : ℕ) (s' : Sys Usb) :
    shiftBits (link dev) r s ≠ .error (.oom n, s') := by
  intro hrun
  have hstep := h.inStep h₀ .testLogicReset
  rcases Exec.wp_error (shiftBits_pool hstep (h.poolsIdle h₀) r) hrun with ⟨-, hlt⟩ | ⟨-, hnot⟩
  · exact absurd hrecords (Nat.not_le_of_lt hlt)
  · exact hnot (fitsInt_of_le hstep.linked hmax)

theorem oom_of_records (h₀ : PoweredUp s₀) (h : Reachable dev p s₀ s)
    (hmax : r.numBits ≤ maxVectorBits s.gFtdi)
    (hrecords : 2730 < r.records s.gFtdi.jtagSplitter.state) :
    ∃ s', shiftBits (link dev) r s = .error (.oom (64 * 1024), s') := by
  have hstep := h.inStep h₀ .testLogicReset
  have hfit := fitsInt_of_le hstep.linked hmax
  have hspec := shiftBits_pool hstep (h.poolsIdle h₀) r
  cases hrun : shiftBits (link dev) r s with
  | ok q =>
      have hle := (Exec.wp_ok hspec hrun).2 hfit
      exact absurd hle (Nat.not_le_of_lt hrecords)
  | error q =>
      obtain ⟨e, t⟩ := q
      rcases Exec.wp_error hspec hrun with ⟨rfl, -⟩ | ⟨-, hnot⟩
      · exact ⟨t, rfl⟩
      · exact absurd hfit hnot

/-- `shift_bits` never runs out of pool memory exactly if the records of the
vector fit the 64 KiB. -/
theorem shift_bits_pool_limit (h₀ : PoweredUp s₀) (h : Reachable dev p s₀ s)
    (hmax : r.numBits ≤ maxVectorBits s.gFtdi) :
    (∀ n s', shiftBits (link dev) r s ≠ .error (.oom n, s')) ↔
      r.records s.gFtdi.jtagSplitter.state ≤ 2730 := by
  constructor
  · intro hnoOom
    by_contra hrecords
    obtain ⟨s', hrun⟩ := oom_of_records h₀ h hmax (Nat.lt_of_not_le hrecords)
    exact hnoOom _ _ hrun
  · intro hrecords
    exact no_oom_of_records h₀ h hmax hrecords

end Limit

/-- The first vector after `activate`. -/
theorem shift_bits_pool_limit_scan :
    ∃ s, activate (link tdoHigh) ft2232hParams poweredUp = .ok (true, s) ∧
      ((∀ n s', shiftBits (link tdoHigh) scanFour s ≠ .error (.oom n, s')) ↔
        scanFour.records s.gFtdi.jtagSplitter.state ≤ 2730) := by
  obtain ⟨s, hrun⟩ := exists_activated
  have hreach : Reachable tdoHigh ft2232hParams poweredUp s := .activate hrun
  exact ⟨s, hrun, shift_bits_pool_limit poweredUp_poweredUp hreach
    (scanFour_le poweredUp_poweredUp hreach)⟩

/-! ## The pool of the command buffer -/

/-- The 128 KiB pool of the command buffer is never exhausted, neither by
`activate` nor by any call in any state that is reached after it. -/
theorem cmd_pool_never_exhausted {dev : Device} {p : FtParams} {s₀ : Sys Usb} (h₀ : PoweredUp s₀) :
    (∀ t, activate (link dev) p s₀ ≠ .error (.oom (128 * 1024), t)) ∧
      ∀ s, Reachable dev p s₀ s → ∀ (op : DriverOp) (t : Sys Usb),
        op.perform (link dev) s ≠ .error (.oom (128 * 1024), t) := by
  constructor
  · intro t hrun
    exact Exec.wp_error (activate_pool p h₀) hrun
  · intro s h op t hrun
    have hstep := h.inStep h₀ .testLogicReset
    have hidle := h.poolsIdle h₀
    cases op with
    | setTckPeriod ns =>
        rcases Exec.bind_eq_error hrun with hrun' | ⟨_, _, -, hpure⟩
        · rcases Exec.wp_error (setTckPeriod_pool hstep.toReady hidle ns) hrun' with hover | htrap
          · cases hover
          · cases htrap
        · cases hpure
    | shiftBits r =>
        rcases Exec.bind_eq_error hrun with hrun' | ⟨_, _, -, hpure⟩
        · rcases Exec.wp_error (shiftBits_pool hstep hidle r) hrun' with ⟨hoom, -⟩ | ⟨hover, -⟩
          · cases hoom
          · cases hover
        · cases hpure

/-- The chip of the examples, just powered up. -/
theorem cmd_pool_never_exhausted_poweredUp :
    ∃ s, activate (link tdoHigh) ft2232hParams poweredUp = .ok (true, s) ∧
      ∀ r t, shiftBits (link tdoHigh) r s ≠ .error (.oom (128 * 1024), t) := by
  obtain ⟨s, hrun⟩ := exists_activated
  refine ⟨s, hrun, fun r t herror => ?_⟩
  refine (cmd_pool_never_exhausted poweredUp_poweredUp).2 s (.activate hrun) (.shiftBits r) t ?_
  exact Exec.bind_error herror

/-! ## A vector that does not fit -/

/-- `n` rounds through Exit1, Pause and Exit2. -/
def visits (n : ℕ) : List Bool := (List.replicate n [true, false, true, false]).flatten

theorem visits_succ (n : ℕ) : visits (n + 1) = true :: false :: true :: false :: visits n := by
  rw [visits, List.replicate_succ, List.flatten_cons]
  rfl

theorem bits_visits (a n : ℕ) : Octets.bits (fun _ => 0x55) (8 * a) (8 * n) = visits (2 * n) := by
  induction n generalizing a with
  | zero => rfl
  | succ n ih =>
      have hoctet : Octets.bits (fun _ => 0x55) (8 * a) 8 =
          (List.range 8).map (Octet.bit 0x55) := by
        refine List.map_congr_left fun i hi => ?_
        exact Octets.bit_of_aligned _ (by omega) (List.mem_range.mp hi)
      have htwo : 2 * (n + 1) = 2 * n + 1 + 1 := rfl
      rw [Nat.mul_succ, Nat.add_comm, Octets.bits_add, hoctet, ← Nat.mul_succ, ih, htwo,
        visits_succ, visits_succ]
      rfl

theorem splitRanges_visit (first : ℕ) (bs : List Bool) :
    splitRanges .shiftDr first 0 (true :: false :: true :: false :: bs) =
      ⟨.tdi false, first, first + 1, by omega⟩ :: ⟨.tms, first + 1, first + 4, by omega⟩ ::
        splitRanges .shiftDr (first + 4) 0 bs := by
  cases bs <;> rfl

/-- Every visit of one bit takes a record. -/
theorem records_visits (n first : ℕ) :
    n ≤ ((splitRanges .shiftDr first 0 (visits n)).map SplitRange.records).sum := by
  induction n generalizing first with
  | zero => exact Nat.zero_le _
  | succ n ih =>
      have hrest := ih (first + 4)
      have hvisit : 1 ≤ SplitRange.records ⟨.tdi false, first, first + 1, by omega⟩ :=
        Nat.le_add_left 1 _
      rw [visits_succ, splitRanges_visit, List.map_cons, List.map_cons, List.sum_cons,
        List.sum_cons]
      omega

/-- A vector of the greatest length of a 4096-byte chip, with TMS 1010…; it
visits Shift-DR for one bit out of four. -/
def visitsVector : SplitRequest := ⟨32768, fun _ => 0x55, fun _ => 0, ⟨.vector 0, 0⟩⟩

theorem records_visitsVector : 8190 ≤ visitsVector.records .testLogicReset := by
  have hbits : visitsVector.tmsBits = visits 2 ++ visits 8190 := by
    have h := bits_visits 0 4096
    rw [show 2 * 4096 = 2 + 8190 from rfl, visits, List.replicate_add, List.flatten_append] at h
    exact h
  have hfirst : ∀ bs, splitRanges .testLogicReset 0 0 (visits 2 ++ bs) =
      ⟨.tms, 0, 8, by decide⟩ :: splitRanges .shiftDr 8 0 bs := by
    intro bs
    cases bs <;> rfl
  rw [SplitRequest.records, SplitRequest.ranges, hbits, hfirst, List.map_cons, List.sum_cons]
  exact (records_visits 8190 8).trans (Nat.le_add_left _ _)

/-- This vector, sent right after `activate`, ends the process. -/
theorem shift_bits_exhausts_pool :
    ∃ s, activate (link tdoHigh) ft2232hParams poweredUp = .ok (true, s) ∧
      1 ≤ visitsVector.numBits ∧ visitsVector.numBits ≤ maxVectorBits s.gFtdi ∧
      ∃ s', shiftBits (link tdoHigh) visitsVector s = .error (.oom 65536, s') := by
  obtain ⟨s, hrun⟩ := exists_activated
  have hreach : Reachable tdoHigh ft2232hParams poweredUp s := .activate hrun
  have hstep := hreach.inStep poweredUp_poweredUp .testLogicReset
  have hmax : visitsVector.numBits ≤ maxVectorBits s.gFtdi := by
    rw [maxVectorBits, hstep.chip]
    decide
  have hstate := state_of_activate poweredUp_poweredUp hrun
  have hrecords := records_visitsVector
  rw [← hstate] at hrecords
  exact ⟨s, hrun, by decide, hmax,
    oom_of_records poweredUp_poweredUp hreach hmax (by omega)⟩

end TinyXvc
