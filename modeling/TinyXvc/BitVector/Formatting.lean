import TinyXvc.BitVector

/-!
# Formatting bit vectors

Both formatters walk over the bits of the range and write one character for
each.  They stop when they reach the end of the range.  A walk that has filled
the buffer before stays where it is for ever.
-/

namespace TinyXvc

namespace BitVector

theorem getBit_natCast (p : Octets) (m : ℕ) : getBit p m = p.bit m :=
  Octet.and_mask_ne_zero (p (m / 8)) (Nat.mod_lt m (by decide))

theorem octetAt_natCast (p : Octets) (m : ℕ) : octetAt p m = p (m / 8) := rfl

theorem tmod_natCast (m : ℕ) : (m : ℤ).tmod 8 = (m % 8 : ℕ) := rfl

def bitChar (b : Bool) : Char := if b then '1' else '0'

/-- From `idx` on, a walk in the direction `dir` meets the bits `bits`. -/
inductive Path (dir : FormatDir) (vector : Octets) : ℤ → List Bool → Prop
  | nil {idx : ℤ} (hend : dir.inRange idx = false) : Path dir vector idx []
  | cons {idx : ℤ} {bits : List Bool} (hrange : dir.inRange idx = true)
      (hoctet : dir.inRange (dir.next idx) = true → dir.sameOctet (dir.next idx) = true →
        octetAt vector (dir.next idx) = octetAt vector idx)
      (hrest : Path dir vector (dir.next idx) bits) :
      Path dir vector idx (getBit vector idx :: bits)

/-- The state once the character of `b` is written. -/
def FormatState.put (dir : FormatDir) (s : FormatState) (b : Bool) : FormatState where
  out := Function.update s.out s.p (bitChar b)
  p := s.p + 1
  avail := s.avail - 1
  idx := dir.next s.idx

def FormatState.putAll (dir : FormatDir) (s : FormatState) (bits : List Bool) : FormatState :=
  bits.foldl (FormatState.put dir) s

variable {dir : FormatDir} {vector : Octets}

theorem Path.inRange_iff {idx : ℤ} {bits : List Bool} (h : Path dir vector idx bits) :
    dir.inRange idx = true ↔ bits ≠ [] := by
  cases h with
  | nil hend => simp [hend]
  | cons hrange _ _ => simp [hrange]

theorem Path.drop {s : FormatState} {bits : List Bool} (h : Path dir vector s.idx bits) (k : ℕ) :
    Path dir vector (s.putAll dir (bits.take k)).idx (bits.drop k) := by
  induction k generalizing s bits with
  | zero => exact h
  | succ k ih =>
      cases h with
      | nil hend => exact .nil hend
      | cons hrange hoctet hrest => exact ih (s := s.put dir (getBit vector s.idx)) hrest

theorem avail_putAll (s : FormatState) (bits : List Bool) :
    (s.putAll dir bits).avail = s.avail - bits.length := by
  induction bits generalizing s with
  | nil => exact (sub_zero _).symm
  | cons b bits ih =>
      change ((s.put dir b).putAll dir bits).avail = _
      rw [ih, FormatState.put, List.length_cons]
      push_cast
      ring

theorem p_putAll (s : FormatState) (bits : List Bool) :
    (s.putAll dir bits).p = s.p + bits.length := by
  induction bits generalizing s with
  | nil => rfl
  | cons b bits ih =>
      change ((s.put dir b).putAll dir bits).p = _
      rw [ih, List.length_cons]
      exact Nat.add_right_comm _ _ _

theorem out_putAll (s : FormatState) (bits : List Bool) (i : ℕ) :
    (s.putAll dir bits).out i =
      if s.p ≤ i then (((bits.map bitChar)[i - s.p]?).getD (s.out i)) else s.out i := by
  induction bits generalizing s with
  | nil => simp [FormatState.putAll]
  | cons b bits ih =>
      change ((s.put dir b).putAll dir bits).out i = _
      rw [ih]
      change (if s.p + 1 ≤ i then
        (((bits.map bitChar)[i - (s.p + 1)]?).getD (Function.update s.out s.p (bitChar b) i))
        else Function.update s.out s.p (bitChar b) i) = _
      rcases Nat.lt_trichotomy i s.p with hlt | rfl | hgt
      · rw [if_neg (by omega), if_neg (by omega), Function.update_of_ne hlt.ne]
      · rw [if_neg (by omega), if_pos le_rfl, Function.update_self, Nat.sub_self]
        rfl
      · have hsub : i - s.p = (i - (s.p + 1)) + 1 := by omega
        rw [if_pos (Nat.succ_le_of_lt hgt), if_pos hgt.le, Function.update_of_ne hgt.ne', hsub]
        rfl

/-- The inner loop writes a part of the bits that are left; it makes progress
exactly if there is room for more than the terminator. -/
theorem formatOctet_spec {s : FormatState} {bits : List Bool} (h : Path dir vector s.idx bits)
    (hne : bits ≠ []) (hroom : 1 ≤ s.avail) :
    ∃ k ≤ bits.length, (k : ℤ) ≤ s.avail - 1 ∧ (1 < s.avail → 0 < k) ∧
      formatOctet dir (octetAt vector s.idx) s = s.putAll dir (bits.take k) := by
  generalize hidx : s.idx = idx at h
  induction h generalizing s with
  | nil _ => exact absurd rfl hne
  | @cons idx bits hrange hoctet hrest ih =>
      subst hidx
      unfold formatOctet
      by_cases hfull : s.avail ≤ 1
      · refine ⟨0, Nat.zero_le _, by push_cast; omega, fun hlt => absurd hfull (not_le.mpr hlt), ?_⟩
        rw [if_pos hfull]
        rfl
      · rw [if_neg hfull]
        change ∃ k ≤ _, _ ∧ _ ∧
          (if dir.inRange (dir.next s.idx) && dir.sameOctet (dir.next s.idx) then
            formatOctet dir (octetAt vector s.idx) (s.put dir (getBit vector s.idx))
          else s.put dir (getBit vector s.idx)) = _
        by_cases hsame : (dir.inRange (dir.next s.idx) && dir.sameOctet (dir.next s.idx)) = true
        · obtain ⟨hin, hoct⟩ := Bool.and_eq_true _ _ ▸ hsame
          have havail : (s.put dir (getBit vector s.idx)).avail = s.avail - 1 := rfl
          obtain ⟨k, hk, hle, -, hrun⟩ := ih (s := s.put dir (getBit vector s.idx))
            (hrest.inRange_iff.mp hin) (by omega) rfl
          refine ⟨k + 1, Nat.succ_le_succ hk, by push_cast; omega, fun _ => Nat.succ_pos k, ?_⟩
          rw [if_pos hsame, ← hoctet hin hoct]
          exact hrun
        · refine ⟨1, Nat.succ_le_succ (Nat.zero_le _), by push_cast; omega,
            fun _ => Nat.one_pos, ?_⟩
          rw [if_neg hsame]
          rfl

/-- A range that fits in front of the terminator is written in full. -/
theorem formatOctets_fits {s : FormatState} {bits : List Bool} (h : Path dir vector s.idx bits)
    (hfits : (bits.length : ℤ) < s.avail) :
    ∃ fuel, formatOctets dir vector fuel s = some (s.putAll dir bits) := by
  induction hn : bits.length using Nat.strong_induction_on generalizing s bits with
  | _ n ih =>
  by_cases hne : bits = []
  · subst hne
    refine ⟨1, ?_⟩
    have hend : ¬dir.inRange s.idx = true := fun hin => h.inRange_iff.mp hin rfl
    rw [formatOctets, if_neg hend]
    rfl
  · have hpos := List.length_pos_of_ne_nil hne
    obtain ⟨k, hk, -, hprogress, hrun⟩ := formatOctet_spec h hne (by omega)
    have hk0 := hprogress (by omega)
    have hlen : (bits.drop k).length = bits.length - k := List.length_drop
    obtain ⟨fuel, hfuel⟩ := ih (bits.drop k).length (by omega) (h.drop k)
      (by rw [avail_putAll, List.length_take_of_le hk, hlen]; omega) rfl
    refine ⟨fuel + 1, ?_⟩
    rw [formatOctets, if_pos (h.inRange_iff.mpr hne), hrun, hfuel, FormatState.putAll,
      FormatState.putAll, ← List.foldl_append, List.take_append_drop]
    rfl

/-- A range that does not fit is never done. -/
theorem formatOctets_full {s : FormatState} {bits : List Bool} (h : Path dir vector s.idx bits)
    (hroom : 1 ≤ s.avail) (hfull : s.avail ≤ bits.length) (fuel : ℕ) :
    formatOctets dir vector fuel s = none := by
  induction fuel generalizing s bits with
  | zero => rfl
  | succ fuel ih =>
      have hne : bits ≠ [] := by
        rintro rfl
        rw [List.length_nil] at hfull
        push_cast at hfull
        omega
      obtain ⟨k, hk, hle, -, hrun⟩ := formatOctet_spec h hne hroom
      have hlen : (bits.drop k).length = bits.length - k := List.length_drop
      rw [formatOctets, if_pos (h.inRange_iff.mpr hne), hrun]
      apply ih (h.drop k)
      · rw [avail_putAll, List.length_take_of_le hk]
        omega
      · rw [avail_putAll, List.length_take_of_le hk, hlen]
        omega

/-- `s`, and a NUL behind it. -/
def HoldsString (out : ℕ → Char) (s : CString) : Prop :=
  (∀ i (hi : i < s.length), out i = s[i]) ∧ out s.length = '\x00'

variable (dir) in
/-- The terminator goes behind what was written, if that leaves room for it. -/
theorem terminated_putAll {s : FormatState} {bits : List Bool} {outSz : ℕ} (hp : s.p = 0)
    (havail : s.avail = outSz) (hfits : bits.length < outSz) :
    HoldsString ((s.putAll dir bits).terminated outSz) (bits.map bitChar) ∧
      ∀ i ≥ outSz, (s.putAll dir bits).terminated outSz i = s.out i := by
  have hleft : ¬(s.putAll dir bits).avail ≤ 0 := by
    rw [avail_putAll, havail]
    omega
  have hend : (s.putAll dir bits).p = bits.length := by
    rw [p_putAll, hp, Nat.zero_add]
  unfold FormatState.terminated
  rw [if_neg hleft, hend]
  refine ⟨⟨fun i hi => ?_, ?_⟩, fun i hi => ?_⟩
  · rw [List.length_map] at hi
    rw [Function.update_of_ne hi.ne, out_putAll, hp, if_pos (Nat.zero_le i), Nat.sub_zero,
      List.getElem?_eq_getElem (by rwa [List.length_map]), Option.getD_some]
  · rw [List.length_map, Function.update_self]
  · have hne : i ≠ bits.length := by omega
    have hnone : (bits.map bitChar)[i]? = none := by
      rw [List.getElem?_eq_none_iff, List.length_map]
      omega
    rw [Function.update_of_ne hne, out_putAll, hp, if_pos (Nat.zero_le i), Nat.sub_zero, hnone,
      Option.getD_none]

/-! The walks of the two formatters. -/

theorem path_lsb (vector : Octets) (start n : ℕ) :
    Path { inRange := fun idx => idx < ((start + n : ℕ) : ℤ),
           sameOctet := fun idx => idx.tmod 8 ≠ 0,
           next := (· + 1) } vector start (vector.bits start n) := by
  induction n generalizing start with
  | zero => exact .nil (decide_eq_false (lt_irrefl _))
  | succ n ih =>
      have hrest := ih (start + 1)
      rw [Nat.add_right_comm] at hrest
      rw [Octets.bits_succ, ← getBit_natCast]
      refine .cons (decide_eq_true (by push_cast; omega)) (fun _ hsame => ?_) hrest
      have hmod := of_decide_eq_true hsame
      change ((start + 1 : ℕ) : ℤ).tmod 8 ≠ 0 at hmod
      rw [tmod_natCast] at hmod
      change octetAt vector ((start + 1 : ℕ) : ℤ) = _
      rw [octetAt_natCast, octetAt_natCast]
      congr 1
      omega

theorem path_msb (vector : Octets) (start n : ℕ) :
    Path { inRange := fun idx => idx ≥ (start : ℤ), sameOctet := fun idx => idx.tmod 8 ≠ 7,
           next := (· - 1) } vector (((start + n : ℕ) : ℤ) - 1) (vector.bits start n).reverse := by
  induction n with
  | zero => exact .nil (decide_eq_false (by push_cast; omega))
  | succ n ih =>
      have hidx : ((start + (n + 1) : ℕ) : ℤ) - 1 = ((start + n : ℕ) : ℤ) := by
        push_cast
        ring
      have hbits : (vector.bits start (n + 1)).reverse =
          vector.bit (start + n) :: (vector.bits start n).reverse := by
        rw [Octets.bits_add, List.reverse_append]
        rfl
      rw [hidx, hbits, ← getBit_natCast]
      refine .cons (decide_eq_true (by push_cast; omega)) (fun hrange hsame => ?_) ih
      have hlow := of_decide_eq_true hrange
      have hmod := of_decide_eq_true hsame
      obtain ⟨m, hm⟩ : ∃ m, start + n = m + 1 := Nat.exists_eq_succ_of_ne_zero (by
        intro hzero
        rw [hzero] at hlow
        push_cast at hlow
        omega)
      have hprev : ((start + n : ℕ) : ℤ) - 1 = (m : ℤ) := by
        rw [hm]
        push_cast
        ring
      dsimp only at hmod ⊢
      rw [hprev, tmod_natCast] at hmod
      rw [hprev, hm, octetAt_natCast, octetAt_natCast]
      congr 1
      omega

/-- The formatter ends, with as many characters as fit in front of a NUL, and
has written nothing behind the buffer. -/
def TruncatesSafely (format : ℕ → Option ((ℕ → Char) × ℤ)) (out : ℕ → Char) (outSz : ℕ)
    (bits : List Bool) (result : ℤ) : Prop :=
  ∃ fuel out', format fuel = some (out', result) ∧
    HoldsString out' ((bits.map bitChar).take (outSz - 1)) ∧ ∀ i ≥ outSz, out' i = out i

/-- The result of a formatter on a range that fits. -/
theorem exists_formatted {s : FormatState} {bits : List Bool} (h : Path dir vector s.idx bits)
    {outSz : ℕ} (hp : s.p = 0) (havail : s.avail = outSz) (hfits : bits.length < outSz)
    (result : ℤ) :
    ∃ fuel out', (formatOctets dir vector fuel s).bind
        (fun t => some (t.terminated outSz, result)) = some (out', result) ∧
      HoldsString out' (bits.map bitChar) ∧ ∀ i ≥ outSz, out' i = s.out i := by
  obtain ⟨fuel, hfuel⟩ := formatOctets_fits h (by rw [havail]; exact_mod_cast hfits)
  obtain ⟨hholds, hframe⟩ := terminated_putAll dir hp havail hfits
  exact ⟨fuel, _, by rw [hfuel]; rfl, hholds, hframe⟩

theorem truncatesSafely_iff {s : FormatState} {bits : List Bool} (h : Path dir vector s.idx bits)
    {outSz : ℕ} (hsz : 1 ≤ outSz) (hp : s.p = 0) (havail : s.avail = outSz) (result : ℤ) :
    TruncatesSafely (fun fuel => (formatOctets dir vector fuel s).bind
      fun t => some (t.terminated outSz, result)) s.out outSz bits result ↔
      bits.length < outSz := by
  constructor
  · rintro ⟨fuel, out', hrun, -⟩
    by_contra hfull
    have hnone := formatOctets_full h (by omega) (by omega) fuel
    dsimp only at hrun
    rw [hnone] at hrun
    cases hrun
  · intro hfits
    obtain ⟨fuel, out', hrun, hholds, hframe⟩ := exists_formatted h hp havail hfits result
    refine ⟨fuel, out', hrun, ?_, hframe⟩
    rwa [List.take_of_length_le (by rw [List.length_map]; omega)]

end BitVector

open BitVector

/-- The formatters end, and truncate safely, exactly if there is nothing to
truncate. -/
theorem format_truncates_safely_iff (out : ℕ → Char) {outSz : ℕ} (hsz : 1 ≤ outSz)
    (vector : Octets) {start «end» : ℤ} (hstart : 0 ≤ start) (hend : start ≤ «end») :
    (TruncatesSafely (txvcBitVectorFormatLsb · out outSz vector start «end») out outSz
        (vector.bits start.toNat («end» - start).toNat) («end» - start) ↔
      «end» - start < outSz) ∧
    (TruncatesSafely (txvcBitVectorFormatMsb · out outSz vector start «end») out outSz
        (vector.bits start.toNat («end» - start).toNat).reverse («end» - start) ↔
      «end» - start < outSz) := by
  lift start to ℕ using hstart
  obtain ⟨n, rfl⟩ := Int.le.dest hend
  have hlen : ((start : ℤ) + n - start).toNat = n := by simp
  have hiff : (start : ℤ) + n - start < outSz ↔ n < outSz := by
    constructor
    · intro h
      omega
    · intro h
      omega
  rw [Int.toNat_natCast, hlen, hiff]
  constructor
  · have hspec := truncatesSafely_iff (s := ⟨out, 0, outSz, start⟩)
      (path_lsb vector start n) hsz rfl
      rfl (start + n - start)
    rw [Octets.length_bits] at hspec
    exact hspec
  · have hspec := truncatesSafely_iff (s := ⟨out, 0, outSz, ((start + n : ℕ) : ℤ) - 1⟩)
      (path_msb vector start n) hsz rfl rfl (start + n - start)
    rw [List.length_reverse, Octets.length_bits] at hspec
    exact hspec

theorem format_truncates_safely_octet :
    TruncatesSafely (txvcBitVectorFormatLsb · (fun _ => ' ') 9 (fun _ => 0xa5) 0 8) (fun _ => ' ') 9
      (Octets.bits (fun _ => 0xa5) 0 8) 8 :=
  (format_truncates_safely_iff (fun _ => ' ') (show 1 ≤ 9 by decide) (fun _ => 0xa5)
    (show (0 : ℤ) ≤ 0 by decide) (show (0 : ℤ) ≤ 8 by decide)).1.mpr (by decide)

/-- Eight bits and room for three of them. -/
theorem format_never_ends :
    (∀ fuel, txvcBitVectorFormatLsb fuel (fun _ => ' ') 4 (fun _ => 0xa5) 0 8 = none) ∧
      ∀ fuel, txvcBitVectorFormatMsb fuel (fun _ => ' ') 4 (fun _ => 0xa5) 0 8 = none := by
  constructor
  · intro fuel
    have hnone := formatOctets_full (s := ⟨fun _ => ' ', 0, 4, (0 : ℕ)⟩)
      (path_lsb (fun _ => 0xa5) 0 8) (by decide) (by decide) fuel
    exact congrArg (Option.bind · _) hnone
  · intro fuel
    have hnone := formatOctets_full (s := ⟨fun _ => ' ', 0, 4, ((0 + 8 : ℕ) : ℤ) - 1⟩)
      (path_msb (fun _ => 0xa5) 0 8) (by decide) (by decide) fuel
    exact congrArg (Option.bind · _) hnone

end TinyXvc
