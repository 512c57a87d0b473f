import TinyXvc.BitVector.Formatting

/-!
# The bit vector functions agree

The formatters write the bits of a range in opposite orders, and two ranges are
equal exactly if they are written alike.
-/

namespace TinyXvc

namespace BitVector

theorem bitsEqual_eq (lhs rhs : Octets) (lhsStart rhsStart n : ℕ) :
    bitsEqual lhs lhsStart ((lhsStart + n : ℕ) : ℤ) rhs rhsStart =
      decide (lhs.bits lhsStart n = rhs.bits rhsStart n) := by
  induction n generalizing lhsStart rhsStart with
  | zero =>
      rw [bitsEqual, if_neg (by push_cast; omega)]
      rfl
  | succ n ih =>
      have hrest := ih (lhsStart + 1) (rhsStart + 1)
      rw [Nat.add_right_comm] at hrest
      rw [bitsEqual, if_pos (by push_cast; omega), getBit_natCast, getBit_natCast, Octets.bits_succ,
        Octets.bits_succ]
      by_cases hbit : lhs.bit lhsStart = rhs.bit rhsStart
      · rw [if_neg (not_not_intro hbit), hbit]
        push_cast at hrest ⊢
        rw [← add_assoc, hrest]
        simp
      · rw [if_pos hbit]
        simp [hbit]

theorem bitChar_injective : Function.Injective bitChar := by
  intro a b h
  cases a <;> cases b <;> first | rfl | exact absurd h (by decide)

theorem formatOctets_succ {dir : FormatDir} {vector : Octets} {fuel : ℕ} {s t : FormatState}
    (h : formatOctets dir vector fuel s = some t) :
    formatOctets dir vector (fuel + 1) s = some t := by
  induction fuel generalizing s with
  | zero => cases h
  | succ fuel ih =>
      rw [formatOctets] at h ⊢
      split at h
      · rw [if_pos ‹_›]
        exact ih h
      · rw [if_neg ‹_›]
        exact h

theorem formatOctets_mono {dir : FormatDir} {vector : Octets} {fuel fuel' : ℕ} {s t : FormatState}
    (h : formatOctets dir vector fuel s = some t) (hle : fuel ≤ fuel') :
    formatOctets dir vector fuel' s = some t := by
  induction hle with
  | refl => exact h
  | step _ ih => exact formatOctets_succ ih

/-- The formatter ends, and whenever it does, the buffer holds `s`. -/
def Formats (format : ℕ → Option ((ℕ → Char) × ℤ)) (s : CString) : Prop :=
  (∃ fuel r, format fuel = some r) ∧ ∀ fuel r, format fuel = some r → HoldsString r.1 s

theorem formats_of_path {dir : FormatDir} {vector : Octets} {s : FormatState} {bits : List Bool}
    (h : Path dir vector s.idx bits) {outSz : ℕ} (hp : s.p = 0) (havail : s.avail = outSz)
    (hfits : bits.length < outSz) (result : ℤ) :
    Formats (fun fuel => (formatOctets dir vector fuel s).bind
      fun t => some (t.terminated outSz, result)) (bits.map bitChar) := by
  obtain ⟨fuel, out', hrun, hholds, -⟩ := exists_formatted h hp havail hfits result
  refine ⟨⟨fuel, _, hrun⟩, fun fuel' r hr => ?_⟩
  obtain ⟨t, ht, hout⟩ := Option.bind_eq_some_iff.mp hrun
  obtain ⟨t', ht', hout'⟩ := Option.bind_eq_some_iff.mp hr
  have hsame : t = t' := by
    have hmax := formatOctets_mono ht (le_max_left fuel fuel')
    rw [formatOctets_mono ht' (le_max_right fuel fuel')] at hmax
    cases hmax
    rfl
  subst hsame
  cases hout
  cases hout'
  exact hholds

end BitVector

open BitVector

/-- What the formatters write for a range, into any buffer that is larger. -/
structure FormattedAs (vector : Octets) (start «end» : ℤ) (s : CString) : Prop where
  length : (s.length : ℤ) = «end» - start
  chars : ∀ i (hi : i < s.length), s[i] = bitChar (vector.bit (start.toNat + i))
  lsb : ∀ (out : ℕ → Char) (outSz : ℕ), «end» - start < outSz →
    Formats (txvcBitVectorFormatLsb · out outSz vector start «end») s
  msb : ∀ (out : ℕ → Char) (outSz : ℕ), «end» - start < outSz →
    Formats (txvcBitVectorFormatMsb · out outSz vector start «end») s.reverse

theorem formattedAs_bits (vector : Octets) (start n : ℕ) :
    FormattedAs vector start ((start + n : ℕ) : ℤ) ((vector.bits start n).map bitChar) where
  length := by
    rw [List.length_map, Octets.length_bits]
    push_cast
    ring
  chars i hi := by
    rw [List.getElem_map, Octets.getElem_bits]
    rfl
  lsb out outSz hfits := by
    have hlen : (vector.bits start n).length < outSz := by
      rw [Octets.length_bits]
      push_cast at hfits
      omega
    exact formats_of_path (s := ⟨out, 0, outSz, start⟩) (path_lsb vector start n) rfl rfl hlen _
  msb out outSz hfits := by
    have hlen : (vector.bits start n).reverse.length < outSz := by
      rw [List.length_reverse, Octets.length_bits]
      push_cast at hfits
      omega
    rw [← List.map_reverse]
    exact formats_of_path (s := ⟨out, 0, outSz, ((start + n : ℕ) : ℤ) - 1⟩)
      (path_msb vector start n) rfl rfl hlen _

theorem txvcBitVectorEqual_iff (lhs rhs : Octets) (lhsStart m rhsStart n : ℕ) :
    txvcBitVectorEqual lhs lhsStart ((lhsStart + m : ℕ) : ℤ) rhs rhsStart
        ((rhsStart + n : ℕ) : ℤ) = true ↔
      (lhs.bits lhsStart m).map bitChar = (rhs.bits rhsStart n).map bitChar := by
  rw [(List.map_injective_iff.mpr bitChar_injective).eq_iff, txvcBitVectorEqual]
  by_cases hlen : m = n
  · subst hlen
    rw [if_neg (by push_cast; omega), bitsEqual_eq, decide_eq_true_iff]
  · rw [if_pos (by push_cast; omega)]
    constructor
    · exact fun h => absurd h Bool.false_ne_true
    · intro h
      have hcongr := congrArg List.length h
      rw [Octets.length_bits, Octets.length_bits] at hcongr
      exact absurd hcongr hlen

/-- The three functions agree on all ranges of two vectors. -/
theorem bit_vector_functions_agree (lhs rhs : Octets) {lhsStart lhsEnd rhsStart rhsEnd : ℤ}
    (hlhs : 0 ≤ lhsStart) (hlhsEnd : lhsStart ≤ lhsEnd) (hrhs : 0 ≤ rhsStart)
    (hrhsEnd : rhsStart ≤ rhsEnd) :
    ∃ s t, FormattedAs lhs lhsStart lhsEnd s ∧ FormattedAs rhs rhsStart rhsEnd t ∧
      (txvcBitVectorEqual lhs lhsStart lhsEnd rhs rhsStart rhsEnd = true ↔ s = t) ∧
      (txvcBitVectorEqual lhs lhsStart lhsEnd rhs rhsStart rhsEnd = true ↔
        s.reverse = t.reverse) := by
  lift lhsStart to ℕ using hlhs
  lift rhsStart to ℕ using hrhs
  obtain ⟨m, rfl⟩ := Int.le.dest hlhsEnd
  obtain ⟨n, rfl⟩ := Int.le.dest hrhsEnd
  have hequal := txvcBitVectorEqual_iff lhs rhs lhsStart m rhsStart n
  rw [Nat.cast_add, Nat.cast_add] at hequal
  refine ⟨(lhs.bits lhsStart m).map bitChar, (rhs.bits rhsStart n).map bitChar, ?_, ?_, hequal, ?_⟩
  · have hformat := formattedAs_bits lhs lhsStart m
    rwa [Nat.cast_add] at hformat
  · have hformat := formattedAs_bits rhs rhsStart n
    rwa [Nat.cast_add] at hformat
  · rw [List.reverse_inj]
    exact hequal

/-- Four bits across an octet boundary, and four within an octet. -/
theorem bit_vector_functions_agree_unaligned :
    ∃ s t, FormattedAs (Octets.ofList [0xa0, 0x05]) 6 10 s ∧
      FormattedAs (Octets.ofList [0x2c]) 2 6 t ∧
      (txvcBitVectorEqual (Octets.ofList [0xa0, 0x05]) 6 10 (Octets.ofList [0x2c]) 2 6 = true ↔
        s = t) ∧
      (txvcBitVectorEqual (Octets.ofList [0xa0, 0x05]) 6 10 (Octets.ofList [0x2c]) 2 6 = true ↔
        s.reverse = t.reverse) :=
  bit_vector_functions_agree _ _ (by decide) (by decide) (by decide) (by decide)

end TinyXvc
