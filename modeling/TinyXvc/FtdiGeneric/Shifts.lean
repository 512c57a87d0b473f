import TinyXvc.FtdiGeneric.Commands

/-!
# What the two shifts do

The requests of a TMS shift clock the TMS bits of their range.  The requests of
a TDI shift clock the TDI bits of their range, at the TMS level that the engine
holds but for the last bit, and store one sample for each of them, whatever the
alignment of the range is.
-/

namespace TinyXvc

open Mpsse

/-- The levels of the `n` bits from bit `a` on. -/
def levels (f : ℕ → Bool × Bool) (a n : ℕ) : List (Bool × Bool) :=
  (List.range n).map fun i => f (a + i)

@[simp] theorem length_levels (f : ℕ → Bool × Bool) (a n : ℕ) : (levels f a n).length = n := by
  simp [levels]

theorem levels_add (f : ℕ → Bool × Bool) (a m n : ℕ) :
    levels f a (m + n) = levels f a m ++ levels f (a + m) n := by
  unfold levels
  rw [List.range_add, List.map_append, List.map_map]
  congr 1
  apply List.map_congr_left
  intro i _
  exact congrArg f (Nat.add_assoc a m i).symm

variable {dev : Device}

/-- The levels of a TMS shift. -/
def tmsShiftLevel (tms : Octets) (lastTdi : Bool) (k : ℕ) : Bool × Bool := (tms.bit k, lastTdi)

variable (dev) in
theorem exec_tmsRequests {e : Engine} (he : e.awaiting = .opcode) (tms : Octets) (lastTdi : Bool)
    (a b : ℕ) (m : Mem) :
    WellPaired dev e (tmsRequests tms lastTdi a b) ∧
      (tmsRequests tms lastTdi a b).foldl (Request.exec dev) (e, m) =
        (e.clocked dev (levels (tmsShiftLevel tms lastTdi) a (b - a)), m) := by
  induction hn : b - a using Nat.strong_induction_on generalizing a e with
  | _ n ih =>
      subst hn
      rw [tmsRequests]
      by_cases hlt : a < b
      · rw [if_pos hlt]
        dsimp only
        generalize hk : min (b - a) 6 = k
        obtain ⟨hfeed, hreplies⟩ := tms_command dev he tms lastTdi a (n := k) (by omega)
          (by omega)
        obtain ⟨hpair, hexec⟩ := ih (b - (a + k)) (by omega)
          (e := e.feed dev (tmsShiftCmd tms lastTdi a k)) (by rw [hfeed]; rfl) (a + k) rfl
        refine ⟨⟨congrArg List.length hreplies, hpair⟩, ?_⟩
        rw [List.foldl_cons]
        refine hexec.trans ?_
        rw [hfeed, Engine.clocked_append, show b - a = k + (b - (a + k)) by omega, levels_add]
        rfl
      · have hzero : b - a = 0 := by omega
        rw [if_neg hlt, hzero]
        exact ⟨trivial, congrArg (·, m) (e.clocked_nil dev he).symm⟩

namespace TdiShift

/-- The levels of a TDI shift by an engine that holds TMS at `hold`. -/
def level (t : TdiShift) (hold : Bool) (k : ℕ) : Bool × Bool :=
  (if k + 1 = t.toBitIdx then t.lastTmsBitHigh else hold, t.tdi.bit k)

theorem level_of_lt {t : TdiShift} {hold : Bool} {k : ℕ} (hk : k + 1 < t.toBitIdx) :
    t.level hold k = (hold, t.tdi.bit k) := by
  unfold level
  rw [if_neg (by omega)]

variable {t : TdiShift} {hold : Bool} {e : Engine} {m : Mem}

/-- TMS stays as it is up to the last bit. -/
theorem tmsLevel_clocked {a n : ℕ} (hlevel : e.tmsLevel = hold) (hn : a + n < t.toBitIdx) :
    (e.clocked dev (levels (t.level hold) a n)).tmsLevel = hold := by
  rw [Engine.clocked_of_level]
  · exact hlevel
  · intro l hl
    obtain ⟨i, hi, rfl⟩ := List.mem_map.mp hl
    rw [level_of_lt (by have := List.mem_range.mp hi; omega), hlevel]

theorem tdiLevels_eq {bits : UInt8} {a n : ℕ} (hn : a + n < t.toBitIdx)
    (hbits : ∀ i < n, Octet.bit bits i = t.tdi.bit (a + i)) :
    tdiLevels hold bits n = levels (t.level hold) a n := by
  apply List.map_congr_left
  intro i hi
  have hi' := List.mem_range.mp hi
  rw [level_of_lt (by omega), hbits i hi']

theorem payloadLevels_eq {octet k : ℕ} (hk : 8 * (octet + k) < t.toBitIdx) :
    Engine.payloadLevels hold ((List.range k).map fun i => t.tdi (octet + i)) =
      levels (t.level hold) (8 * octet) (8 * k) := by
  induction k with
  | zero => rfl
  | succ k ih =>
      have hlast : tdiLevels hold (t.tdi (octet + k)) 8 =
          levels (t.level hold) (8 * octet + 8 * k) 8 := by
        refine tdiLevels_eq (by omega) fun i hi => ?_
        rw [Octets.bit_of_aligned t.tdi (by omega) hi]
        congr 2
        omega
      rw [show 8 * (k + 1) = 8 * k + 8 by omega, levels_add, ← ih (by omega), ← hlast,
        List.range_succ, List.map_append]
      simp [Engine.payloadLevels]

theorem numLeadingBits_le (t : TdiShift) : t.fromBitIdx % 8 + t.split.numLeadingBits ≤ 8 := by
  unfold split tdiSplit
  dsimp only
  split <;> omega

variable (dev) in
theorem leading_segment (he : e.awaiting = .opcode) (hlevel : e.tmsLevel = hold)
    (hlt : t.fromBitIdx + t.split.numLeadingBits < t.toBitIdx) (h8 : t.split.numLeadingBits < 8) :
    Segment dev e m t.leadingRequests
      (levels (t.level hold) t.fromBitIdx t.split.numLeadingBits) t.tdo
      t.fromBitIdx := by
  unfold leadingRequests
  dsimp only
  by_cases hn : t.split.numLeadingBits > 0
  · have hbits : tdiLevels e.tmsLevel
        (t.tdi (t.fromBitIdx / 8) >>> UInt8.ofNat (t.fromBitIdx % 8)) t.split.numLeadingBits =
        levels (t.level hold) t.fromBitIdx t.split.numLeadingBits := by
      rw [hlevel]
      refine tdiLevels_eq hlt fun i hi => ?_
      have hle := t.numLeadingBits_le
      have hdiv : (t.fromBitIdx + i) / 8 = t.fromBitIdx / 8 := by omega
      have hmod : (t.fromBitIdx + i) % 8 = t.fromBitIdx % 8 + i := by omega
      rw [Octet.bit_shiftRight _ (Nat.mod_lt _ (by decide)), Octets.bit, hdiv, hmod]
    rw [if_pos hn, ← hbits]
    exact segment_tdiBits he hn (by omega) _ t.tdo t.fromBitIdx m
  · have hzero : t.split.numLeadingBits = 0 := by omega
    rw [if_neg hn, hzero]
    exact segment_nil he m t.tdo t.fromBitIdx

theorem inner_segment {chip octet n : ℕ} (hchip : 0 < chip) (hmax : chip ≤ 65536)
    (he : e.awaiting = .opcode) (hlevel : e.tmsLevel = hold)
    (hlt : 8 * (octet + n) < t.toBitIdx) :
    Segment dev e m (t.innerRequests chip octet n) (levels (t.level hold) (8 * octet) (8 * n)) t.tdo
      (8 * octet) := by
  induction n using Nat.strong_induction_on generalizing octet e m with
  | _ n ih =>
      rw [innerRequests]
      by_cases hn : 0 < n
      · rw [if_pos ⟨hn, hchip⟩]
        dsimp only
        generalize hk : min n chip = k
        have hhead := segment_octets dev he
          ((List.range k).map fun i => t.tdi (octet + i)) (k := k) (by simp) (by omega)
          (by omega) t.tdo octet m
        rw [hlevel, payloadLevels_eq (by omega)] at hhead
        rw [show 8 * n = 8 * k + 8 * (n - k) by omega, levels_add]
        refine hhead.append (b := 8 * (octet + k)) (by rw [length_levels]; omega) fun m' => ?_
        rw [show 8 * octet + 8 * k = 8 * (octet + k) by omega]
        exact ih (n - k) (by omega) rfl (tmsLevel_clocked hlevel (by omega)) (by omega)
      · have hzero : n = 0 := by omega
        rw [if_neg (fun h => hn h.1), hzero]
        exact segment_nil he m t.tdo (8 * octet)

theorem trailing_segment {octet : ℕ} (he : e.awaiting = .opcode) (hlevel : e.tmsLevel = hold)
    (hend : t.split.innerEndIdx = 8 * octet)
    (hlt : 8 * octet + t.split.numTrailingBits < t.toBitIdx) (h8 : t.split.numTrailingBits < 8) :
    Segment dev e m t.trailingRequests
      (levels (t.level hold) (8 * octet) t.split.numTrailingBits) t.tdo
      (8 * octet) := by
  unfold trailingRequests
  dsimp only
  have hnat : t.split.innerEndIdx.toNat = 8 * octet := by omega
  rw [hnat]
  by_cases hn : t.split.numTrailingBits > 0
  · have hbits : tdiLevels e.tmsLevel (t.tdi (8 * octet / 8)) t.split.numTrailingBits =
        levels (t.level hold) (8 * octet) t.split.numTrailingBits := by
      rw [hlevel]
      exact tdiLevels_eq hlt fun i hi =>
        (Octets.bit_of_aligned t.tdi (by omega) (by omega)).symm
    rw [if_pos hn, ← hbits]
    exact segment_tdiBits he hn (by omega) _ t.tdo (8 * octet) m
  · have hzero : t.split.numTrailingBits = 0 := by omega
    rw [if_neg hn, hzero]
    exact segment_nil he m t.tdo (8 * octet)

theorem last_segment (h : t.split.lastBitIdx + 1 = t.toBitIdx) (he : e.awaiting = .opcode) :
    Segment dev e m [t.lastRequest] (levels (t.level hold) t.split.lastBitIdx 1) t.tdo
      t.split.lastBitIdx := by
  have hlevel : levels (t.level hold) t.split.lastBitIdx 1 =
      [(t.lastTmsBitHigh, getBit t.tdi t.split.lastBitIdx)] := by
    simp [levels, level, h, getBit_eq]
  rw [hlevel]
  exact segment_lastBit he _ _ t.tdo _ m

variable (dev) in
/-- The requests of a TDI shift clock its range and store the samples. -/
theorem segment (t : TdiShift) (h : t.fromBitIdx < t.toBitIdx) {chip : ℕ} (hchip : 0 < chip)
    (hmax : chip ≤ 65536) (he : e.awaiting = .opcode) (hlevel : e.tmsLevel = hold) (m : Mem) :
    Segment dev e m (t.requests chip)
      (levels (t.level hold) t.fromBitIdx (t.toBitIdx - t.fromBitIdx)) t.tdo
      t.fromBitIdx := by
  obtain ⟨hlast, hlead8, htrail8, hlayout⟩ := t.split_cases h
  have hlead := leading_segment dev (m := m) he hlevel (t := t) (by omega) hlead8
  unfold requests
  rw [List.append_assoc]
  rcases hlayout with ⟨hend, hinner, htrail⟩ | ⟨hbegin, -, hinnerEnd, hend⟩
  · -- only leading bits before the last one
    have hnone : t.innerRequests chip t.innerOctet t.innerOctets = [] := by
      rw [innerRequests, if_neg (by omega)]
    have hnoTrail : t.trailingRequests = [] := by
      unfold trailingRequests
      dsimp only
      rw [if_neg (by omega)]
    rw [hnone, hnoTrail, List.nil_append, List.nil_append,
      show t.toBitIdx - t.fromBitIdx = t.split.numLeadingBits + 1 by omega, levels_add, hend]
    exact hlead.append (by rw [length_levels]; omega) fun m' => last_segment hlast rfl
  · generalize t.innerOctet = octet at *
    generalize t.innerOctets = n at *
    have hkeep : (e.clocked dev
        (levels (t.level hold) t.fromBitIdx t.split.numLeadingBits)).tmsLevel = hold :=
      tmsLevel_clocked hlevel (by omega)
    have hkeep' :
        ((e.clocked dev (levels (t.level hold) t.fromBitIdx t.split.numLeadingBits)).clocked dev
        (levels (t.level hold) (8 * octet) (8 * n))).tmsLevel = hold :=
      tmsLevel_clocked hkeep (by omega)
    rw [show t.toBitIdx - t.fromBitIdx =
        t.split.numLeadingBits + (8 * n + (t.split.numTrailingBits + 1)) by omega,
      levels_add, levels_add, levels_add, hbegin,
      show 8 * octet + 8 * n = 8 * (octet + n) by omega, hend]
    refine hlead.append (b := 8 * octet) (by rw [length_levels]; omega) fun m₁ => ?_
    refine (inner_segment (t := t) hchip hmax rfl hkeep (by omega)).append
      (b := 8 * (octet + n)) (by rw [length_levels]; omega) fun m₂ => ?_
    refine (trailing_segment rfl hkeep' hinnerEnd (by omega) htrail8).append
      (b := t.split.lastBitIdx) (by rw [length_levels]; omega) fun m₃ => ?_
    exact last_segment hlast rfl

end TdiShift

end TinyXvc
