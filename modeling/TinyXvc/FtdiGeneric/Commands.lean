import TinyXvc.FtdiGeneric.Link

/-!
# What the commands of the driver do

Each command, executed by an engine that waits for an opcode, clocks the levels
it was made from and leaves the samples where its observer puts them.
-/

namespace TinyXvc

open Mpsse

/-- `m'` is `m` with the bits from bit `a` of `p` on replaced by `bits`. -/
def Stored (m m' : Mem) (p : Ptr) (a : ℕ) (bits : List Bool) : Prop :=
  ∀ b i, (m' b).bit i =
    if b = p.block ∧ 8 * p.off + a ≤ i ∧ i < 8 * p.off + a + bits.length then
      (bits[i - (8 * p.off + a)]?).getD false
    else (m b).bit i

theorem stored_nil (m : Mem) (p : Ptr) (a : ℕ) : Stored m m p a [] := by
  intro b i
  have hnot : ¬ (b = p.block ∧ 8 * p.off + a ≤ i ∧
      i < 8 * p.off + a + ([] : List Bool).length) := by
    rintro ⟨-, hlo, hhi⟩
    rw [List.length_nil] at hhi
    omega
  rw [if_neg hnot]

theorem Stored.append {m m' m'' : Mem} {p : Ptr} {a : ℕ} {xs ys : List Bool}
    (h : Stored m m' p a xs) (h' : Stored m' m'' p (a + xs.length) ys) :
    Stored m m'' p a (xs ++ ys) := by
  intro b i
  rw [h' b i, h b i]
  by_cases hb : b = p.block
  · simp only [hb, true_and, List.length_append]
    by_cases hy : 8 * p.off + (a + xs.length) ≤ i ∧ i < 8 * p.off + (a + xs.length) + ys.length
    · have hidx : i - (8 * p.off + a) - xs.length = i - (8 * p.off + (a + xs.length)) := by omega
      rw [if_pos hy, if_pos (by omega), List.getElem?_append_right (by omega), hidx]
    · rw [if_neg hy]
      by_cases hx : 8 * p.off + a ≤ i ∧ i < 8 * p.off + a + xs.length
      · rw [if_pos hx, if_pos (by omega), List.getElem?_append_left (by omega)]
      · rw [if_neg hx, if_neg (by omega)]
  · simp only [hb, false_and, if_false]

theorem stored_add {m m' : Mem} {p : Ptr} {octet : ℕ} {bits : List Bool}
    (h : Stored m m' (p.add octet) 0 bits) : Stored m m' p (8 * octet) bits := by
  intro b i
  have hbit := h b i
  rw [show 8 * (p.add octet).off + 0 = 8 * p.off + 8 * octet from Nat.mul_add 8 p.off octet] at hbit
  exact hbit

/-- The bit copier stores bits of the replies. -/
theorem stored_bitCopier (rx : Octets) (e : BitCopierRxObserverExtra) (m : Mem) {bits : List Bool}
    (hbits : bits = (List.range e.numBits).map fun i => rx.bit (e.fromBit + i)) :
    Stored m (bitCopierRxObserverFn rx e m) e.dst e.toBit bits := by
  intro b i
  have hlen : bits.length = e.numBits := by simp [hbits]
  rw [bitCopierRxObserverFn, Mem.bit_write, hlen]
  by_cases hb : b = e.dst.block
  · subst hb
    simp only [true_and]
    by_cases hi : 8 * e.dst.off ≤ i
    · rw [if_pos hi, bit_copyBits, Mem.bit_view,
        show 8 * e.dst.off + (i - 8 * e.dst.off) = i by omega]
      by_cases hin : 8 * e.dst.off + e.toBit ≤ i ∧ i < 8 * e.dst.off + e.toBit + e.numBits
      · have hlt : i - (8 * e.dst.off + e.toBit) < e.numBits := by omega
        have hidx : i - 8 * e.dst.off - e.toBit = i - (8 * e.dst.off + e.toBit) := by omega
        rw [if_pos (by omega), if_pos hin, hbits, hidx]
        simp [hlt]
      · rw [if_neg (by omega), if_neg hin]
    · rw [if_neg hi, if_neg (by omega)]
  · simp only [hb, false_and, if_false]

/-- The byte copier stores all bits of the replies. -/
theorem stored_byteCopier (rx : Octets) (e : ByteCopierRxObserverExtra) (m : Mem)
    {bits : List Bool} (hbits : bits = rx.bits 0 (8 * e.numBytes)) :
    Stored m (byteCopierRxObserverFn rx e m) e.dst 0 bits := by
  intro b i
  have hlen : bits.length = 8 * e.numBytes := by simp [hbits]
  rw [byteCopierRxObserverFn, Mem.bit_write, hlen]
  by_cases hb : b = e.dst.block
  · subst hb
    simp only [true_and, Nat.add_zero]
    by_cases hi : 8 * e.dst.off ≤ i
    · rw [if_pos hi]
      by_cases hin : i < 8 * e.dst.off + 8 * e.numBytes
      · have hdiv : (i - 8 * e.dst.off) / 8 < e.numBytes := by omega
        have hlt : i - 8 * e.dst.off < 8 * e.numBytes := by omega
        rw [if_pos ⟨hi, hin⟩, hbits]
        simp [Octets.bit, Octets.bits, hdiv, hlt]
      · have hdiv : ¬ (i - 8 * e.dst.off) / 8 < e.numBytes := by omega
        have hview := Mem.bit_view m e.dst (i - 8 * e.dst.off)
        rw [show 8 * e.dst.off + (i - 8 * e.dst.off) = i by omega] at hview
        rw [if_neg (by omega), ← hview]
        simp only [Octets.bit, if_neg hdiv]
    · rw [if_neg hi, if_neg (by omega)]
  · simp only [hb, false_and, if_false]

/-! ## Segments of requests -/

section Segments

variable {dev : Device}

/-- Each request is answered by as many replies as it expects. -/
def WellPaired (dev : Device) : Engine → List Request → Prop
  | _, [] => True
  | e, q :: qs => (e.replies dev q.txData).length = q.rxNumBytes ∧
      WellPaired dev (e.feed dev q.txData) qs

theorem wellPaired_append {e : Engine} {qs qs' : List Request} {m : Mem} (h : WellPaired dev e qs)
    (h' : WellPaired dev (qs.foldl (Request.exec dev) (e, m)).1 qs') :
    WellPaired dev e (qs ++ qs') := by
  induction qs generalizing e m with
  | nil => exact h'
  | cons q qs ih => exact ⟨h.1, ih h.2 h'⟩

/-- The requests clock the levels `ls`, and the samples are stored from bit `a`
of `tdo` on. -/
def Segment (dev : Device) (e : Engine) (m : Mem) (qs : List Request) (ls : List (Bool × Bool))
    (tdo : Ptr) (a : ℕ) : Prop :=
  WellPaired dev e qs ∧
  (qs.foldl (Request.exec dev) (e, m)).1 = e.clocked dev ls ∧
  Stored m (qs.foldl (Request.exec dev) (e, m)).2 tdo a ((dev.clock e.cycles ls).map Cycle.tdo)

theorem segment_nil {e : Engine} (he : e.awaiting = .opcode) (m : Mem) (tdo : Ptr) (a : ℕ) :
    Segment dev e m [] [] tdo a :=
  ⟨trivial, (e.clocked_nil dev he).symm, stored_nil m tdo a⟩

theorem Segment.append {e : Engine} {m : Mem} {qs qs' : List Request} {ls ls' : List (Bool × Bool)}
    {tdo : Ptr} {a b : ℕ} (h : Segment dev e m qs ls tdo a) (hb : b = a + ls.length)
    (h' : ∀ m', Segment dev (e.clocked dev ls) m' qs' ls' tdo b) :
    Segment dev e m (qs ++ qs') (ls ++ ls') tdo a := by
  obtain ⟨hpair, hengine, hstored⟩ := h
  generalize hp : qs.foldl (Request.exec dev) (e, m) = p at *
  obtain ⟨e', m'⟩ := p
  dsimp only at hengine hstored
  subst hengine hb
  obtain ⟨hpair', hengine', hstored'⟩ := h' m'
  refine ⟨wellPaired_append (m := m) hpair (by rw [hp]; exact hpair'), ?_, ?_⟩
  · rw [List.foldl_append, hp, hengine', e.clocked_append]
  · rw [List.foldl_append, hp, dev.clock_append, List.map_append]
    refine hstored.append ?_
    rw [List.length_map, dev.length_clock]
    exact hstored'

theorem bit_ofBool_shift (b : Bool) {i : ℕ} (hi : i < 8) :
    Octet.bit (ofBool b <<< 7) i = (decide (i = 7) && b) := by
  cases b <;> interval_cases i <;> rfl

theorem toNat_ofNat_pred {n : ℕ} (h1 : 1 ≤ n) (h8 : n ≤ 8) :
    (UInt8.ofNat (n - 1)).toNat % 8 + 1 = n := by
  rw [UInt8.toNat_ofNat']
  omega

variable (dev) in
/-- A TMS command. -/
theorem tms_command {e : Engine} (he : e.awaiting = .opcode) (tms : Octets) (lastTdi : Bool)
    (fromBitIdx : ℕ) {n : ℕ} (h1 : 1 ≤ n) (h6 : n ≤ 6) :
    e.feed dev (tmsShiftCmd tms lastTdi fromBitIdx n) =
        e.clocked dev ((List.range n).map fun i => (tms.bit (fromBitIdx + i), lastTdi)) ∧
      e.replies dev (tmsShiftCmd tms lastTdi fromBitIdx n) = [] := by
  have hbit : ∀ i < n, Octet.bit
      (copyBits tms fromBitIdx (fun _ => ofBool lastTdi <<< 7) 0 n true 0) i =
        tms.bit (fromBitIdx + i) := by
    intro i hi
    have h := bit_copyBits_duplicate tms fromBitIdx (fun _ => ofBool lastTdi <<< 7) 0 n i
    rw [if_neg (by omega), bit_copyBits, if_pos (by omega)] at h
    have hdiv : i / 8 = 0 := by omega
    have hmod : i % 8 = i := by omega
    rw [Octets.bit, hdiv, hmod] at h
    exact h
  have hlast : Octet.bit
      (copyBits tms fromBitIdx (fun _ => ofBool lastTdi <<< 7) 0 n true 0) 7 = lastTdi := by
    have h := bit_copyBits_duplicate tms fromBitIdx (fun _ => ofBool lastTdi <<< 7) 0 n 7
    rw [if_neg (by omega), bit_copyBits, if_neg (by omega)] at h
    exact h.trans (bit_ofBool_shift lastTdi (by decide))
  obtain ⟨hfeed, hreplies⟩ := Engine.feed_shiftTms dev he (b := opShiftWrTmsFlag |||
    opShiftLsbFirstFlag ||| opShiftBitmodeFlag ||| opShiftWrFallingFlag) rfl
    (UInt8.ofNat (n - 1)) (copyBits tms fromBitIdx (fun _ => ofBool lastTdi <<< 7) 0 n true 0)
  refine ⟨hfeed.trans ?_, hreplies⟩
  rw [toNat_ofNat_pred h1 (by omega)]
  congr 1
  apply List.map_congr_left
  intro i hi
  rw [hbit i (List.mem_range.mp hi), hlast]

variable (dev) in
/-- The bit copier takes the samples of a pulse from the high end of its reply. -/
theorem stored_sampled (e : Engine) (m : Mem) (ls : List (Bool × Bool)) {n : ℕ} (hn : n ≤ 8)
    (hlen : ls.length = n) (tdo : Ptr) (a : ℕ) :
    Stored m (bitCopierRxObserverFn (Octets.ofList [e.sampled dev ls]) ⟨8 - n, tdo, a, n⟩ m) tdo a
      ((dev.clock e.cycles ls).map Cycle.tdo) := by
  have hle : (dev.clock e.cycles ls).length ≤ 8 := by
    rw [dev.length_clock]
    omega
  have hsamples := bits_bitReply (dev.residue e.cycles) hle
  rw [dev.length_clock, hlen] at hsamples
  refine stored_bitCopier _ _ m ?_
  rw [← hsamples]
  apply List.map_congr_left
  intro i hi
  have hi' := List.mem_range.mp hi
  have hdiv : (8 - n + i) / 8 = 0 := by omega
  have hmod : (8 - n + i) % 8 = 8 - n + i := by omega
  rw [Octets.bit, hdiv, hmod]
  rfl

/-- A bit-mode read. -/
theorem segment_tdiBits {e : Engine} (he : e.awaiting = .opcode) {n : ℕ} (h1 : 1 ≤ n) (h7 : n ≤ 7)
    (bits : UInt8) (tdo : Ptr) (a : ℕ) (m : Mem) :
    Segment dev e m [.readBits (tdiBitsCmd n bits) ⟨8 - n, tdo, a, n⟩]
      (tdiLevels e.tmsLevel bits n) tdo a := by
  obtain ⟨hfeed, hreplies⟩ := Engine.feed_shiftBits dev he (b := opShiftRdTdoFlag |||
    opShiftWrTdiFlag ||| opShiftLsbFirstFlag ||| opShiftBitmodeFlag ||| opShiftWrFallingFlag) rfl
    (UInt8.ofNat (n - 1)) bits
  rw [toNat_ofNat_pred h1 (by omega)] at hfeed hreplies
  have hstored := stored_sampled dev e m (tdiLevels e.tmsLevel bits n) (show n ≤ 8 by omega)
    (by simp [tdiLevels]) tdo a
  rw [← hreplies] at hstored
  exact ⟨⟨congrArg List.length hreplies, trivial⟩, hfeed, hstored⟩

/-- The read of the last bit. -/
theorem segment_lastBit {e : Engine} (he : e.awaiting = .opcode) (lastTdiBit lastTmsBit : Bool)
    (tdo : Ptr) (a : ℕ) (m : Mem) :
    Segment dev e m [.readBits (lastBitCmd lastTdiBit lastTmsBit) ⟨7, tdo, a, 1⟩]
      [(lastTmsBit, lastTdiBit)] tdo a := by
  have hlevels : tmsLevels (ofBool lastTdiBit <<< 7 ||| ofBool lastTmsBit <<< 1 |||
      ofBool lastTmsBit) 1 = [(lastTmsBit, lastTdiBit)] := by
    cases lastTdiBit <;> cases lastTmsBit <;> rfl
  obtain ⟨hfeed, hreplies⟩ := Engine.feed_shiftTms dev he (b := opShiftWrTmsFlag |||
    opShiftRdTdoFlag ||| opShiftLsbFirstFlag ||| opShiftBitmodeFlag ||| opShiftWrFallingFlag)
    rfl 0x00
    (ofBool lastTdiBit <<< 7 ||| ofBool lastTmsBit <<< 1 ||| ofBool lastTmsBit)
  have hone : (0x00 : UInt8).toNat % 8 + 1 = 1 := rfl
  rw [hone, hlevels] at hfeed hreplies
  have hstored := stored_sampled dev e m [(lastTmsBit, lastTdiBit)] (show 1 ≤ 8 by decide)
    rfl tdo a
  rw [if_pos rfl] at hreplies
  rw [← hreplies] at hstored
  exact ⟨⟨congrArg List.length hreplies, trivial⟩, hfeed, hstored⟩

/-- The operands of a byte-mode header announce the payload. -/
theorem octets_operands {k : ℕ} (h1 : 1 ≤ k) (hmax : k ≤ 65536) :
    (UInt8.ofNat (k - 1)).toNat + 256 * (UInt8.ofNat ((k - 1) >>> 8)).toNat = k - 1 := by
  rw [UInt8.toNat_ofNat', UInt8.toNat_ofNat', Nat.shiftRight_eq_div_pow]
  omega

variable (dev) in
/-- A byte-mode read: the header and the payload that it announces. -/
theorem segment_octets {e : Engine} (he : e.awaiting = .opcode) (payload : List UInt8) {k : ℕ}
    (hk : payload.length = k) (h1 : 1 ≤ k) (hmax : k ≤ 65536) (tdo : Ptr) (octet : ℕ) (m : Mem) :
    Segment dev e m [.write (tdiOctetsCmd k), .readBytes payload (tdo.add octet) k]
      (Engine.payloadLevels e.tmsLevel payload) tdo (8 * octet) := by
  have hop : Opcode.decode (opShiftRdTdoFlag ||| opShiftWrTdiFlag ||| opShiftLsbFirstFlag |||
      opShiftWrFallingFlag) = .shiftOctets := rfl
  obtain ⟨hheader, hnone⟩ := Engine.feed_command dev he hop (by decide) (by decide)
    (UInt8.ofNat (k - 1)) (UInt8.ofNat ((k - 1) >>> 8))
  rw [Awaiting.next, octets_operands h1 hmax] at hheader
  have hheader' : e.feed dev (tdiOctetsCmd k) = { e with awaiting := .payload (k - 1) } := hheader
  obtain ⟨hfeed, hlen, hsamples⟩ := Engine.feed_payload dev
    (e := { e with awaiting := .payload (k - 1) }) rfl (show payload.length = k - 1 + 1 by omega)
  have hlevel : ∀ l ∈ Engine.payloadLevels e.tmsLevel payload, l.1 = e.tmsLevel := by
    intro l hl
    simp only [Engine.payloadLevels, List.mem_flatMap, tdiLevels, List.mem_map] at hl
    obtain ⟨b, -, i, -, rfl⟩ := hl
    rfl
  have hengine : (e.feed dev (tdiOctetsCmd k)).feed dev payload =
      e.clocked dev (Engine.payloadLevels e.tmsLevel payload) := by
    rw [hheader', hfeed, Engine.clocked_of_level dev hlevel]
    rfl
  refine ⟨⟨congrArg List.length hnone, ?_, trivial⟩, hengine, ?_⟩
  · change ((e.feed dev (tdiOctetsCmd k)).replies dev payload).length = k
    rw [hheader', hlen]
    omega
  · refine stored_add (stored_byteCopier
      (Octets.ofList ((e.feed dev (tdiOctetsCmd k)).replies dev payload))
      ⟨tdo.add octet, k⟩ m ?_)
    rw [hk] at hsamples
    rw [hheader']
    exact hsamples.symm

end Segments

end TinyXvc
