import Mathlib.Data.List.Basic
import Mathlib.Tactic

/-!
# Octets and octet vectors by their bits

Bits are counted from the least significant bit of an octet and on through the
octets of a vector.  A vector is a function on octet numbers: what a pointer
to its first octet can read.
-/

namespace Octet

/-- Bit `i` of an octet, least significant first. -/
def bit (b : UInt8) (i : ℕ) : Bool := b.toBitVec.getLsbD i

/-- The octet with the first eight values of `f` as its bits. -/
def ofBits (f : ℕ → Bool) : UInt8 := ⟨BitVec.ofBoolListLE ((List.range 8).map f)⟩

theorem bit_ofBits (f : ℕ → Bool) {i : ℕ} (hi : i < 8) : bit (ofBits f) i = f i := by
  change (BitVec.ofBoolListLE ((List.range 8).map f)).getLsbD i = f i
  rw [BitVec.getLsbD_ofBoolListLE]
  simp [List.getD_eq_getElem?_getD, hi]

theorem ext {a b : UInt8} (h : ∀ i < 8, bit a i = bit b i) : a = b := by
  rw [← UInt8.toBitVec_inj]
  exact BitVec.eq_of_getLsbD_eq h

@[simp] theorem bit_or (a b : UInt8) (i : ℕ) : bit (a ||| b) i = (bit a i || bit b i) := by
  simp [bit]

@[simp] theorem bit_and (a b : UInt8) (i : ℕ) : bit (a &&& b) i = (bit a i && bit b i) := by
  simp [bit]

theorem bit_not (a : UInt8) {i : ℕ} (hi : i < 8) : bit (~~~a) i = !bit a i := by
  simp [bit, hi]

private theorem toBitVec_shift {k : ℕ} (hk : k < 8) :
    (BitVec.ofNat 8 k % 8).toNat = k := by
  interval_cases k <;> rfl

theorem bit_shiftRight (a : UInt8) {k : ℕ} (hk : k < 8) (i : ℕ) :
    bit (a >>> UInt8.ofNat k) i = bit a (k + i) := by
  simp only [bit, UInt8.toBitVec_shiftRight, UInt8.toBitVec_ofNat']
  rw [BitVec.ushiftRight_eq', toBitVec_shift hk, BitVec.getLsbD_ushiftRight]

theorem bit_shiftLeft (a : UInt8) {k i : ℕ} (hk : k < 8) (hi : i < 8) :
    bit (a <<< UInt8.ofNat k) i = (!decide (i < k) && bit a (i - k)) := by
  simp only [bit, UInt8.toBitVec_shiftLeft, UInt8.toBitVec_ofNat']
  rw [BitVec.shiftLeft_eq', toBitVec_shift hk, BitVec.getLsbD_shiftLeft]
  simp [hi]

/-- The mask `1 << k` has bit `k` alone. -/
theorem bit_mask {k i : ℕ} (hk : k < 8) (hi : i < 8) :
    bit (1 <<< UInt8.ofNat k) i = decide (i = k) := by
  rw [bit_shiftLeft 1 hk hi]
  interval_cases k <;> interval_cases i <;> rfl

/-- Testing with the mask `1 << k` reads bit `k`. -/
theorem and_mask_ne_zero (b : UInt8) {k : ℕ} (hk : k < 8) :
    ((b &&& (1 <<< UInt8.ofNat k)) != 0) = bit b k := by
  cases hb : bit b k with
  | true =>
      rw [bne_iff_ne]
      intro h0
      have h : bit (b &&& (1 <<< UInt8.ofNat k)) k = true := by
        rw [bit_and, hb, bit_mask hk hk]
        simp
      rw [h0] at h
      interval_cases k <;> exact absurd h (by decide)
  | false =>
      have h : b &&& (1 <<< UInt8.ofNat k) = 0 := by
        refine ext fun i hi => ?_
        rw [bit_and, bit_mask hk hi]
        by_cases hik : i = k
        · subst hik
          simpa [bit] using hb
        · simp [hik, bit]
      simp [h]

theorem and_one_ne_zero (b : UInt8) : ((b &&& 1) != 0) = bit b 0 :=
  and_mask_ne_zero b (k := 0) (by decide)

end Octet

/-- The octets a pointer can read. -/
abbrev Octets := ℕ → UInt8

namespace Octets

/-- Bit `i` of an octet vector. -/
def bit (p : Octets) (i : ℕ) : Bool := Octet.bit (p (i / 8)) (i % 8)

/-- `n` bits of a vector from bit `start` on. -/
def bits (p : Octets) (start n : ℕ) : List Bool :=
  (List.range n).map fun i => p.bit (start + i)

@[simp] theorem length_bits (p : Octets) (start n : ℕ) : (p.bits start n).length = n := by
  simp [bits]

@[simp] theorem bits_zero (p : Octets) (start : ℕ) : p.bits start 0 = [] := rfl

theorem bits_succ (p : Octets) (start n : ℕ) :
    p.bits start (n + 1) = p.bit start :: p.bits (start + 1) n := by
  simp only [bits, List.range_succ_eq_map, List.map_cons, List.map_map, Nat.add_zero]
  congr 1
  apply List.map_congr_left
  intro i _
  simp [Nat.add_comm, Nat.add_left_comm]

theorem bits_add (p : Octets) (start m n : ℕ) :
    p.bits start (m + n) = p.bits start m ++ p.bits (start + m) n := by
  induction m generalizing start with
  | zero => simp
  | succ m ih =>
      rw [Nat.add_right_comm, bits_succ, ih, bits_succ, List.cons_append]
      congr 3
      omega

theorem getElem_bits (p : Octets) (start n i : ℕ) (hi : i < (p.bits start n).length) :
    (p.bits start n)[i] = p.bit (start + i) := by
  simp [bits]

theorem bit_of_aligned (p : Octets) {start : ℕ} (h : start % 8 = 0) {i : ℕ} (hi : i < 8) :
    p.bit (start + i) = Octet.bit (p (start / 8)) i := by
  unfold bit
  have hdiv : (start + i) / 8 = start / 8 := by omega
  have hmod : (start + i) % 8 = i := by omega
  rw [hdiv, hmod]

/-- The vector whose first octets are those of a list. -/
def ofList (l : List UInt8) : Octets := fun i => l.getD i 0

theorem bits_ofList_cons (b : UInt8) (bs : List UInt8) (n : ℕ) :
    (ofList (b :: bs)).bits 0 (8 * (n + 1)) =
      (List.range 8).map (Octet.bit b) ++ (ofList bs).bits 0 (8 * n) := by
  rw [show 8 * (n + 1) = 8 + 8 * n by omega, bits_add]
  have hfirst : (ofList (b :: bs)).bits 0 8 = (List.range 8).map (Octet.bit b) := by
    apply List.map_congr_left
    intro i hi
    exact bit_of_aligned _ (show 0 % 8 = 0 by decide) (List.mem_range.mp hi)
  have hrest : (ofList (b :: bs)).bits (0 + 8) (8 * n) = (ofList bs).bits 0 (8 * n) := by
    apply List.map_congr_left
    intro i _
    have hdiv : (0 + 8 + i) / 8 = (0 + i) / 8 + 1 := by omega
    have hmod : (0 + 8 + i) % 8 = (0 + i) % 8 := by omega
    rw [bit, bit, hdiv, hmod]
    rfl
  rw [hfirst, hrest]

/-- Vectors with the same bits are the same. -/
theorem ext_bit {p q : Octets} (h : ∀ i, p.bit i = q.bit i) : p = q := by
  apply funext
  intro j
  refine Octet.ext fun i hi => ?_
  have hbit := h (8 * j + i)
  rwa [bit_of_aligned p (by omega) hi, bit_of_aligned q (by omega) hi,
    show 8 * j / 8 = j by omega] at hbit

end Octets
