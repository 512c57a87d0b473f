import TinyXvc.Defs

/-!
# Bit copying of the FTDI driver

`get_bit`, `set_bit` and `copy_bits` of `ftdi_generic.c`, and what they do to
the bits of a vector.
-/

namespace TinyXvc

def getBit (p : Octets) (idx : ℕ) : Bool :=
  p (idx / 8) &&& (1 <<< UInt8.ofNat (idx % 8)) != 0

def setBit (p : Octets) (idx : ℕ) (bit : Bool) : Octets :=
  Function.update p (idx / 8)
    (if bit then p (idx / 8) ||| (1 <<< UInt8.ofNat (idx % 8))
    else p (idx / 8) &&& ~~~(1 <<< UInt8.ofNat (idx % 8)))

def copyBits (src : Octets) (fromIdx : ℕ) (dst : Octets) (toIdx : ℕ) :
    (numBits : ℕ) → (duplicateLastBit : Bool) → Octets
  | 0, duplicateLastBit =>
      if duplicateLastBit then setBit dst toIdx (getBit src (fromIdx - 1)) else dst
  | n + 1, duplicateLastBit =>
      copyBits src (fromIdx + 1) (setBit dst toIdx (getBit src fromIdx)) (toIdx + 1) n
        duplicateLastBit

theorem getBit_eq (p : Octets) (idx : ℕ) : getBit p idx = p.bit idx :=
  Octet.and_mask_ne_zero _ (Nat.mod_lt _ (by decide))

theorem bit_setBit (p : Octets) (idx : ℕ) (bit : Bool) (k : ℕ) :
    (setBit p idx bit).bit k = if k = idx then bit else p.bit k := by
  have hmod : idx % 8 < 8 := Nat.mod_lt _ (by decide)
  have hk : k % 8 < 8 := Nat.mod_lt _ (by decide)
  unfold Octets.bit setBit
  by_cases hdiv : k / 8 = idx / 8
  · rw [hdiv, Function.update_self]
    have hiff : k % 8 = idx % 8 ↔ k = idx := by omega
    cases bit with
    | true =>
        rw [if_pos rfl, Octet.bit_or, Octet.bit_mask hmod hk]
        by_cases hki : k = idx <;> simp [hiff, hki]
    | false =>
        rw [if_neg Bool.false_ne_true, Octet.bit_and, Octet.bit_not _ hk, Octet.bit_mask hmod hk]
        by_cases hki : k = idx <;> simp [hiff, hki]
  · have hne : k ≠ idx := fun h => hdiv (by rw [h])
    rw [Function.update_of_ne hdiv, if_neg hne]

theorem bit_copyBits (src : Octets) (fromIdx : ℕ) (dst : Octets) (toIdx n k : ℕ) :
    (copyBits src fromIdx dst toIdx n false).bit k =
      if toIdx ≤ k ∧ k < toIdx + n then src.bit (fromIdx + (k - toIdx)) else dst.bit k := by
  induction n generalizing fromIdx dst toIdx with
  | zero =>
      have hnot : ¬ (toIdx ≤ k ∧ k < toIdx + 0) := by omega
      rw [if_neg hnot]
      rfl
  | succ n ih =>
      rw [copyBits, ih, bit_setBit, getBit_eq]
      by_cases hk : k = toIdx
      · subst hk
        simp
      · by_cases hin : toIdx + 1 ≤ k ∧ k < toIdx + 1 + n
        · rw [if_pos hin, if_pos (by omega)]
          congr 1
          omega
        · rw [if_neg hin, if_neg hk, if_neg (by omega)]

theorem bit_copyBits_duplicate (src : Octets) (fromIdx : ℕ) (dst : Octets) (toIdx n k : ℕ) :
    (copyBits src fromIdx dst toIdx n true).bit k =
      if k = toIdx + n then src.bit (fromIdx + n - 1)
      else (copyBits src fromIdx dst toIdx n false).bit k := by
  induction n generalizing fromIdx dst toIdx with
  | zero => simp [copyBits, bit_setBit, getBit_eq]
  | succ n ih =>
      rw [copyBits, ih, copyBits, show toIdx + 1 + n = toIdx + (n + 1) by omega,
        show fromIdx + 1 + n - 1 = fromIdx + (n + 1) - 1 by omega]

end TinyXvc
