import TinyXvc.JtagSplitter.Ranges
import TinyXvc.Lib.Sampling
import TinyXvc.Player

/-!
# What the player passes on

Abstractly the player finds the rising edges of TCK, and cuts the samples it
finds there into batches.  Its arrays hold the bits of the batch that is being
collected, and each call passes the bits of a whole one.
-/

namespace TinyXvc.Player

open Sampling

/-- The vectors have the bits of these samples. -/
structure Carries (p : Passed) (items : List UInt8) : Prop where
  numBits : p.numBits = items.length
  tms : p.tms.bits 0 p.numBits = items.map (sampleBit · tmsBitPos)
  tdi : p.tdi.bits 0 p.numBits = items.map (sampleBit · tdiBitPos)
  tdo : p.tdo.bits 0 p.numBits = items.map (sampleBit · tdoBitPos)

theorem bits_setBit (p : Octets) (n : ℕ) (b : Bool) :
    (setBit p n b).bits 0 (n + 1) = p.bits 0 n ++ [b] := by
  rw [Octets.bits_add]
  congr 1
  · apply List.map_congr_left
    intro i hi
    rw [bit_setBit, if_neg]
    have hlt := List.mem_range.mp hi
    omega
  · simp [Octets.bits, bit_setBit]

theorem Carries.nil (tms tdi tdo : Octets) : Carries ⟨0, tms, tdi, tdo⟩ [] := ⟨rfl, rfl, rfl, rfl⟩

theorem Carries.concat {n : ℕ} {tms tdi tdo : Octets} {items : List UInt8}
    (h : Carries ⟨n, tms, tdi, tdo⟩ items) (x : UInt8) :
    Carries ⟨n + 1, setBit tms n (sampleBit x tmsBitPos), setBit tdi n (sampleBit x tdiBitPos),
      setBit tdo n (sampleBit x tdoBitPos)⟩ (items ++ [x]) where
  numBits := by
    rw [List.length_append]
    exact congrArg (· + 1) h.numBits
  tms := by
    rw [List.map_append, ← h.tms]
    exact bits_setBit tms n _
  tdi := by
    rw [List.map_append, ← h.tdi]
    exact bits_setBit tdi n _
  tdo := by
    rw [List.map_append, ← h.tdo]
    exact bits_setBit tdo n _

/-! ## The steps -/

/-- The samples at which TCK is high and was low before. -/
def clocks (bytes : List UInt8) : List UInt8 := rising (sampleBit · tckBitPos) true bytes

example : clocks [0x09, 0x00, 0x0b, 0x08, 0x04, 0x0c] = [0x0b, 0x0c] := by decide

end TinyXvc.Player
