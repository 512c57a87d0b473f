import TinyXvc.FtdiGeneric.Bits
import TinyXvc.JtagSplitter

/-!
# The sample player

`player.c`: reads raw samples of a logic analyzer from a file, and hands the
TMS, TDI and TDO bits of the rising TCK edges to the splitter.  The state of
the programs below records the calls of `txvc_jtag_splitter_process`.  A store
outside an array ends the run.
-/

namespace TinyXvc.Player

def tckBitPos : ℕ := 3

def tmsBitPos : ℕ := 0

def tdiBitPos : ℕ := 1

def tdoBitPos : ℕ := 2

/-- What one call of `txvc_jtag_splitter_process` is given. -/
structure Passed where
  numBits : ℕ
  tms : Octets
  tdi : Octets
  tdo : Octets

/-- `rawSample & (1 << pos)`. -/
def sampleBit (rawSample : UInt8) (pos : ℕ) : Bool :=
  rawSample &&& (1 <<< UInt8.ofNat pos) != 0

theorem sampleBit_eq_testBit (rawSample : UInt8) {pos : ℕ} (hpos : pos < 8) :
    sampleBit rawSample pos = rawSample.toNat.testBit pos :=
  Octet.and_mask_ne_zero rawSample hpos

end TinyXvc.Player
