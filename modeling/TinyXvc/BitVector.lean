import TinyXvc.Defs

/-!
# Bit vectors

`bit_vector.c`.  Indices are `int`s, and never negative where an octet is read.
The two formatters are one pair of nested loops that runs up or down.  The
outer loop need not come to an end, so it gets fuel.
-/

namespace TinyXvc

namespace BitVector

/-- `p[idx / 8]` and `1 << (idx % 8)`. -/
def octetAt (p : Octets) (idx : ℤ) : UInt8 := p (idx.tdiv 8).toNat

def maskAt (idx : ℤ) : UInt8 := 1 <<< UInt8.ofNat (idx.tmod 8).toNat

def getBit (p : Octets) (idx : ℤ) : Bool := octetAt p idx &&& maskAt idx != 0

/-- The loop of `txvc_bit_vector_equal`. -/
def bitsEqual (lhs : Octets) (lhsStart lhsEnd : ℤ) (rhs : Octets) (rhsStart : ℤ) : Bool :=
  if lhsStart < lhsEnd then
    if getBit lhs lhsStart ≠ getBit rhs rhsStart then false
    else bitsEqual lhs (lhsStart + 1) lhsEnd rhs (rhsStart + 1)
  else true
termination_by (lhsEnd - lhsStart).toNat

end BitVector

open BitVector

def txvcBitVectorEqual (lhs : Octets) (lhsStart lhsEnd : ℤ) (rhs : Octets) (rhsStart rhsEnd : ℤ) :
    Bool :=
  if lhsEnd - lhsStart ≠ rhsEnd - rhsStart then false
  else bitsEqual lhs lhsStart lhsEnd rhs rhsStart

namespace BitVector

/-- The variables of a formatter.  The buffer is what `out` can reach, and `p`
is an index into it. -/
structure FormatState where
  out : ℕ → Char
  p : ℕ
  avail : ℤ
  idx : ℤ

/-- The direction of a formatter: the condition of the outer loop, the second
half of that of the inner one, and the step of `idx`. -/
structure FormatDir where
  inRange : ℤ → Bool
  sameOctet : ℤ → Bool
  next : ℤ → ℤ

/-- The inner loop, over the bits of one octet. -/
def formatOctet (dir : FormatDir) (octet : UInt8) (s : FormatState) : FormatState :=
  if s.avail ≤ 1 then s
  else
    let t : FormatState :=
      { out := Function.update s.out s.p (if octet &&& maskAt s.idx != 0 then '1' else '0')
        p := s.p + 1
        avail := s.avail - 1
        idx := dir.next s.idx }
    if dir.inRange t.idx && dir.sameOctet t.idx then formatOctet dir octet t else t
termination_by s.avail.toNat

def formatOctets (dir : FormatDir) (vector : Octets) : ℕ → FormatState → Option FormatState
  | 0, _ => none
  | fuel + 1, s =>
      if dir.inRange s.idx then
        formatOctets dir vector fuel (formatOctet dir (octetAt vector s.idx) s)
      else some s

/-- The terminator behind the loops. -/
def FormatState.terminated (s : FormatState) (outSz : ℕ) : ℕ → Char :=
  if s.avail ≤ 0 then Function.update s.out (outSz - 1) '\x00'
  else Function.update s.out s.p '\x00'

end BitVector

/-- The buffer and the result of a formatter, once it is done. -/
def txvcBitVectorFormatLsb (fuel : ℕ) (out : ℕ → Char) (outSz : ℕ) (vector : Octets)
    (start «end» : ℤ) : Option ((ℕ → Char) × ℤ) := do
  let s ← formatOctets
    { inRange := fun idx => idx < «end», sameOctet := fun idx => idx.tmod 8 ≠ 0, next := (· + 1) }
    vector fuel { out := out, p := 0, avail := outSz, idx := start }
  pure (s.terminated outSz, «end» - start)

def txvcBitVectorFormatMsb (fuel : ℕ) (out : ℕ → Char) (outSz : ℕ) (vector : Octets)
    (start «end» : ℤ) : Option ((ℕ → Char) × ℤ) := do
  let s ← formatOctets
    { inRange := fun idx => idx ≥ start, sameOctet := fun idx => idx.tmod 8 ≠ 7, next := (· - 1) }
    vector fuel { out := out, p := 0, avail := outSz, idx := «end» - 1 }
  pure (s.terminated outSz, «end» - start)

end TinyXvc
