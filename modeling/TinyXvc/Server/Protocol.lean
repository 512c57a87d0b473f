import Mathlib.Data.Nat.Digits.Defs
import TinyXvc.Lib.CommandStream
import TinyXvc.Lib.LittleEndian
import TinyXvc.Server.Connection

/-!
# The protocol

A reference parser for the stream of a client, read command by command: what the
connection has to say and to ask of the driver, however the bytes arrive.  Its words
and its numbers are written out here, apart from those of the code.
-/

namespace TinyXvc.Server

/-! ## Texts -/

/-- `getinfo:` -/
def getinfoWord : List UInt8 := [0x67, 0x65, 0x74, 0x69, 0x6e, 0x66, 0x6f, 0x3a]

/-- `settck:` -/
def settckWord : List UInt8 := [0x73, 0x65, 0x74, 0x74, 0x63, 0x6b, 0x3a]

/-- `shift:` -/
def shiftWord : List UInt8 := [0x73, 0x68, 0x69, 0x66, 0x74, 0x3a]

/-- `xvcServer_v1.0:` -/
def infoHeader : List UInt8 :=
  [0x78, 0x76, 0x63, 0x53, 0x65, 0x72, 0x76, 0x65, 0x72, 0x5f, 0x76, 0x31, 0x2e, 0x30, 0x3a]

/-- A number in decimal, the greatest power of ten first. -/
def digits (n : ℕ) : List UInt8 := (Nat.digits 10 n).reverse.map fun d => UInt8.ofNat (0x30 + d)

/-- The answer to `getinfo:`. -/
def infoLine (maxVectorBits : ℕ) : List UInt8 := infoHeader ++ digits maxVectorBits ++ [0x0a]

/-! ## Commands -/

/-- A complete command. -/
inductive Command where
  | getinfo
  | settck (tckPeriodNs : ℕ)
  | shift (numBits : ℕ) (tms tdi : List UInt8)
  deriving DecidableEq, Repr

/-- The first four octets as an `int`, and what follows. -/
def readInt (s : List UInt8) : Option (ℤ × List UInt8) :=
  if 4 ≤ s.length then
    some ((LittleEndian.value (s.take 4) : ℤ).bmod (2 ^ 32), s.drop 4)
  else none

def readSettck (s : List UInt8) : Option (Command × List UInt8) :=
  (readInt s).bind fun (period, rest) =>
    if 0 ≤ period then some (.settck period.toNat, rest) else none

/-- `⌈numBits / 8⌉`. -/
def vectorOctets (numBits : ℕ) : ℕ := (numBits + 7) / 8

def readShift (s : List UInt8) : Option (Command × List UInt8) :=
  (readInt s).bind fun (n, rest) =>
    let size := vectorOctets n.toNat
    if 0 < n ∧ 2 * size ≤ rest.length then
      some (.shift n.toNat (rest.take size) ((rest.drop size).take size), rest.drop (2 * size))
    else none

/-- The command that the stream begins with. -/
def nextCommand (s : List UInt8) : Option (Command × List UInt8) :=
  if getinfoWord <+: s then some (.getinfo, s.drop 8)
  else if settckWord <+: s then readSettck (s.drop 7)
  else if shiftWord <+: s then readShift (s.drop 6)
  else none

variable {δ : Type} (D : Driver δ) (heap : ℕ → Octets)

/-- What a command asks of the driver and what it is answered; the connection stops
when the driver fails. -/
def serve (b : Backend δ) : Command → List Event × Option (Backend δ)
  | .getinfo =>
      let (maxVectorBits, driver) := D.maxVectorBits b.driver
      if 0 < maxVectorBits then
        ([.maxVectorBits, .response (infoLine maxVectorBits.toNat)],
          some { b with driver := driver })
      else ([.maxVectorBits], none)
  | .settck period =>
      let (tckPeriod, driver) := D.setTckPeriod period b.driver
      if 0 < tckPeriod then
        ([.setTckPeriod period, .response (LittleEndian.octets tckPeriod.toNat)],
          some { b with driver := driver })
      else ([.setTckPeriod period], none)
  | .shift numBits tms tdi =>
      let size := vectorOctets numBits
      let b := if b.vectorNumBytes < size then allocateVectors heap size b else b
      let (ok, tdo, driver) := D.shiftBits numBits tms tdi b.tdoVector b.driver
      if ok then
        ([.shiftBits numBits tms tdi, .response ((List.range size).map tdo)],
          some { b with driver := driver, tdoVector := tdo })
      else ([.shiftBits numBits tms tdi], none)

theorem readInt_lt {s rest : List UInt8} {n : ℤ} (h : readInt s = some (n, rest)) :
    rest.length < s.length := by
  unfold readInt at h
  split at h
  · obtain ⟨-, rfl⟩ := Prod.mk.inj (Option.some.inj h)
    rw [List.length_drop]
    omega
  · cases h

theorem readSettck_lt {s rest : List UInt8} {c : Command} (h : readSettck s = some (c, rest)) :
    rest.length < s.length := by
  obtain ⟨⟨period, rest'⟩, hint, hcommand⟩ := Option.bind_eq_some_iff.mp h
  dsimp only at hcommand
  split at hcommand
  · cases hcommand
    exact readInt_lt hint
  · cases hcommand

theorem readShift_lt {s rest : List UInt8} {c : Command} (h : readShift s = some (c, rest)) :
    rest.length < s.length := by
  obtain ⟨⟨n, rest'⟩, hint, hcommand⟩ := Option.bind_eq_some_iff.mp h
  dsimp only at hcommand
  split at hcommand
  · cases hcommand
    have hlt := readInt_lt hint
    rw [List.length_drop]
    omega
  · cases hcommand

theorem nextCommand_lt (s : List UInt8) (c : Command) (rest : List UInt8)
    (h : nextCommand s = some (c, rest)) : rest.length < s.length := by
  unfold nextCommand at h
  split at h
  · rename_i hword
    have hle : 8 ≤ s.length := hword.length_le
    cases h
    rw [List.length_drop]
    omega
  · split at h
    · exact (readSettck_lt h).trans_le (List.drop_sublist ..).length_le
    · split at h
      · exact (readShift_lt h).trans_le (List.drop_sublist ..).length_le
      · cases h

/-- The protocol as a service over the stream of the client. -/
def xvc : CommandStream UInt8 Command Event (Backend δ) where
  next := nextCommand
  next_lt := nextCommand_lt
  serve := serve D heap

/-- These bytes begin no command that is complete, but the dispatcher can not tell
that they do not begin one. -/
def Undecided (s : List UInt8) : Prop :=
  s ≠ [] ∧ s.length < 8 ∧ ¬Cmd.settck.word <+: s ∧ ¬Cmd.shift.word <+: s

instance (s : List UInt8) : Decidable (Undecided s) :=
  inferInstanceAs (Decidable (_ ∧ _ ∧ _ ∧ _))

/-! ## The texts of the code -/

theorem word_getinfo : Cmd.getinfo.word = getinfoWord := by decide

theorem word_settck : Cmd.settck.word = settckWord := by decide

theorem word_shift : Cmd.shift.word = shiftWord := by decide

theorem nextCommand_eq (s : List UInt8) :
    nextCommand s =
      if Cmd.getinfo.word <+: s then some (.getinfo, s.drop 8)
      else if Cmd.settck.word <+: s then readSettck (s.drop 7)
      else if Cmd.shift.word <+: s then readShift (s.drop 6)
      else none := by
  rw [word_getinfo, word_settck, word_shift, nextCommand]

theorem nextCommand_of_undecided {s : List UInt8} (h : Undecided s) : nextCommand s = none := by
  obtain ⟨-, hlen, hsettck, hshift⟩ := h
  have hgetinfo : ¬Cmd.getinfo.word <+: s := fun hword => absurd hword.length_le (not_le.mpr hlen)
  rw [nextCommand_eq, if_neg hgetinfo, if_neg hsettck, if_neg hshift]

theorem digits_eq {n : ℕ} (hn : 0 < n) :
    digits n = digits (n / 10) ++ [UInt8.ofNat (0x30 + n % 10)] := by
  unfold digits
  rw [Nat.digits_def' (by decide) hn, List.reverse_cons, List.map_append, List.map_singleton]

theorem octet_digitChar : ∀ d < 10, UInt8.ofNat d.digitChar.toNat = UInt8.ofNat (0x30 + d) := by
  decide

/-- `%d` writes the digits of a positive number. -/
theorem octets_decimal {n : ℕ} (hn : 0 < n) : octets (decimal n) = digits n := by
  rw [decimal, Int.toNat_natCast]
  induction n using Nat.strong_induction_on with
  | _ n ih =>
      rw [Nat.toDigits_eq_if (by decide), digits_eq hn]
      split
      · rename_i hlt
        rw [Nat.div_eq_of_lt hlt, Nat.mod_eq_of_lt hlt, ← octet_digitChar n hlt]
        rfl
      · have hlast := octet_digitChar (n % 10) (Nat.mod_lt n (by decide))
        rw [← ih (n / 10) (by omega) (by omega), ← hlast]
        exact List.map_append

theorem octets_infoLine {n : ℤ} (hn : 0 < n) :
    octets ("xvcServer_v1.0:".toList ++ decimal n ++ ['\n']) = infoLine n.toNat := by
  have hdigits := octets_decimal (n := n.toNat) (by omega)
  rw [Int.toNat_of_nonneg hn.le] at hdigits
  have hheader : octets "xvcServer_v1.0:".toList = infoHeader := by decide
  rw [infoLine, ← hdigits, ← hheader]
  simp only [octets, List.map_append]
  rfl

end TinyXvc.Server
