import TinyXvc.FtdiGeneric.Buffer

/-!
# The FTDI driver

The part of `ftdi_generic.c` above the command buffer: from the moment that
`activate` has opened the device and put it into MPSSE mode.
-/

namespace TinyXvc

def opBadCommands : UInt8 := 0xfa
def opShiftWrFallingFlag : UInt8 := (1 : UInt8) <<< 0
def opShiftBitmodeFlag : UInt8 := (1 : UInt8) <<< 1
def opShiftLsbFirstFlag : UInt8 := (1 : UInt8) <<< 3
def opShiftWrTdiFlag : UInt8 := (1 : UInt8) <<< 4
def opShiftRdTdoFlag : UInt8 := (1 : UInt8) <<< 5
def opShiftWrTmsFlag : UInt8 := (1 : UInt8) <<< 6
def opSetDbusLobyte : UInt8 := 0x80
def opSetTckDivisor : UInt8 := 0x86
def opDisableClkDivideBy5 : UInt8 := 0x8a

/-- Conversion of a `bool` to `unsigned char`. -/
def ofBool (b : Bool) : UInt8 := if b then 1 else 0

/-- What `append_tms_shift_to_transaction` sends for `bitsToTransfer` TMS bits. -/
def tmsShiftCmd (tms : Octets) (lastTdi : Bool) (fromBitIdx bitsToTransfer : ℕ) : List UInt8 :=
  let cmd : Octets := fun _ => ofBool lastTdi <<< 7
  [opShiftWrTmsFlag ||| opShiftLsbFirstFlag ||| opShiftBitmodeFlag ||| opShiftWrFallingFlag,
    UInt8.ofNat (bitsToTransfer - 1),
    copyBits tms fromBitIdx cmd 0 bitsToTransfer true 0]

/-- A bit-mode read of up to seven TDI bits. -/
def tdiBitsCmd (numBits : ℕ) (bits : UInt8) : List UInt8 :=
  [opShiftRdTdoFlag ||| opShiftWrTdiFlag ||| opShiftLsbFirstFlag ||| opShiftBitmodeFlag
      ||| opShiftWrFallingFlag,
    UInt8.ofNat (numBits - 1),
    bits]

/-- The header of a byte-mode read; its payload is queued after it. -/
def tdiOctetsCmd (numOctets : ℕ) : List UInt8 :=
  [opShiftRdTdoFlag ||| opShiftWrTdiFlag ||| opShiftLsbFirstFlag ||| opShiftWrFallingFlag,
    UInt8.ofNat (numOctets - 1),
    UInt8.ofNat ((numOctets - 1) >>> 8)]

/-- The last bit of a TDI shift, sent as a TMS command of one bit. -/
def lastBitCmd (lastTdiBit lastTmsBit : Bool) : List UInt8 :=
  [opShiftWrTmsFlag ||| opShiftRdTdoFlag ||| opShiftLsbFirstFlag ||| opShiftBitmodeFlag
      ||| opShiftWrFallingFlag,
    0x00,
    ofBool lastTdiBit <<< 7 ||| ofBool lastTmsBit <<< 1 ||| ofBool lastTmsBit]

/-- The constants of `append_tdi_shift_to_transaction`. -/
structure TdiSplit where
  lastBitIdx : ℕ
  numLeadingBits : ℕ
  innerBeginIdx : ℤ
  innerEndIdx : ℤ
  numTrailingBits : ℕ
  deriving DecidableEq, Repr

def tdiSplit (fromBitIdx toBitIdx : ℕ) : TdiSplit :=
  let lastBitIdx := toBitIdx - 1
  let numRegularBits := lastBitIdx - fromBitIdx
  let numFirstOctetBits := 8 - fromBitIdx % 8
  let numLeadingBits := min (if numFirstOctetBits = 8 then 0 else numFirstOctetBits) numRegularBits
  let leadingOnly := numLeadingBits == numRegularBits
  { lastBitIdx := lastBitIdx
    numLeadingBits := numLeadingBits
    innerBeginIdx := if leadingOnly then -1 else fromBitIdx + numLeadingBits
    innerEndIdx := if leadingOnly then -1 else lastBitIdx - lastBitIdx % 8
    numTrailingBits := if leadingOnly then 0 else lastBitIdx % 8 }

/-- The arguments of `append_tdi_shift_to_transaction`. -/
structure TdiShift where
  tdi : Octets
  tdo : Ptr
  fromBitIdx : ℕ
  toBitIdx : ℕ
  lastTmsBitHigh : Bool

def TdiShift.split (t : TdiShift) : TdiSplit := tdiSplit t.fromBitIdx t.toBitIdx

inductive PinRole where
  | otherDriverLow
  | otherDriverHigh
  | otherIgnored
  deriving DecidableEq, Repr

/-- `setupCmds` of `activate`; D4 to D7 are the user's choice. -/
def setupCmds (dPins : ℕ → PinRole) : List UInt8 :=
  let (levels, directions) := [4, 5, 6, 7].foldl (fun (levels, directions) i =>
    match dPins i with
    | .otherDriverHigh => (levels ||| 1 <<< UInt8.ofNat i, directions ||| 1 <<< UInt8.ofNat i)
    | .otherDriverLow => (levels, directions ||| 1 <<< UInt8.ofNat i)
    | .otherIgnored => (levels, directions)) ((0x08 : UInt8), (0x0b : UInt8))
  [opSetDbusLobyte, levels, directions]

inductive FtDevice where
  | ft2232h
  | ft232h
  deriving DecidableEq, Repr

def FtDevice.chipBufferBytes : FtDevice → ℕ
  | .ft2232h => 4096
  | .ft232h => 1024

/-- The configuration that `activate` works with, and the addresses that
`malloc` returns for its two pools, aligned for every type. -/
structure FtParams where
  device : FtDevice
  dPins : ℕ → PinRole
  poolAddr : ℕ
  cmdPoolAddr : ℕ
  poolAligned : alignofRecord ∣ poolAddr
  cmdPoolAligned : alignofRecord ∣ cmdPoolAddr

variable {τ : Type} (io : D2xx τ)

def checkDeviceInSync : Prog τ Bool := do
  let cmd : UInt8 := 0xab
  let resp : Ptr := ⟨.resp, 0⟩
  if ← ftBufferAddWriteToChipWithReadbackSimple io [cmd] resp 2 then
    if ← ftBufferFlush io then
      let s ← get
      pure (s.mem.view resp 0 == opBadCommands && s.mem.view resp 1 == cmd)
    else pure false
  else pure false

def appendTmsShiftLoop (tms : Octets) (fromBitIdx toBitIdx : ℕ) : Prog τ Bool :=
  if fromBitIdx < toBitIdx then do
    let maxTmsBitsPerCommand := 6
    let bitsToTransfer := min (toBitIdx - fromBitIdx) maxTmsBitsPerCommand
    let s ← get
    if ← ftBufferAddWriteToChip io (tmsShiftCmd tms s.gFtdi.lastTdi fromBitIdx bitsToTransfer) then
      appendTmsShiftLoop tms (fromBitIdx + bitsToTransfer) toBitIdx
    else pure false
  else pure true
termination_by toBitIdx - fromBitIdx

def appendTmsShiftToTransaction (tms : Octets) (fromBitIdx toBitIdx : ℕ) : Prog τ Bool := do
  alwaysAssert (decide (toBitIdx > fromBitIdx)) "toBitIdx > fromBitIdx"
  appendTmsShiftLoop io tms fromBitIdx toBitIdx

/-- A command with one reply octet, of which `e` says what bits go where.  The
record for `e` is allocated first, whether the command can be queued or not. -/
def addBitRead (cmd : List UInt8) (e : BitCopierRxObserverExtra) : Prog τ Bool := do
  let addr ← deref (← allocDriver fun pool =>
    txvcMempoolAllocAligned pool sizeofBitCopierExtra alignofRecord)
  modify fun s => { s with bitExtras := Function.update s.bitExtras addr e }
  ftBufferAddWriteToChipWithReadback io cmd (some (.bitCopier, addr)) 1

/-- The phases of one round of the loop; each returns the new `curIdx`, or
`none` on `return false`. -/
def appendTdiLeading (t : TdiShift) (curIdx : ℕ) : Prog τ (Option ℕ) :=
  let n := t.split.numLeadingBits
  if curIdx = t.fromBitIdx ∧ n > 0 then do
    if ← addBitRead io (tdiBitsCmd n (t.tdi (t.fromBitIdx / 8) >>> UInt8.ofNat (t.fromBitIdx % 8)))
        ⟨8 - n, t.tdo, t.fromBitIdx, n⟩ then
      pure (some (curIdx + n))
    else pure none
  else pure (some curIdx)

def appendTdiInner (t : TdiShift) (curIdx : ℕ) : Prog τ (Option ℕ) :=
  if curIdx < t.split.innerEndIdx then do
    alwaysAssert (t.split.innerBeginIdx % 8 == 0) "innerBeginIdx % 8 == 0"
    alwaysAssert (t.split.innerEndIdx % 8 == 0) "innerEndIdx % 8 == 0"
    alwaysAssert (curIdx % 8 == 0) "curIdx % 8 == 0"
    let s ← get
    let innerOctetsToSend :=
      min ((t.split.innerEndIdx - curIdx) / 8).toNat s.gFtdi.chipBufferBytes
    if ← ftBufferAddWriteToChip io (tdiOctetsCmd innerOctetsToSend) then
      let payload := (List.range innerOctetsToSend).map fun i => t.tdi (curIdx / 8 + i)
      if ← ftBufferAddWriteToChipWithReadbackSimple io payload (t.tdo.add (curIdx / 8))
          innerOctetsToSend then
        pure (some (curIdx + innerOctetsToSend * 8))
      else pure none
    else pure none
  else pure (some curIdx)

def appendTdiTrailing (t : TdiShift) (curIdx : ℕ) : Prog τ (Option ℕ) :=
  let n := t.split.numTrailingBits
  if curIdx = t.split.innerEndIdx ∧ n > 0 then do
    let innerEndIdx := t.split.innerEndIdx.toNat
    if ← addBitRead io (tdiBitsCmd n (t.tdi (innerEndIdx / 8))) ⟨8 - n, t.tdo, innerEndIdx, n⟩ then
      pure (some (curIdx + n))
    else pure none
  else pure (some curIdx)

def appendTdiLast (t : TdiShift) (curIdx : ℕ) : Prog τ (Option ℕ) :=
  let lastBitIdx := t.split.lastBitIdx
  if curIdx = lastBitIdx then do
    let lastTdiBit := getBit t.tdi lastBitIdx
    -- TDO is shifted in from the right side
    if ← addBitRead io (lastBitCmd lastTdiBit t.lastTmsBitHigh) ⟨7, t.tdo, lastBitIdx, 1⟩ then
      modify fun s => { s with gFtdi := { s.gFtdi with lastTdi := lastTdiBit } }
      pure (some (curIdx + 1))
    else pure none
  else pure (some curIdx)

/-- The part of a round after the leading bits. -/
def appendTdiRest (t : TdiShift) (curIdx : ℕ) : Prog τ (Option ℕ) := do
  let regular : Prog τ (Option ℕ) :=
    if curIdx < t.split.lastBitIdx then do
      match ← appendTdiInner io t curIdx with
      | none => pure none
      | some curIdx => appendTdiTrailing io t curIdx
    else pure (some curIdx)
  match ← regular with
  | none => pure none
  | some curIdx => appendTdiLast io t curIdx

/-- One round of the loop. -/
def appendTdiRound (t : TdiShift) (curIdx : ℕ) : Prog τ (Option ℕ) := do
  match ← appendTdiLeading io t curIdx with
  | none => pure none
  | some curIdx => appendTdiRest io t curIdx

/-- The loop, for at most `fuel` rounds. -/
def appendTdiLoop (t : TdiShift) (fuel curIdx : ℕ) : Prog τ Bool :=
  if curIdx < t.toBitIdx then
    match fuel with
    | 0 => Exec.abort .endless
    | fuel + 1 => do
        match ← appendTdiRound io t curIdx with
        | none => pure false
        | some curIdx => appendTdiLoop t fuel curIdx
  else pure true

def appendTdiShiftToTransaction (t : TdiShift) : Prog τ Bool := do
  alwaysAssert (decide (t.toBitIdx > t.fromBitIdx)) "toBitIdx > fromBitIdx"
  appendTdiLoop io t (t.toBitIdx - t.fromBitIdx) t.fromBitIdx

def jtagSplitterCallback : JtagSplitterCallback (Sys τ)
  | .shiftTms tms fromBitIdx toBitIdx => appendTmsShiftToTransaction io tms fromBitIdx toBitIdx
  | .shiftTdi tdi tdo fromBitIdx toBitIdx incomplete =>
      appendTdiShiftToTransaction io ⟨tdi, tdo, fromBitIdx, toBitIdx, !incomplete⟩
  | .flushAll => do
      let res ← ftBufferFlush io
      modify fun s =>
        { s with gFtdi := { s.gFtdi with pool := txvcMempoolReclaimAll s.gFtdi.pool } }
      pure res

/-- The state of the driver when `activate` starts to talk to the chip. -/
def activateDriver (p : FtParams) (d : Driver) : Driver :=
  { d with
    chipBufferBytes := p.device.chipBufferBytes
    highSpeedCapable := true
    pool := txvcMempoolInit p.poolAddr (64 * 1024)
    cmdBuffer := ftBufferInit p.cmdPoolAddr p.device.chipBufferBytes
    lastTdi := false }

/-- `activate` from the first `txvc_mempool_init` on. -/
def activate (p : FtParams) : Prog τ Bool := do
  modify fun s => { s with gFtdi := activateDriver p s.gFtdi }
  if ← ftBufferAddWriteToChip io (setupCmds p.dPins) <&&> checkDeviceInSync io then
    let s ← get
    let (ok, splitter) ← txvcJtagSplitterInit (jtagSplitterCallback io) s.gFtdi.jtagSplitter
    modify fun s => { s with gFtdi := { s.gFtdi with jtagSplitter := splitter } }
    pure ok
  else pure false

def maxVectorBits (d : Driver) : ℕ := d.chipBufferBytes * 8

/-- Checks an `int` result of either sign. -/
def checkSignedInt {σ : Type} (n : ℤ) : Exec Abort σ Unit :=
  if -2 ^ 31 ≤ n ∧ n < 2 ^ 31 then pure () else Exec.abort .signedOverflow

/-- The divider for a period: the nearest greater period if there is no exact
match. -/
def tckDivider (maxFreqMHz tckPeriodNs : ℤ) : ℤ :=
  (maxFreqMHz * tckPeriodNs).tdiv 1000
    - (if (maxFreqMHz * tckPeriodNs).tmod 1000 = 0 then 1 else 0)

def tckDivisorCmd (divider : ℕ) (highSpeedCapable : Bool) : List UInt8 :=
  [opSetTckDivisor, UInt8.ofNat divider, UInt8.ofNat (divider >>> 8), opDisableClkDivideBy5].take
    (if highSpeedCapable then 4 else 3)

def maxFreqMHz (highSpeedCapable : Bool) : ℤ := if highSpeedCapable then 30 else 6

/-- The arithmetic of `set_tck_period`: the divider and the actual period. -/
def tckSetting {σ : Type} (maxFreqMHz tckPeriodNs : ℤ) : Exec Abort σ (ℤ × ℤ) := do
  checkSignedInt (maxFreqMHz * tckPeriodNs)
  let divider := tckDivider maxFreqMHz tckPeriodNs
  checkSignedInt divider
  if divider < 0 then Exec.abort .unreachable
  else
    let divider := if divider > 0xffff then 0xffff else divider
    checkSignedInt ((1 + divider) * 1000)
    pure (divider, ((1 + divider) * 1000).tdiv maxFreqMHz)

def setTckPeriod (tckPeriodNs : ℤ) : Prog τ ℤ := do
  let s ← get
  let highSpeedCapable := s.gFtdi.highSpeedCapable
  let setting ← tckSetting (maxFreqMHz highSpeedCapable) tckPeriodNs
  if ← ftBufferAddWriteToChip io (tckDivisorCmd setting.1.toNat highSpeedCapable)
      <&&> checkDeviceInSync io then
    pure setting.2
  else pure (-1)

def shiftBits (r : SplitRequest) : Prog τ Bool := do
  let s ← get
  let (ok, splitter) ←
    txvcJtagSplitterProcess (jtagSplitterCallback io) s.gFtdi.jtagSplitter r
  modify fun s => { s with gFtdi := { s.gFtdi with jtagSplitter := splitter } }
  pure ok

end TinyXvc
