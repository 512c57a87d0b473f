import TinyXvc.Defs

/-!
# The JTAG splitter

`jtag_splitter.c`: decodes a combined TMS/TDI vector into events for a driver
that can not shift both at once.  The callback is a program over its own
state, so it may accept or reject an event as it likes.
-/

namespace TinyXvc

inductive JtagState where
  | testLogicReset
  | runTestIdle
  | selectDrScan
  | captureDr
  | shiftDr
  | exit1Dr
  | pauseDr
  | exit2Dr
  | updateDr
  | selectIrScan
  | captureIr
  | shiftIr
  | exit1Ir
  | pauseIr
  | exit2Ir
  | updateIr
  deriving DecidableEq, Repr

def nextState (curState : JtagState) (tmsHigh : Bool) : JtagState :=
  match curState with
  | .testLogicReset => if tmsHigh then .testLogicReset else .runTestIdle
  | .runTestIdle => if tmsHigh then .selectDrScan else .runTestIdle
  | .selectDrScan => if tmsHigh then .selectIrScan else .captureDr
  | .captureDr => if tmsHigh then .exit1Dr else .shiftDr
  | .shiftDr => if tmsHigh then .exit1Dr else .shiftDr
  | .exit1Dr => if tmsHigh then .updateDr else .pauseDr
  | .pauseDr => if tmsHigh then .exit2Dr else .pauseDr
  | .exit2Dr => if tmsHigh then .updateDr else .shiftDr
  | .updateDr => if tmsHigh then .selectDrScan else .runTestIdle
  | .selectIrScan => if tmsHigh then .testLogicReset else .captureIr
  | .captureIr => if tmsHigh then .exit1Ir else .shiftIr
  | .shiftIr => if tmsHigh then .exit1Ir else .shiftIr
  | .exit1Ir => if tmsHigh then .updateIr else .pauseIr
  | .pauseIr => if tmsHigh then .exit2Ir else .pauseIr
  | .exit2Ir => if tmsHigh then .updateIr else .shiftIr
  | .updateIr => if tmsHigh then .selectDrScan else .runTestIdle

inductive JtagSplitEvent where
  | shiftTms (tms : Octets) (fromBitIdx toBitIdx : ℕ)
  | shiftTdi (tdi : Octets) (tdo : Ptr) (fromBitIdx toBitIdx : ℕ) (incomplete : Bool)
  | flushAll

/-- The splitter.  Its callback and the callback's argument are parameters of
the functions below. -/
structure JtagSplitter where
  state : JtagState
  deriving DecidableEq, Repr

variable {σ : Type}

/-- A callback over the state `σ`; `true` accepts the event. -/
abbrev JtagSplitterCallback (σ : Type) := JtagSplitEvent → Exec Abort σ Bool

/-- `tmsTapResetVector`. -/
def tmsTapResetVector : Octets := fun _ => 0x1f

def tapReset (cb : JtagSplitterCallback σ) : Exec Abort σ Bool :=
  cb (.shiftTms tmsTapResetVector 0 5) <&&> cb .flushAll

/-- `txvc_jtag_splitter_init`. -/
def txvcJtagSplitterInit (cb : JtagSplitterCallback σ) (splitter : JtagSplitter) :
    Exec Abort σ (Bool × JtagSplitter) := do
  if ← tapReset cb then pure (true, { splitter with state := .testLogicReset })
  else pure (false, splitter)

/-- `txvc_jtag_splitter_deinit`; the callback is dropped by the caller. -/
def txvcJtagSplitterDeinit (cb : JtagSplitterCallback σ) (splitter : JtagSplitter) :
    Exec Abort σ (Bool × JtagSplitter) := do
  if ← tapReset cb then pure (true, { splitter with state := .testLogicReset })
  else pure (false, splitter)

/-- The locals of `txvc_jtag_splitter_process` that live through its loops. -/
structure SplitLoop where
  jtagState : JtagState
  firstPendingBitIdx : ℕ
  deriving DecidableEq, Repr

/-- The arguments of `txvc_jtag_splitter_process`. -/
structure SplitRequest where
  numBits : ℕ
  tms : Octets
  tdi : Octets
  tdo : Ptr

/-- The body of the inner loop for one TMS bit; `none` is `goto bail_reset`. -/
def processBit (cb : JtagSplitterCallback σ) (r : SplitRequest) (bitIdx : ℕ) (tmsBit : Bool)
    (l : SplitLoop) : Exec Abort σ (Option SplitLoop) := do
  let nextJtagState := nextState l.jtagState tmsBit
  let isShift := l.jtagState == .shiftDr || l.jtagState == .shiftIr
  let nextIsShift := nextJtagState == .shiftDr || nextJtagState == .shiftIr
  let enteringShift := !isShift && nextIsShift
  if enteringShift then alwaysAssert (!tmsBit) "!tmsBit"
  let leavingShift := isShift && !nextIsShift
  if leavingShift then alwaysAssert tmsBit "tmsBit"
  let endOfVector := bitIdx == r.numBits - 1
  let event := endOfVector || enteringShift || leavingShift
  if event then
    let nextPendingBitIdx := bitIdx + 1
    if isShift then
      if ← cb (.shiftTdi r.tdi r.tdo l.firstPendingBitIdx nextPendingBitIdx (!leavingShift)) then
        pure (some ⟨nextJtagState, nextPendingBitIdx⟩)
      else pure none
    else
      if ← cb (.shiftTms r.tms l.firstPendingBitIdx nextPendingBitIdx) then
        pure (some ⟨nextJtagState, nextPendingBitIdx⟩)
      else pure none
  else pure (some ⟨nextJtagState, l.firstPendingBitIdx⟩)

/-- The inner loop: the bits of one octet of the TMS vector. -/
def processRound (cb : JtagSplitterCallback σ) (r : SplitRequest) (thisRoundEndBitIdx bitIdx : ℕ)
    (tmsByte : UInt8) (l : SplitLoop) : Exec Abort σ (Option SplitLoop) :=
  if bitIdx < thisRoundEndBitIdx then do
    match ← processBit cb r bitIdx (tmsByte &&& 1 != 0) l with
    | none => pure none
    | some l => processRound cb r thisRoundEndBitIdx (bitIdx + 1) (tmsByte >>> 1) l
  else pure (some l)
termination_by thisRoundEndBitIdx - bitIdx

/-- The outer loop: one round for each octet of the TMS vector. -/
def processRounds (cb : JtagSplitterCallback σ) (r : SplitRequest) (bitIdx : ℕ) (l : SplitLoop) :
    Exec Abort σ (Option SplitLoop) :=
  if bitIdx < r.numBits then do
    let tmsByte := r.tms (bitIdx / 8)
    checkInt (bitIdx + 8)
    let thisRoundEndBitIdx := if bitIdx + 8 > r.numBits then r.numBits else bitIdx + 8
    match ← processRound cb r thisRoundEndBitIdx bitIdx tmsByte l with
    | none => pure none
    | some l => processRounds cb r thisRoundEndBitIdx l
  else pure (some l)
termination_by r.numBits - bitIdx
decreasing_by split <;> omega

/-- `txvc_jtag_splitter_process` up to its `return true`: the state to store,
or `none` on the way to `bail_reset`. -/
def processVector (cb : JtagSplitterCallback σ) (splitter : JtagSplitter) (r : SplitRequest) :
    Exec Abort σ (Option JtagState) := do
  match ← processRounds cb r 0 ⟨splitter.state, 0⟩ with
  | none => pure none
  | some l => if ← cb .flushAll then pure (some l.jtagState) else pure none

/-- `txvc_jtag_splitter_process`. -/
def txvcJtagSplitterProcess (cb : JtagSplitterCallback σ) (splitter : JtagSplitter)
    (r : SplitRequest) : Exec Abort σ (Bool × JtagSplitter) := do
  match ← processVector cb splitter r with
  | some jtagState => pure (true, { splitter with state := jtagState })
  | none =>
      let _ ← tapReset cb
      pure (false, { splitter with state := .testLogicReset })

end TinyXvc
