import TinyXvc.Drivers
import TinyXvc.FtdiGeneric.DeviceList

/-!
# The handle of the device

`activate` as a whole with `deactivate`, and the D2XX calls on the handle that they
make.  Any call may fail.  `handle` is history; no function reads it.
-/

namespace TinyXvc.Lifecycle

open DeviceList

/-- The calls on the handle that prepare the chip.  The last two are
`FT_SetBitMode`. -/
inductive SetupCall where
  | purge
  | setChars
  | setFlowControl
  | setLatencyTimer (millis : ℤ)
  | resetMode
  | mpsseMode
  deriving DecidableEq, Repr

/-- The calls of D2XX on the handle, over the state `τ` of the other side. -/
structure HandleCalls (τ : Type) where
  ftOpen : OpenCall → τ → FtStatus × τ
  setup : SetupCall → τ → FtStatus × τ
  ftClose : τ → τ

/-- What has been done with the handle. -/
inductive HandleAction where
  | opened (call : OpenCall) (status : FtStatus)
  | setup (call : SetupCall) (status : FtStatus)
  | transfer (call : D2xxCall)
  | closed
  deriving DecidableEq, Repr

/-- The driver with its configuration and its messages. -/
structure Host (τ : Type) where
  sys : Sys τ
  params : FtConfig
  text : List LogText
  handle : List HandleAction

/-- How the process may end. -/
inductive Crash where
  | stray (e : Stray)
  | abort (e : Abort)

abbrev HostM (τ : Type) := Exec Crash (Host τ)

variable {τ : Type} {α : Type}

/-- A part of `activate` that makes no call on the handle. -/
def select (x : SelectM α) : HostM τ α := fun s =>
  match x s.text with
  | .ok (a, text) => .ok (a, { s with text := text })
  | .error (e, text) => .error (.stray e, { s with text := text })

/-- A part of the driver that works on the command buffer. -/
def onChip (x : Prog τ α) : HostM τ α := fun s =>
  let after (t : Sys τ) : Host τ :=
    { s with
      sys := t
      handle := s.handle ++ (t.calls.drop s.sys.calls.length).map HandleAction.transfer }
  match x s.sys with
  | .ok (a, t) => .ok (a, after t)
  | .error (e, t) => .error (.abort e, after t)

section Calls

variable (calls : HandleCalls τ)

def ftOpen (call : OpenCall) : HostM τ FtStatus :=
  modifyGet fun s =>
    let (status, usb) := calls.ftOpen call s.sys.usb
    (status, { s with
      sys := { s.sys with usb := usb }
      handle := s.handle ++ [.opened call status] })

def ftSetup (call : SetupCall) : HostM τ FtStatus :=
  modifyGet fun s =>
    let (status, usb) := calls.setup call s.sys.usb
    (status, { s with
      sys := { s.sys with usb := usb }
      handle := s.handle ++ [.setup call status] })

def ftClose : HostM τ Unit :=
  modify fun s =>
    { s with
      sys := { s.sys with usb := calls.ftClose s.sys.usb }
      handle := s.handle ++ [.closed] }

def OpenCall.expr : OpenCall → String
  | .ftOpen _ => "FT_Open(0, &d->ftHandle)"
  | .ftOpenEx _ => "FT_OpenEx(selectedDevice->SerialNumber, FT_OPEN_BY_SERIAL_NUMBER, &d->ftHandle)"

def SetupCall.expr : SetupCall → String
  | .purge => "FT_Purge(d->ftHandle, FT_PURGE_RX | FT_PURGE_TX)"
  | .setChars => "FT_SetChars(d->ftHandle, 0, 0, 0, 0)"
  | .setFlowControl => "FT_SetFlowControl(d->ftHandle, FT_FLOW_RTS_CTS, 0, 0)"
  | .setLatencyTimer _ => "FT_SetLatencyTimer(d->ftHandle, d->params.read_latency_millis)"
  | .resetMode => "FT_SetBitMode(d->ftHandle, 0x00, FT_BITMODE_RESET)"
  | .mpsseMode => "FT_SetBitMode(d->ftHandle, 0x00, FT_BITMODE_MPSSE)"

def log (level : LogLevel) (fmt : String) (args : List CString) : HostM τ Unit :=
  modify fun s => { s with text := s.text ++ [(level, fmt, args)] }

/-- `REQUIRE_D2XX_SUCCESS_` after its call: the message. -/
def complain (expr : String) (lastStatus : FtStatus) : HostM τ Unit :=
  if lastStatus ≠ .ok then
    log .error "Failed: %s: %s\n" [expr.toList, ftStatusName lastStatus]
  else pure ()

def announce : SetupCall → HostM τ Unit
  | .setLatencyTimer millis =>
      log .verbose "Set latency timer to %dms\n" [(toString millis).toList]
  | _ => pure ()

/-- The calls from `FT_Purge` to the second `FT_SetBitMode`; the result is
`lastStatus`. -/
def setUp : List SetupCall → HostM τ FtStatus
  | [] => pure .ok
  | call :: rest => do
      announce call
      let lastStatus ← ftSetup calls call
      complain (SetupCall.expr call) lastStatus
      if lastStatus = .ok then setUp rest else pure lastStatus

def setupCalls (readLatencyMillis : ℤ) : List SetupCall :=
  [.purge, .setChars, .setFlowControl, .setLatencyTimer readLatencyMillis, .resetMode, .mpsseMode]

/-- From the label `bail_cant_open` on. -/
def bailCantOpen (lastStatus : FtStatus) : HostM τ Bool := do
  if lastStatus = .deviceNotOpened then
    log .error "--------------------------------------------\n" []
    log .error " Did you forget to \"sudo rmmod ftdi_sio\"?\n" []
    log .error "--------------------------------------------\n" []
  pure false

/-- From the label `bail_usb_close` on. -/
def bailUsbClose (lastStatus : FtStatus) : HostM τ Bool := do
  ftClose calls
  bailCantOpen lastStatus

/-- From the label `bail_reset_mode` on. -/
def bailResetMode : HostM τ Bool := do
  let _ ← ftSetup calls .resetMode
  bailUsbClose calls .ok

end Calls

/-- The addresses of the two pools, and what is on the stack before `activate`. -/
structure Memory where
  poolAddr : ℕ
  cmdPoolAddr : ℕ
  poolAligned : alignofRecord ∣ poolAddr
  cmdPoolAligned : alignofRecord ∣ cmdPoolAddr
  stack : Entries

/-- The roles of the pins that `load_config` has validated. -/
def dPins (params : FtConfig) (i : ℕ) : PinRole :=
  let role : Option PinRole :=
    match i with
    | 4 => params .d4
    | 5 => params .d5
    | 6 => params .d6
    | _ => params .d7
  role.getD .otherIgnored

section Life

variable (h : FtDeviceHeader) (list : DeviceEnumeration) (calls : HandleCalls τ) (io : D2xx τ)
  (mem : Memory)

/-- `activate` once a device is selected. -/
def openSelected (device : FtDevice) (selected : Selected) : HostM τ Bool := do
  let s ← get
  let params := s.params
  let lastStatus ← ftOpen calls selected.openCall
  complain (OpenCall.expr selected.openCall) lastStatus
  if lastStatus ≠ .ok then bailCantOpen lastStatus
  else
    let lastStatus ← setUp calls (setupCalls (params .readLatencyMillis))
    if lastStatus ≠ .ok then bailUsbClose calls lastStatus
    else if ← onChip (TinyXvc.activate io
        ⟨device, dPins params, mem.poolAddr, mem.cmdPoolAddr, mem.poolAligned,
          mem.cmdPoolAligned⟩) then
      pure true
    else bailResetMode calls

def activate (args : List (CString × CString)) : HostM τ Bool := do
  let s ← get
  let (ok, params, text) := loadConfig h args s.params
  set { s with params := params, text := s.text ++ text }
  if ok then
    match ← select (chipOf h params) with
    | none => pure false
    | some (device, channelSelector) =>
        match ← select
            (selectDevice list (params .vid) (params .pid) channelSelector mem.stack) with
        | none => pure false
        | some selected => openSelected calls io mem device selected
  else pure false

/-- The first call of `deactivate`. -/
def deinitSplitter : Prog τ Bool := do
  let s ← get
  let (ok, splitter) ← txvcJtagSplitterDeinit (jtagSplitterCallback io) s.gFtdi.jtagSplitter
  modify fun s => { s with gFtdi := { s.gFtdi with jtagSplitter := splitter } }
  pure ok

/-- `ft_buffer_deinit`: it flushes what the splitter has left, and then frees the pool. -/
def ftBufferDeinit : Prog τ Unit := do
  let _ ← ftBufferFlush io

def deactivate : HostM τ Bool := do
  let _ ← onChip (deinitSplitter io)
  onChip (ftBufferDeinit io)
  let _ ← ftSetup calls .resetMode
  ftClose calls
  pure true

/-- A call of a method of the driver. -/
def perform (op : DriverOp) : HostM τ Unit :=
  onChip (match op with
    | .setTckPeriod tckPeriodNs => do
        let _ ← (driverFtdiGeneric io).setTckPeriod tckPeriodNs
    | .shiftBits r => do
        let _ ← (driverFtdiGeneric io).shiftBits r)

/-- What `main` does with the driver; `ops` is what its clients ask for. -/
def lifetime (args : List (CString × CString)) (ops : List DriverOp) : HostM τ Bool := do
  if ← activate h list calls io mem args then
    ops.forM (perform io)
    deactivate calls io
  else pure false

end Life

end TinyXvc.Lifecycle
