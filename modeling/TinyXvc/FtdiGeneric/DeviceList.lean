import TinyXvc.FtdiGeneric.Config

/-!
# Choosing the device

The first half of `activate` of `ftdi_generic.c`, up to the call that opens the
device.  D2XX counts the connected devices and fills a list on the stack of
`activate`.  An access outside of the list or of a serial number ends the run.
-/

namespace TinyXvc.DeviceList

/-- The `FT_STATUS` values that `ft_status_name` knows, and the others. -/
inductive FtStatus where
  | ok
  | invalidHandle
  | deviceNotFound
  | deviceNotOpened
  | ioError
  | insufficientResources
  | invalidParameter
  | invalidBaudRate
  | deviceNotOpenedForErase
  | deviceNotOpenedForWrite
  | failedToWriteDevice
  | eepromReadFailed
  | eepromWriteFailed
  | eepromEraseFailed
  | eepromNotPresent
  | eepromNotProgrammed
  | invalidArgs
  | notSupported
  | otherError
  | deviceListNotReady
  | unknown
  deriving DecidableEq, Repr

def ftStatusName : FtStatus → CString
  | .ok => "FT_OK".toList
  | .invalidHandle => "FT_INVALID_HANDLE".toList
  | .deviceNotFound => "FT_DEVICE_NOT_FOUND".toList
  | .deviceNotOpened => "FT_DEVICE_NOT_OPENED".toList
  | .ioError => "FT_IO_ERROR".toList
  | .insufficientResources => "FT_INSUFFICIENT_RESOURCES".toList
  | .invalidParameter => "FT_INVALID_PARAMETER".toList
  | .invalidBaudRate => "FT_INVALID_BAUD_RATE".toList
  | .deviceNotOpenedForErase => "FT_DEVICE_NOT_OPENED_FOR_ERASE".toList
  | .deviceNotOpenedForWrite => "FT_DEVICE_NOT_OPENED_FOR_WRITE".toList
  | .failedToWriteDevice => "FT_FAILED_TO_WRITE_DEVICE".toList
  | .eepromReadFailed => "FT_EEPROM_READ_FAILED".toList
  | .eepromWriteFailed => "FT_EEPROM_WRITE_FAILED".toList
  | .eepromEraseFailed => "FT_EEPROM_ERASE_FAILED".toList
  | .eepromNotPresent => "FT_EEPROM_NOT_PRESENT".toList
  | .eepromNotProgrammed => "FT_EEPROM_NOT_PROGRAMMED".toList
  | .invalidArgs => "FT_INVALID_ARGS".toList
  | .notSupported => "FT_NOT_SUPPORTED".toList
  | .otherError => "FT_OTHER_ERROR".toList
  | .deviceListNotReady => "FT_DEVICE_LIST_NOT_READY".toList
  | .unknown => "???".toList

/-- The fields of `FT_DEVICE_LIST_INFO_NODE` that `activate` reads.  A length is
a `size_t`. -/
structure DeviceNode where
  serialNumber : CString
  description : CString
  length_lt : serialNumber.length < 2 ^ 64

/-- What D2XX answers while `activate` chooses a device.  A count is a `DWORD`. -/
structure DeviceEnumeration where
  getLibraryVersion : FtStatus
  ver : UInt32
  setVidPid : ℤ → ℤ → FtStatus
  createDeviceInfoList : FtStatus
  getDeviceInfoList : FtStatus
  devices : List DeviceNode
  length_lt : devices.length < 2 ^ 32

/-- `connectedDevices`; before it is filled nothing is known about its entries. -/
abbrev Entries := ℕ → DeviceNode

/-- `sizeof(connectedDevices) / sizeof(connectedDevices[0])`. -/
def numEntries : ℕ := 4

/-- An access outside of an array. -/
inductive Stray where
  | entry (i : ℕ)
  | character (i : ℕ)
  deriving DecidableEq, Repr

/-- The state is what has been logged. -/
abbrev SelectM := Exec Stray (List LogText)

def log (level : LogLevel) (fmt : String) (args : List CString) : SelectM Unit :=
  modify (· ++ [(level, fmt, args)])

/-- `REQUIRE_D2XX_SUCCESS_`; `false` is the jump to the cleanup label. -/
def requireD2xxSuccess (d2xxCallExpr : String) (lastStatus : FtStatus) : SelectM Bool :=
  if lastStatus ≠ .ok then do
    log .error "Failed: %s: %s\n" [d2xxCallExpr.toList, ftStatusName lastStatus]
    pure false
  else pure true

def storeEntry (entries : Entries) (i : ℕ) (d : DeviceNode) : SelectM Entries :=
  if i < numEntries then pure (Function.update entries i d) else Exec.abort (.entry i)

def loadEntry (entries : Entries) (i : ℕ) : SelectM DeviceNode :=
  if i < numEntries then pure (entries i) else Exec.abort (.entry i)

def loadChar (s : CString) (i : ℕ) : SelectM Char :=
  match s[i]? with
  | some c => pure c
  | none => Exec.abort (.character i)

/-- Stores the devices into the entries from `i` on. -/
def fillEntries (entries : Entries) (i : ℕ) : List DeviceNode → SelectM Entries
  | [] => pure entries
  | d :: ds => do
      let entries ← storeEntry entries i d
      fillEntries entries (i + 1) ds

/-- `FT_GetDeviceInfoList`. -/
def ftGetDeviceInfoList (io : DeviceEnumeration) (entries : Entries) :
    SelectM (FtStatus × Entries) :=
  if io.getDeviceInfoList = .ok then do
    let entries ← fillEntries entries 0 io.devices
    pure (.ok, entries)
  else pure (io.getDeviceInfoList, entries)

/-- `size_t` subtraction. -/
def sizeSub (m n : ℕ) : ℕ := (m + 2 ^ 64 - n) % 2 ^ 64

/-- The loop over the entries from `i` on. -/
def findDevice (connectedDevices : Entries) (channelSelector : Char) (numConnectedDevices i : ℕ) :
    SelectM (Option ℕ) :=
  if i < numConnectedDevices then do
    let cur ← loadEntry connectedDevices i
    let curSerial := cur.serialNumber
    let curSerialLen := curSerial.length
    if channelSelector = (← loadChar curSerial (sizeSub curSerialLen 1)) then pure (some i)
    else findDevice connectedDevices channelSelector numConnectedDevices (i + 1)
  else pure none
termination_by numConnectedDevices - i

/-- The index of `selectedDevice`; no channel selector is NUL. -/
def selectedDevice (connectedDevices : Entries) (channelSelector : Char)
    (numConnectedDevices : ℕ) : SelectM (Option ℕ) :=
  if numConnectedDevices ≠ 0 then
    if channelSelector = '\x00' then pure (some 0)
    else findDevice connectedDevices channelSelector numConnectedDevices 0
  else pure none

/-- The call that opens the device. -/
inductive OpenCall where
  | ftOpen (deviceNumber : ℕ)
  | ftOpenEx (serialNumber : CString)
  deriving DecidableEq, Repr

/-- The index of the selected device and how it is opened. -/
structure Selected where
  device : ℕ
  openCall : OpenCall
  deriving DecidableEq, Repr

/-- `%x`. -/
def hex (n : UInt32) : CString := Nat.toDigits 16 n.toNat

/-- The calls that list the devices; `none` is the jump to `bail_noop`. -/
def listDevices (io : DeviceEnumeration) (vid pid : ℤ) (stack : Entries) :
    SelectM (Option Entries) := do
  if ← requireD2xxSuccess "FT_GetLibraryVersion(&ver)" io.getLibraryVersion then
    log .info "Using d2xx driver v.%x.%x.%x\n"
      [hex (io.ver >>> 16 &&& 0xff), hex (io.ver >>> 8 &&& 0xff), hex (io.ver >>> 0 &&& 0xff)]
    if ← requireD2xxSuccess "FT_SetVIDPID(d->params.vid,d->params.pid)" (io.setVidPid vid pid) then
      if ← requireD2xxSuccess "FT_CreateDeviceInfoList(&numConnectedDevices)"
          io.createDeviceInfoList then
        let (status, connectedDevices) ← ftGetDeviceInfoList io stack
        if ← requireD2xxSuccess "FT_GetDeviceInfoList(connectedDevices, &numConnectedDevices)"
            status then
          pure (some connectedDevices)
        else pure none
      else pure none
    else pure none
  else pure none

/-- The choice among the devices that are listed. -/
def chooseDevice (connectedDevices : Entries) (channelSelector : Char)
    (numConnectedDevices : ℕ) : SelectM (Option Selected) := do
  match ← selectedDevice connectedDevices channelSelector numConnectedDevices with
  | none => do
      log .error "No matching device was found\n" []
      pure none
  | some i => do
      let selected ← loadEntry connectedDevices i
      log .info "Using device \"%s\" (serial number: \"%s\")\n"
        [selected.description, selected.serialNumber]
      if numConnectedDevices = 1 then pure (some ⟨i, .ftOpen 0⟩)
      else pure (some ⟨i, .ftOpenEx selected.serialNumber⟩)

def selectDevice (io : DeviceEnumeration) (vid pid : ℤ) (channelSelector : Char)
    (stack : Entries) : SelectM (Option Selected) := do
  match ← listDevices io vid pid stack with
  | none => pure none
  | some connectedDevices => chooseDevice connectedDevices channelSelector io.devices.length

/-- The switch over the chip types: the chip, and the channel selector. -/
def chipOf (h : FtDeviceHeader) (params : FtConfig) : SelectM (Option (FtDevice × Char)) :=
  let channelSelector : Char := params .channel
  let device : UInt32 := params .device
  if device = h.ft2232h then
    if channelSelector ≠ 'A' ∧ channelSelector ≠ 'B' then do
      log .error "Bad channel\n" []
      pure none
    else pure (some (.ft2232h, channelSelector))
  else if device = h.ft232h then
    if channelSelector ≠ 'A' then do
      log .error "Bad channel\n" []
      pure none
    else pure (some (.ft232h, '\x00'))
  else do
    log .error "Unknown chip type\n" []
    pure none

/-- `activate` until it opens a device. -/
def activateUntilOpen (h : FtDeviceHeader) (io : DeviceEnumeration)
    (args : List (CString × CString)) (out : FtConfig) (stack : Entries) :
    SelectM (Option Selected) := do
  let (ok, params, text) := loadConfig h args out
  modify (· ++ text)
  if ok then
    match ← chipOf h params with
    | none => pure none
    | some (_, channelSelector) =>
        selectDevice io (params .vid) (params .pid) channelSelector stack
  else pure none

end TinyXvc.DeviceList
