import TinyXvc.FtdiGeneric.Driver
import TinyXvc.Lib.Strtol
import TinyXvc.Log

/-!
# The FTDI driver's configuration

The loader of `ftdi_generic.c`.  Its macros go over one list of parameters, each
with a field of `struct ft_params`, a converter, a validation and a default.
-/

namespace TinyXvc

open Strtol

/-- The `FT_DEVICE` values of the D2XX header that the loader names. -/
structure FtDeviceHeader where
  unknown : UInt32
  ft2232h : UInt32
  ft232h : UInt32
  unknown_ne_ft2232h : unknown ≠ ft2232h
  unknown_ne_ft232h : unknown ≠ ft232h
  unknown_ne_minus_one : unknown ≠ 0xffffffff

/-- The items of `PARAM_LIST_ITEMS`. -/
inductive Param where
  | device
  | vid
  | pid
  | channel
  | readLatencyMillis
  | d4
  | d5
  | d6
  | d7
  deriving DecidableEq, Repr

def paramListItems : List Param :=
  [.device, .vid, .pid, .channel, .readLatencyMillis, .d4, .d5, .d6, .d7]

def Param.name : Param → CString
  | .device => "device".toList
  | .vid => "vid".toList
  | .pid => "pid".toList
  | .channel => "channel".toList
  | .readLatencyMillis => "read_latency_millis".toList
  | .d4 => "d4".toList
  | .d5 => "d5".toList
  | .d6 => "d6".toList
  | .d7 => "d7".toList

/-- The type of the parameter's field; `none` is `PIN_ROLE_INVALID`. -/
def Param.Field : Param → Type
  | .device => UInt32
  | .vid | .pid => ℤ
  | .channel => Char
  | .readLatencyMillis => ℤ
  | .d4 | .d5 | .d6 | .d7 => Option PinRole

/-- The fields of `struct ft_params` that the loader fills. -/
abbrev FtConfig := (p : Param) → p.Field

/-! ## Converters -/

def strToFtDevice (h : FtDeviceHeader) (s : CString) : UInt32 :=
  if s = "ft2232h".toList then h.ft2232h
  else if s = "ft232h".toList then h.ft232h
  else 0xffffffff -- `return -1`

def strToFtdiInterface (s : CString) : Char :=
  if s = "A".toList then 'A'
  else if s = "B".toList then 'B'
  else '?'

def strToPinRole (s : CString) : Option PinRole :=
  if s = "driver_low".toList then some .otherDriverLow
  else if s = "driver_high".toList then some .otherDriverHigh
  else if s = "ignored".toList then some .otherIgnored
  else none

def strToUsbId (s : CString) : ℤ :=
  let (res, endp) := strtol 16 s
  if endp ≠ [] ∨ res ≤ 0 ∨ res > 0xffff then -1 else res

def strToFtdiLatency (s : CString) : ℤ :=
  if s = [] then 16
  else
    let (res, endp) := strtol 10 s
    if endp ≠ [] ∨ res < 0 ∨ res > 255 then -1 else res

def Param.converterFunc (h : FtDeviceHeader) : (p : Param) → CString → p.Field
  | .device => strToFtDevice h
  | .vid | .pid => strToUsbId
  | .channel => strToFtdiInterface
  | .readLatencyMillis => strToFtdiLatency
  | .d4 | .d5 | .d6 | .d7 => strToPinRole

def Param.validation (h : FtDeviceHeader) : (p : Param) → p.Field → Bool
  | .device => fun device : UInt32 => device != h.unknown
  | .vid | .pid => fun id : ℤ => decide (id > 0)
  | .channel => fun channel : Char => channel != '?'
  | .readLatencyMillis => fun millis : ℤ => decide (millis ≥ 0)
  | .d4 | .d5 | .d6 | .d7 => fun role : Option PinRole => role.isSome

def Param.defVal (h : FtDeviceHeader) : (p : Param) → p.Field
  | .device => h.unknown
  | .vid | .pid => (0 : ℤ)
  | .channel => '?'
  | .readLatencyMillis => (16 : ℤ)
  | .d4 | .d5 | .d6 | .d7 => (none : Option PinRole)

/-! ## The loader -/

/-- A call of `txvc_log`: level, format and arguments. -/
abbrev LogText := LogLevel × String × List CString

/-- One round of the loop over the arguments. -/
def convertAndSetIfMatches (h : FtDeviceHeader) (s : FtConfig × List LogText)
    (arg : CString × CString) : FtConfig × List LogText :=
  match paramListItems.find? fun p => p.name == arg.1 with
  | some p => (Function.update s.1 p (p.converterFunc h arg.2), s.2)
  | none => (s.1, s.2 ++ [(.warn, "Unknown parameter: \"%s\"=\"%s\"\n", [arg.1, arg.2])])

/-- The result of `load_config`, the parameters that it leaves, and what it
logs. -/
def loadConfig (h : FtDeviceHeader) (args : List (CString × CString)) (out : FtConfig) :
    Bool × FtConfig × List LogText :=
  let out := paramListItems.foldl (fun out p => Function.update out p (p.defVal h)) out
  let (out, log) := args.foldl (convertAndSetIfMatches h) (out, [])
  match paramListItems.find? fun p => !p.validation h (out p) with
  | some p => (false, out, log ++ [(.error, "Bad or missing \"%s\"\n", [p.name])])
  | none => (true, out, log)

end TinyXvc
