import TinyXvc.Interface
import TinyXvc.FtdiGeneric.Driver

/-!
# The drivers

The two drivers of the program, as values of the driver interface.
-/

namespace TinyXvc

/-- `echo.c`; its state is the memory of its caller. -/
def driverEcho : TxvcDriver Abort Mem where
  setTckPeriod tckPeriodNs := pure tckPeriodNs
  shiftBits r := do
    let numBytes := r.numBits / 8 + if r.numBits % 8 ≠ 0 then 1 else 0
    modify fun m => m.write r.tdo fun i => if i < numBytes then r.tdi i else m.view r.tdo i
    pure true

def driverFtdiGeneric {τ : Type} (io : D2xx τ) : TxvcDriver Abort (Sys τ) where
  setTckPeriod := setTckPeriod io
  shiftBits := shiftBits io

end TinyXvc
