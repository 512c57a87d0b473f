import TinyXvc.JtagSplitter

/-!
# The driver interface

The two methods of `struct txvc_driver` that a client reaches with arguments of
its own, and what a client can ask of them.
-/

namespace TinyXvc

inductive DriverOp where
  | setTckPeriod (tckPeriodNs : ℤ)
  | shiftBits (r : SplitRequest)

/-- What a method returns. -/
inductive DriverResult where
  | period (tckPeriodNs : ℤ)
  | shifted (ok : Bool)
  deriving DecidableEq, Repr

/-- A driver over the state `δ`; a call may end the process with an `ε`. -/
structure TxvcDriver (ε δ : Type) where
  setTckPeriod : ℤ → Exec ε δ ℤ
  shiftBits : SplitRequest → Exec ε δ Bool

end TinyXvc
