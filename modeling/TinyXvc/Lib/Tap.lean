import Mathlib.Data.List.Basic
import Mathlib.Tactic

/-!
# The test access port controller of IEEE 1149.1

The sixteen controller states are two stable states and two copies of a
seven-phase scan, one for the data register and one for the instruction
register.  The controller moves on every rising edge of TCK as the TMS level
says.
-/

namespace Jtag

/-- The register a scan is about. -/
inductive Register where
  | dr
  | ir
  deriving DecidableEq, Repr

inductive Phase where
  | select
  | capture
  | shift
  | exit1
  | pause
  | exit2
  | update
  deriving DecidableEq, Repr

inductive Tap where
  | testLogicReset
  | runTestIdle
  | scan (register : Register) (phase : Phase)
  deriving DecidableEq, Repr

namespace Tap

/-- One TCK cycle with the given TMS level. -/
def clock : Tap → Bool → Tap
  | testLogicReset, tms => if tms then testLogicReset else runTestIdle
  | runTestIdle, tms => if tms then scan .dr .select else runTestIdle
  | scan r .select, tms =>
      if tms then
        match r with
        | .dr => scan .ir .select
        | .ir => testLogicReset
      else scan r .capture
  | scan r .capture, tms => scan r (if tms then .exit1 else .shift)
  | scan r .shift, tms => scan r (if tms then .exit1 else .shift)
  | scan r .exit1, tms => scan r (if tms then .update else .pause)
  | scan r .pause, tms => scan r (if tms then .exit2 else .pause)
  | scan r .exit2, tms => scan r (if tms then .update else .shift)
  | scan _ .update, tms => if tms then scan .dr .select else runTestIdle

/-- The register is being shifted through TDI and TDO. -/
def IsShift : Tap → Prop
  | scan _ .shift => True
  | _ => False

instance : DecidablePred IsShift := fun t => by
  cases t with
  | testLogicReset => exact isFalse id
  | runTestIdle => exact isFalse id
  | scan r p => cases p <;> first | exact isTrue trivial | exact isFalse id

/-- The controller after a sequence of TCK cycles. -/
def run (t : Tap) (tms : List Bool) : Tap := tms.foldl clock t

@[simp] theorem run_nil (t : Tap) : t.run [] = t := rfl

@[simp] theorem run_cons (t : Tap) (b : Bool) (bs : List Bool) :
    t.run (b :: bs) = (t.clock b).run bs := rfl

theorem run_append (t : Tap) (xs ys : List Bool) :
    t.run (xs ++ ys) = (t.run xs).run ys := List.foldl_append

/-- Five cycles with TMS high reset the controller from anywhere. -/
theorem run_five_high (t : Tap) : t.run (List.replicate 5 true) = testLogicReset := by
  cases t with
  | testLogicReset => rfl
  | runTestIdle => rfl
  | scan r p => cases r <;> cases p <;> rfl

end Tap

end Jtag
