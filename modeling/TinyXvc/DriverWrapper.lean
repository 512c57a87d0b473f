import TinyXvc.Interface

/-!
# The driver wrapper

`driver_wrapper.c`: a driver whose methods replace themselves.  What its two
function pointers point to is part of the state, next to the state of the
driver underneath and the calls that this driver has received.
-/

namespace TinyXvc

/-- What `txvcDriverWrapper.set_tck_period` points to. -/
inductive SetTckPeriodFn where
  | orig
  | noop
  | onetime
  deriving DecidableEq, Repr

/-- What `txvcDriverWrapper.shift_bits` points to. -/
inductive ShiftBitsFn where
  | orig
  | onetime
  deriving DecidableEq, Repr

inductive DriverEvent where
  | call (op : DriverOp)
  | result (r : DriverResult)

/-- The wrapper over a driver with the state `δ`. -/
structure Wrapped (δ : Type) where
  setTckPeriod : SetTckPeriodFn
  shiftBits : ShiftBitsFn
  driver : δ
  events : List DriverEvent

variable {ε δ : Type}

/-- A wrapper that nobody has called yet. -/
def Wrapped.initial (driver : δ) : Wrapped δ := ⟨.orig, .orig, driver, []⟩

def Wrapped.record (s : Wrapped δ) (e : DriverEvent) : Wrapped δ :=
  { s with events := s.events ++ [e] }

/-- A call that reaches the driver. -/
def reach {α : Type} (op : DriverOp) (result : α → DriverResult) (x : Exec ε δ α) :
    Exec ε (Wrapped δ) α := fun s =>
  match x s.driver with
  | .ok (a, driver) =>
      .ok (a, { s.record (.call op) with driver := driver }.record (.result (result a)))
  | .error (e, driver) => .error (e, { s.record (.call op) with driver := driver })

theorem wp_reach {α : Type} (op : DriverOp) (result : α → DriverResult) (x : Exec ε δ α)
    (Q : α → Wrapped δ → Prop) (E : ε → Wrapped δ → Prop) (s : Wrapped δ) :
    Exec.wp (reach op result x) Q E s ↔
      Exec.wp x
        (fun a t => Q a ({ s.record (.call op) with driver := t }.record (.result (result a))))
        (fun e t => E e { s.record (.call op) with driver := t }) s.driver := by
  unfold Exec.wp reach
  cases x s.driver <;> rfl

variable (d : TxvcDriver ε δ)

def origSetTckPeriod (tckPeriodNs : ℤ) : Exec ε (Wrapped δ) ℤ :=
  reach (.setTckPeriod tckPeriodNs) .period (d.setTckPeriod tckPeriodNs)

def origShiftBits (r : SplitRequest) : Exec ε (Wrapped δ) Bool :=
  reach (.shiftBits r) .shifted (d.shiftBits r)

def defaultTckPeriod : ℤ := 100

def noopSetTckPeriod (tckPeriodNs : ℤ) : Exec ε (Wrapped δ) ℤ := pure tckPeriodNs

def onetimeSetTckPeriod (tckPeriodNs : ℤ) : Exec ε (Wrapped δ) ℤ := do
  modify fun s => { s with setTckPeriod := .orig }
  origSetTckPeriod d tckPeriodNs

def onetimeShiftBits (r : SplitRequest) : Exec ε (Wrapped δ) Bool := do
  let s ← get
  if s.setTckPeriod = .onetime then
    let _ ← onetimeSetTckPeriod d defaultTckPeriod
    modify fun s => { s with shiftBits := .orig }
    origShiftBits d r
  else
    modify fun s => { s with shiftBits := .orig }
    origShiftBits d r

/-- `txvcDriverWrapper.set_tck_period`. -/
def wrapperSetTckPeriod (tckPeriodNs : ℤ) : Exec ε (Wrapped δ) ℤ := do
  let s ← get
  match s.setTckPeriod with
  | .orig => origSetTckPeriod d tckPeriodNs
  | .noop => noopSetTckPeriod tckPeriodNs
  | .onetime => onetimeSetTckPeriod d tckPeriodNs

/-- `txvcDriverWrapper.shift_bits`. -/
def wrapperShiftBits (r : SplitRequest) : Exec ε (Wrapped δ) Bool := do
  let s ← get
  match s.shiftBits with
  | .orig => origShiftBits d r
  | .onetime => onetimeShiftBits d r

def txvcDriverWrapperSetup (fixedTckPeriod : ℤ) : Exec ε (Wrapped δ) Unit := do
  modify fun s => { s with setTckPeriod := .orig, shiftBits := .orig }
  if fixedTckPeriod > 0 then
    -- set the desired period and inhibit future changes
    let tckPeriodNs ← wrapperSetTckPeriod d fixedTckPeriod
    if tckPeriodNs = fixedTckPeriod then modify fun s => { s with setTckPeriod := .noop }
    else pure ()
  else
    -- monitor if the client touches shift too early
    modify fun s => { s with setTckPeriod := .onetime, shiftBits := .onetime }

/-- The state that the setup leaves when the driver accepts the period. -/
def Wrapped.setUp (s : Wrapped δ) (fixedTckPeriod actual : ℤ) (driver : δ) : Wrapped δ where
  setTckPeriod := if actual = fixedTckPeriod then .noop else .orig
  shiftBits := .orig
  driver := driver
  events := s.events ++ [.call (.setTckPeriod fixedTckPeriod), .result (.period actual)]

theorem setup_eq {fixedTckPeriod actual : ℤ} {s : Wrapped δ} {driver : δ}
    (hfixed : 0 < fixedTckPeriod)
    (haccept : d.setTckPeriod fixedTckPeriod s.driver = .ok (actual, driver)) :
    txvcDriverWrapperSetup d fixedTckPeriod s =
      .ok ((), s.setUp fixedTckPeriod actual driver) := by
  have horig : wrapperSetTckPeriod d fixedTckPeriod
      { s with setTckPeriod := .orig, shiftBits := .orig } =
        .ok (actual, { s.setUp fixedTckPeriod actual driver with setTckPeriod := .orig }) := by
    rw [wrapperSetTckPeriod, Exec.get_bind]
    simp [origSetTckPeriod, reach, haccept, Wrapped.record, Wrapped.setUp]
  have hmodify : (modify fun s => { s with setTckPeriod := .orig, shiftBits := .orig } :
      Exec ε (Wrapped δ) PUnit) s =
        .ok (⟨⟩, { s with setTckPeriod := .orig, shiftBits := .orig }) := rfl
  rw [txvcDriverWrapperSetup, Exec.bind_ok hmodify, if_pos hfixed, Exec.bind_ok horig]
  split
  · rename_i heq
    rw [Wrapped.setUp, if_pos heq]
    rfl
  · rename_i hne
    rw [Wrapped.setUp, if_neg hne]
    rfl

/-- A call of the client. -/
def wrapperPerform : DriverOp → Exec ε (Wrapped δ) DriverResult
  | .setTckPeriod tckPeriodNs => do
      let ns ← wrapperSetTckPeriod d tckPeriodNs
      pure (.period ns)
  | .shiftBits r => do
      let ok ← wrapperShiftBits d r
      pure (.shifted ok)

/-- The calls of a client, until one of them ends the process. -/
def clientRun (ops : List DriverOp) : Exec ε (Wrapped δ) (List DriverResult) :=
  ops.mapM (wrapperPerform d)

end TinyXvc
