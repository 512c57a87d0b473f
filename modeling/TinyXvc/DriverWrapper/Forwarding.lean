import TinyXvc.DriverWrapper

/-!
# Forwarding without an enforced period

The monitoring methods replace themselves, each from its own operation, and one
of them also from the other operation.  To the driver underneath, the client
looks like one that asks for a period before its first shift.
-/

namespace TinyXvc

variable {ε δ : Type}

/-! ## Clients without a wrapper -/

def TxvcDriver.perform (d : TxvcDriver ε δ) : DriverOp → Exec ε δ DriverResult
  | .setTckPeriod tckPeriodNs => do
      let ns ← d.setTckPeriod tckPeriodNs
      pure (.period ns)
  | .shiftBits r => do
      let ok ← d.shiftBits r
      pure (.shifted ok)

/-- The calls of a client that calls the driver itself. -/
def directRun (d : TxvcDriver ε δ) (ops : List DriverOp) : Exec ε δ (List DriverResult) :=
  ops.mapM d.perform

/-- Calls with their results. -/
def transcript : List DriverOp → List DriverResult → List DriverEvent
  | op :: ops, r :: rs => .call op :: .result r :: transcript ops rs
  | _, _ => []

def DriverOp.isShift : DriverOp → Bool
  | .setTckPeriod _ => false
  | .shiftBits _ => true

def DriverOp.isSetTckPeriod : DriverOp → Bool
  | .setTckPeriod _ => true
  | .shiftBits _ => false

/-- The calls before the first `shift_bits`. -/
def beforeShift (ops : List DriverOp) : List DriverOp := ops.takeWhile fun op => !op.isShift

/-- There is a `shift_bits`, and no `set_tck_period` before the first one. -/
def shiftsUnset (ops : List DriverOp) : Bool :=
  ops.any DriverOp.isShift && !(beforeShift ops).any DriverOp.isSetTckPeriod

/-- The calls of a client, with a request for 100 ns immediately before the first
shift when the client asks for no period before it. -/
def withDefault (ops : List DriverOp) : List DriverOp :=
  if shiftsUnset ops then ops.insertIdx (beforeShift ops).length (.setTckPeriod 100) else ops

/-- The results of the client's own calls among those of `withDefault ops`. -/
def ownResults (ops : List DriverOp) (rs : List DriverResult) : List DriverResult :=
  if shiftsUnset ops then rs.eraseIdx (beforeShift ops).length else rs

@[simp] theorem shiftsUnset_nil : shiftsUnset [] = false := rfl

@[simp] theorem shiftsUnset_shift (r : SplitRequest) (ops : List DriverOp) :
    shiftsUnset (.shiftBits r :: ops) = true := rfl

@[simp] theorem shiftsUnset_set (ns : ℤ) (ops : List DriverOp) :
    shiftsUnset (.setTckPeriod ns :: ops) = false := by
  simp [shiftsUnset, beforeShift, DriverOp.isShift, DriverOp.isSetTckPeriod]

theorem withDefault_set (ns : ℤ) (ops : List DriverOp) :
    withDefault (.setTckPeriod ns :: ops) = .setTckPeriod ns :: ops := by
  simp [withDefault]

theorem ownResults_set (ns : ℤ) (ops : List DriverOp) :
    ownResults (.setTckPeriod ns :: ops) = id := by
  funext rs
  simp [ownResults]

variable (d : TxvcDriver ε δ)

/-- From `s` the run `x` of the wrapper makes the calls `ops` of its driver, and
returns what `returned` keeps of their results. -/
def Forwards (ops : List DriverOp) (returned : List DriverResult → List DriverResult)
    (x : Exec ε (Wrapped δ) (List DriverResult)) (s : Wrapped δ) : Prop :=
  Exec.wp x
    (fun rs t => ∃ all, directRun d ops s.driver = .ok (all, t.driver) ∧ rs = returned all ∧
      t.events = s.events ++ transcript ops all)
    (fun e t => ∃ pre op post all driver, ops = pre ++ op :: post ∧
      directRun d pre s.driver = .ok (all, driver) ∧
      d.perform op driver = .error (e, t.driver) ∧
      t.events = s.events ++ transcript pre all ++ [.call op])
    s

/-! ## Calls that the wrapper forwards -/

/-- The call reaches the driver as it is. -/
structure Passes (op : DriverOp) (s : Wrapped δ) : Prop where
  unsealed : s.setTckPeriod ≠ .noop
  monitored : op.isShift = true → s.setTckPeriod = .orig

theorem passes_of_orig {s : Wrapped δ} (h : s.setTckPeriod = .orig) (op : DriverOp) :
    Passes op s := by
  constructor
  · simp [h]
  · intro _
    exact h

theorem passes_set {s : Wrapped δ} (h : s.setTckPeriod ≠ .noop) (ns : ℤ) :
    Passes (.setTckPeriod ns) s := by
  constructor
  · exact h
  · intro hshift
    cases hshift

theorem wp_wrapperPerform {op : DriverOp} {s : Wrapped δ} (h : Passes op s) :
    Exec.wp (wrapperPerform d op)
      (fun r t => d.perform op s.driver = .ok (r, t.driver) ∧
        t.events = s.events ++ [.call op, .result r] ∧ t.setTckPeriod = .orig)
      (fun e t => d.perform op s.driver = .error (e, t.driver) ∧
        t.events = s.events ++ [.call op]) s := by
  cases op with
  | setTckPeriod ns =>
      -- both pointers lead to the method of the driver
      rw [wrapperPerform, Exec.wp_bind, wrapperSetTckPeriod, Exec.wp_bind, Exec.wp_get]
      cases hset : s.setTckPeriod with
      | noop => exact absurd hset h.unsealed
      | orig =>
          rw [origSetTckPeriod, wp_reach]
          refine Exec.wp_mono (Exec.wp_self _ _) ?_ ?_
          · intro actual driver hcall
            exact ⟨Exec.bind_ok hcall, List.append_assoc .., hset⟩
          · intro e driver hcall
            exact ⟨Exec.bind_error hcall, rfl⟩
      | onetime =>
          simp only [onetimeSetTckPeriod, Exec.wp_bind, Exec.wp_modify]
          rw [origSetTckPeriod, wp_reach]
          refine Exec.wp_mono (Exec.wp_self _ _) ?_ ?_
          · intro actual driver hcall
            exact ⟨Exec.bind_ok hcall, List.append_assoc .., rfl⟩
          · intro e driver hcall
            exact ⟨Exec.bind_error hcall, rfl⟩
  | shiftBits r =>
      have hset : s.setTckPeriod = .orig := h.monitored rfl
      rw [wrapperPerform, Exec.wp_bind, wrapperShiftBits, Exec.wp_bind, Exec.wp_get]
      cases hshift : s.shiftBits with
      | orig =>
          rw [origShiftBits, wp_reach]
          refine Exec.wp_mono (Exec.wp_self _ _) ?_ ?_
          · intro ok driver hcall
            exact ⟨Exec.bind_ok hcall, List.append_assoc .., hset⟩
          · intro e driver hcall
            exact ⟨Exec.bind_error hcall, rfl⟩
      | onetime =>
          have hperiod : s.setTckPeriod ≠ .onetime := by simp [hset]
          simp only [onetimeShiftBits, Exec.wp_bind, Exec.wp_get, if_neg hperiod, Exec.wp_modify]
          rw [origShiftBits, wp_reach]
          refine Exec.wp_mono (Exec.wp_self _ _) ?_ ?_
          · intro ok driver hcall
            exact ⟨Exec.bind_ok hcall, List.append_assoc .., hset⟩
          · intro e driver hcall
            exact ⟨Exec.bind_error hcall, rfl⟩

theorem directRun_cons {op : DriverOp} {ops : List DriverOp} {r : DriverResult}
    {rs : List DriverResult} {u v w : δ} (hop : d.perform op u = .ok (r, v))
    (hops : directRun d ops v = .ok (rs, w)) : directRun d (op :: ops) u = .ok (r :: rs, w) := by
  rw [directRun, List.mapM_cons, Exec.bind_ok hop]
  exact Exec.bind_ok hops

theorem clientRun_cons (op : DriverOp) (ops : List DriverOp) :
    clientRun d (op :: ops) = (do
      let r ← wrapperPerform d op
      let rs ← clientRun d ops
      pure (r :: rs)) := List.mapM_cons

/-- A run whose first call passes the wrapper. -/
theorem clientRun_forwards (ops : List DriverOp) {s : Wrapped δ}
    (h : ∀ op, ops.head? = some op → Passes op s) :
    Forwards d ops id (clientRun d ops) s := by
  induction ops generalizing s with
  | nil => exact ⟨[], rfl, rfl, (List.append_nil _).symm⟩
  | cons op ops ih =>
      rw [Forwards, clientRun_cons, Exec.wp_bind]
      refine Exec.wp_mono (wp_wrapperPerform d (h op rfl)) ?_ ?_
      · rintro r t ⟨hcall, hevents, hset⟩
        rw [Exec.wp_bind]
        refine Exec.wp_mono (ih (s := t) fun op _ => passes_of_orig hset op) ?_ ?_
        · rintro rs u ⟨all, hrun, hrs, hmore⟩
          refine ⟨r :: all, directRun_cons d hcall hrun, congrArg (r :: ·) hrs, ?_⟩
          rw [hmore, hevents, transcript]
          simp
        · rintro e u ⟨pre, op', post, all, driver, rfl, hrun, hfail, hmore⟩
          refine ⟨op :: pre, op', post, r :: all, driver, rfl, directRun_cons d hcall hrun, hfail,
            ?_⟩
          rw [hmore, hevents, transcript]
          simp
      · rintro e t ⟨hcall, hevents⟩
        refine ⟨[], op, ops, [], s.driver, rfl, rfl, hcall, ?_⟩
        simpa [transcript] using hevents

/-! ## The default period -/

/-- Both methods still monitor the client. -/
def Wrapped.Monitors (s : Wrapped δ) : Prop := s.setTckPeriod = .onetime ∧ s.shiftBits = .onetime

theorem wp_onetimeSetTckPeriod (ns : ℤ) (s : Wrapped δ) :
    Exec.wp (onetimeSetTckPeriod d ns)
      (fun _ t => t.setTckPeriod = .orig ∧ t.shiftBits = s.shiftBits) (fun _ _ => True) s := by
  rw [onetimeSetTckPeriod, Exec.wp_bind, Exec.wp_modify, origSetTckPeriod, wp_reach]
  exact Exec.wp_always (fun _ _ => ⟨rfl, rfl⟩) (fun _ _ => trivial)

theorem wrapperShiftBits_unmonitored {s : Wrapped δ} (hset : s.setTckPeriod = .orig)
    (hshift : s.shiftBits = .onetime) (r : SplitRequest) :
    wrapperShiftBits d r s = origShiftBits d r { s with shiftBits := .orig } := by
  have hperiod : s.setTckPeriod ≠ .onetime := by simp [hset]
  rw [wrapperShiftBits, Exec.get_bind, hshift]
  dsimp only
  rw [onetimeShiftBits, Exec.get_bind, if_neg hperiod]
  rfl

theorem wrapperShiftBits_monitored {s : Wrapped δ} (h : s.Monitors) (r : SplitRequest) :
    wrapperShiftBits d r s =
      (do
        let _ ← onetimeSetTckPeriod d 100
        modify fun t : Wrapped δ => { t with shiftBits := .orig }
        origShiftBits d r) s := by
  rw [wrapperShiftBits, Exec.get_bind, h.2]
  dsimp only
  rw [onetimeShiftBits, Exec.get_bind, if_pos h.1]
  rfl

/-- A first shift acts as if the client had asked for the default period. -/
theorem wrapperShiftBits_default {s : Wrapped δ} (h : s.Monitors) (r : SplitRequest) :
    wrapperShiftBits d r s =
      (do
        let _ ← wrapperSetTckPeriod d 100
        wrapperShiftBits d r) s := by
  have hset : wrapperSetTckPeriod d 100 s = onetimeSetTckPeriod d 100 s := by
    rw [wrapperSetTckPeriod, Exec.get_bind, h.1]
  rw [wrapperShiftBits_monitored d h]
  cases hrun : onetimeSetTckPeriod d 100 s with
  | error e => rw [Exec.bind_error hrun, Exec.bind_error (hset.trans hrun)]
  | ok p =>
      obtain ⟨hleft, hkept⟩ := Exec.wp_ok (wp_onetimeSetTckPeriod d 100 s) hrun
      rw [Exec.bind_ok hrun, Exec.bind_ok (hset.trans hrun),
        wrapperShiftBits_unmonitored d hleft (hkept.trans h.2)]
      rfl

/-- A client that shifts first gets the results of its own calls. -/
theorem clientRun_default {s : Wrapped δ} (h : s.Monitors) (r : SplitRequest)
    (ops : List DriverOp) :
    clientRun d (.shiftBits r :: ops) s =
      (do
        let rs ← clientRun d (.setTckPeriod 100 :: .shiftBits r :: ops)
        pure (rs.eraseIdx 0)) s := by
  have hshift := Exec.bind_congr_left (wrapperShiftBits_default d h r) fun ok => do
    let rs ← clientRun d ops
    pure (DriverResult.shifted ok :: rs)
  simpa [clientRun_cons, wrapperPerform] using hshift

/-- A client that the wrapper monitors acts as one that asks for a period before
its first shift. -/
theorem clientRun_withDefault {s : Wrapped δ} (h : s.Monitors) (ops : List DriverOp) :
    clientRun d ops s =
      (do
        let rs ← clientRun d (withDefault ops)
        pure (ownResults ops rs)) s := by
  cases ops with
  | nil => rfl
  | cons op ops =>
      cases op with
      | setTckPeriod ns =>
          rw [withDefault_set, ownResults_set]
          simp
      | shiftBits r => exact clientRun_default d h r ops

theorem passes_withDefault {s : Wrapped δ} (h : s.Monitors) (ops : List DriverOp) (op : DriverOp)
    (hop : (withDefault ops).head? = some op) : Passes op s := by
  have hset : s.setTckPeriod ≠ .noop := by simp [h.1]
  cases ops with
  | nil => cases hop
  | cons op ops =>
      cases op with
      | setTckPeriod ns =>
          rw [withDefault_set] at hop
          cases hop
          exact passes_set hset ns
      | shiftBits r =>
          cases hop
          exact passes_set hset 100

def Wrapped.monitored (s : Wrapped δ) : Wrapped δ :=
  { s with setTckPeriod := .onetime, shiftBits := .onetime }

theorem setup_unenforced {fixedTckPeriod : ℤ} (h : ¬0 < fixedTckPeriod) (s : Wrapped δ) :
    txvcDriverWrapperSetup d fixedTckPeriod s = .ok ((), s.monitored) := by
  rw [txvcDriverWrapperSetup, if_neg h]
  rfl

theorem unenforced_wrapper_forwards (ops : List DriverOp) (s : Wrapped δ) :
    Forwards d (withDefault ops) (ownResults ops)
      (do txvcDriverWrapperSetup d 0; clientRun d ops) s := by
  have hmonitors : s.monitored.Monitors := ⟨rfl, rfl⟩
  have hrun := clientRun_forwards d (withDefault ops) (passes_withDefault hmonitors ops)
  rw [Forwards, Exec.wp_bind_ok (setup_unenforced d (by decide) s), Exec.wp,
    clientRun_withDefault d hmonitors, ← Exec.wp, Exec.wp_bind]
  refine Exec.wp_mono hrun ?_ (fun _ _ he => he)
  rintro rs t ⟨all, hall, hrs, hevents⟩
  exact ⟨all, hall, congrArg (ownResults ops) hrs, hevents⟩

end TinyXvc
