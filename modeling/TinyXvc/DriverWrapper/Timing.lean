import TinyXvc.DriverWrapper.Forwarding

/-!
# Shifts without a TCK period

The wrapper forgets a request for a period also when the driver refuses it: in
the setup, for the client's first request, and for the default before a first
shift.
-/

namespace TinyXvc

variable {ε δ : Type}

/-- A `shift_bits` comes only after a `set_tck_period` that succeeded. -/
def ShiftsTimed (events : List DriverEvent) : Prop :=
  ∀ pre r post, events = pre ++ .call (.shiftBits r) :: post →
    ∃ ns, 0 < ns ∧ .result (.period ns) ∈ pre

/-- A `set_tck_period` has succeeded. -/
def PeriodSet (events : List DriverEvent) : Prop := ∃ ns, 0 < ns ∧ .result (.period ns) ∈ events

/-- No `shift_bits` so far. -/
def Unshifted (events : List DriverEvent) : Prop := ∀ r, .call (.shiftBits r) ∉ events

theorem Unshifted.timed {events : List DriverEvent} (h : Unshifted events) :
    ShiftsTimed events := by
  rintro pre r post rfl
  exact absurd (by simp) (h r)

/-- Once a period is set, later shifts are timed. -/
theorem Unshifted.timed_append {events : List DriverEvent} (h : Unshifted events)
    (hset : PeriodSet events) {all : List DriverEvent} (hall : events <+: all) :
    ShiftsTimed all := by
  obtain ⟨more, rfl⟩ := hall
  obtain ⟨ns, hns, hmem⟩ := hset
  intro pre r post hsplit
  rcases List.append_eq_append_iff.mp hsplit with ⟨mid, rfl, -⟩ | ⟨mid, rfl, hmid⟩
  · exact ⟨ns, hns, List.mem_append_left _ hmem⟩
  · cases mid with
    | nil => exact ⟨ns, hns, by simpa using hmem⟩
    | cons e mid =>
        cases hmid
        exact absurd (by simp) (h r)

theorem not_timed {events all : List DriverEvent} {r : SplitRequest} (hunset : ¬PeriodSet events)
    (hall : events ++ [.call (.shiftBits r)] <+: all) : ¬ShiftsTimed all := by
  obtain ⟨more, rfl⟩ := hall
  intro htimed
  exact hunset (htimed events r more (by simp))

variable (d : TxvcDriver ε δ)

/-- In the run of a client after the setup, the first shift that reaches the
driver comes after a period that the driver accepted. -/
def FirstShiftTimed (fixedTckPeriod : ℤ) (ops : List DriverOp) (driver : δ) : Prop :=
  Exec.wp (do txvcDriverWrapperSetup d fixedTckPeriod; clientRun d ops)
    (fun _ t => ShiftsTimed t.events) (fun _ t => ShiftsTimed t.events) (.initial driver)

/-! ## The requests before the first shift -/

/-- The periods that a client asks for before its first shift. -/
def periodsBeforeShift (ops : List DriverOp) : List ℤ :=
  (beforeShift ops).filterMap fun op =>
    match op with
    | .setTckPeriod ns => some ns
    | .shiftBits _ => none

/-- The periods that the driver is asked for before the first shift. -/
def requestsBeforeShift (fixedTckPeriod : ℤ) (ops : List DriverOp) : List ℤ :=
  if fixedTckPeriod > 0 then fixedTckPeriod :: periodsBeforeShift ops
  else periodsBeforeShift (withDefault ops)

/-- The driver, asked for these periods in turn, answers one of them with a
period, or ends the process. -/
def Grants : List ℤ → δ → Prop
  | [], _ => False
  | ns :: rest, driver =>
      Exec.wp (d.setTckPeriod ns) (fun actual driver => 0 < actual ∨ Grants rest driver)
        (fun _ _ => True) driver

theorem periodsBeforeShift_set (ns : ℤ) (ops : List DriverOp) :
    periodsBeforeShift (.setTckPeriod ns :: ops) = ns :: periodsBeforeShift ops := rfl

theorem any_isShift_withDefault (ops : List DriverOp) :
    (withDefault ops).any DriverOp.isShift = ops.any DriverOp.isShift := by
  cases ops with
  | nil => rfl
  | cons op ops =>
      cases op with
      | setTckPeriod ns => rw [withDefault_set]
      | shiftBits r => rfl

/-! ## Runs -/

/-- The calls and results so far stay. -/
abbrev Extends (base : List DriverEvent) {α : Type} (x : Exec ε (Wrapped δ) α) : Prop :=
  Exec.Preserves (fun s => base <+: s.events) (fun _ s => base <+: s.events) x

theorem extends_reach {α : Type} (base : List DriverEvent) (op : DriverOp)
    (result : α → DriverResult) (x : Exec ε δ α) : Extends base (reach op result x) := by
  intro s hs
  rw [wp_reach]
  refine Exec.wp_always (fun a t => ?_) (fun e t => ?_)
  · exact (hs.trans (List.prefix_append ..)).trans (List.prefix_append ..)
  · exact hs.trans (List.prefix_append ..)

theorem onetimeSetTckPeriod_extends (base : List DriverEvent) (ns : ℤ) :
    Extends base (onetimeSetTckPeriod d ns) := by
  intro s hs
  rw [onetimeSetTckPeriod, Exec.wp_bind, Exec.wp_modify]
  exact extends_reach base _ _ _ _ hs

theorem wrapperSetTckPeriod_extends (base : List DriverEvent) (ns : ℤ) :
    Extends base (wrapperSetTckPeriod d ns) := by
  apply Exec.Preserves.get.bind
  intro s
  cases s.setTckPeriod with
  | orig => exact extends_reach base _ _ _
  | noop => exact Exec.Preserves.pure _
  | onetime => exact onetimeSetTckPeriod_extends d base ns

theorem wrapperShiftBits_extends (base : List DriverEvent) (r : SplitRequest) :
    Extends base (wrapperShiftBits d r) := by
  have hshift : Extends base (do
      modify fun s : Wrapped δ => { s with shiftBits := .orig }
      origShiftBits d r) := by
    intro s hs
    rw [Exec.wp_bind, Exec.wp_modify]
    exact extends_reach base _ _ _ _ hs
  apply Exec.Preserves.get.bind
  intro s
  cases s.shiftBits with
  | orig => exact extends_reach base _ _ _
  | onetime =>
      apply Exec.Preserves.get.bind
      intro s
      apply Exec.Preserves.ite
      · exact (onetimeSetTckPeriod_extends d base _).bind fun _ => hshift
      · exact hshift

theorem wrapperPerform_extends (base : List DriverEvent) (op : DriverOp) :
    Extends base (wrapperPerform d op) := by
  cases op with
  | setTckPeriod ns =>
      exact (wrapperSetTckPeriod_extends d base ns).bind fun _ => Exec.Preserves.pure _
  | shiftBits r => exact (wrapperShiftBits_extends d base r).bind fun _ => Exec.Preserves.pure _

theorem clientRun_extends (base : List DriverEvent) (ops : List DriverOp) :
    Extends base (clientRun d ops) := by
  induction ops with
  | nil => exact Exec.Preserves.pure _
  | cons op ops ih =>
      rw [clientRun_cons]
      apply (wrapperPerform_extends d base op).bind
      intro r
      apply ih.bind
      intro rs
      exact Exec.Preserves.pure _

/-- Every shift of the run is timed. -/
def RunTimed {α : Type} (x : Exec ε (Wrapped δ) α) (s : Wrapped δ) : Prop :=
  Exec.wp x (fun _ t => ShiftsTimed t.events) (fun _ t => ShiftsTimed t.events) s

/-- A run after a period was set. -/
theorem runTimed_of_set (ops : List DriverOp) {s : Wrapped δ} (hun : Unshifted s.events)
    (hset : PeriodSet s.events) : RunTimed (clientRun d ops) s := by
  have hrun := clientRun_extends d s.events ops s (List.prefix_refl _)
  exact Exec.wp_mono hrun (fun _ _ hall => hun.timed_append hset hall)
    (fun _ _ hall => hun.timed_append hset hall)

/-- A run that shifts before a period was set. -/
theorem not_runTimed_shift (r : SplitRequest) (ops : List DriverOp) {s : Wrapped δ}
    (hpass : Passes (.shiftBits r) s) (hunset : ¬PeriodSet s.events) :
    ¬RunTimed (clientRun d (.shiftBits r :: ops)) s := by
  have hrun : Exec.wp (clientRun d (.shiftBits r :: ops))
      (fun _ t => s.events ++ [.call (.shiftBits r)] <+: t.events)
      (fun _ t => s.events ++ [.call (.shiftBits r)] <+: t.events) s := by
    rw [clientRun_cons, Exec.wp_bind]
    refine Exec.wp_mono (wp_wrapperPerform d hpass) ?_ ?_
    · rintro result t ⟨-, hevents, -⟩
      have hnow : s.events ++ [.call (.shiftBits r)] <+: t.events := by
        rw [hevents]
        exact ⟨[.result result], by simp⟩
      rw [Exec.wp_bind]
      exact clientRun_extends d _ ops t hnow
    · rintro e t ⟨-, hevents⟩
      rw [hevents]
  intro htimed
  apply Exec.not_wp_false
  exact Exec.wp_mono (Exec.wp_and htimed hrun)
    (fun _ _ hboth => not_timed hunset hboth.2 hboth.1)
    (fun _ _ hboth => not_timed hunset hboth.2 hboth.1)

theorem runTimed_cons {op : DriverOp} {r : DriverResult} {s t : Wrapped δ}
    (hrun : wrapperPerform d op s = .ok (r, t)) (ops : List DriverOp) :
    RunTimed (clientRun d (op :: ops)) s ↔ RunTimed (clientRun d ops) t := by
  rw [RunTimed, clientRun_cons, Exec.wp_bind_ok hrun, Exec.wp_bind]
  rfl

theorem grants_cons {ns actual : ℤ} {driver driver' : δ}
    (hcall : d.setTckPeriod ns driver = .ok (actual, driver')) (rest : List ℤ) :
    Grants d (ns :: rest) driver ↔ 0 < actual ∨ Grants d rest driver' := by
  rw [Grants, Exec.wp, hcall]

theorem grants_of_error {ns : ℤ} {driver : δ} {e : ε × δ}
    (hcall : d.setTckPeriod ns driver = .error e) (rest : List ℤ) :
    Grants d (ns :: rest) driver := by
  rw [Grants, Exec.wp, hcall]
  trivial

/-- A request and its result, before any shift. -/
theorem unshifted_request {events : List DriverEvent} (h : Unshifted events) (ns actual : ℤ) :
    Unshifted (events ++ [.call (.setTckPeriod ns), .result (.period actual)]) := by
  intro r hmem
  have hold : .call (.shiftBits r) ∈ events := by simpa using hmem
  exact h r hold

theorem periodSet_request {events : List DriverEvent} (h : ¬PeriodSet events) (ns actual : ℤ) :
    PeriodSet (events ++ [.call (.setTckPeriod ns), .result (.period actual)]) ↔ 0 < actual := by
  constructor
  · rintro ⟨period, hperiod, hmem⟩
    have hnew : .result (.period period) ∈ events ∨ period = actual := by simpa using hmem
    rcases hnew with hold | rfl
    · exact absurd ⟨period, hperiod, hold⟩ h
    · exact hperiod
  · intro hactual
    exact ⟨actual, hactual, by simp⟩

/-- A run of a client whose calls reach the driver. -/
theorem runTimed_iff (ops : List DriverOp) {s : Wrapped δ}
    (hpass : ∀ op, ops.head? = some op → Passes op s) (hun : Unshifted s.events)
    (hunset : ¬PeriodSet s.events) :
    RunTimed (clientRun d ops) s ↔
      ops.any DriverOp.isShift = false ∨ Grants d (periodsBeforeShift ops) s.driver := by
  induction ops generalizing s with
  | nil => exact iff_of_true hun.timed (.inl rfl)
  | cons op ops ih =>
      have hop := wp_wrapperPerform d (hpass op rfl)
      cases op with
      | shiftBits r =>
          refine iff_of_false (not_runTimed_shift d r ops (hpass _ rfl) hunset) ?_
          rintro (hnone | hgrants)
          · cases hnone
          · exact hgrants
      | setTckPeriod ns =>
          rw [periodsBeforeShift_set]
          cases hrun : wrapperPerform d (.setTckPeriod ns) s with
          | error p =>
              obtain ⟨hcall, hevents⟩ := Exec.wp_error hop hrun
              have hstop : d.setTckPeriod ns s.driver = .error (p.1, p.2.driver) := by
                rcases Exec.bind_eq_error hcall with hstop | ⟨_, _, _, hpure⟩
                · exact hstop
                · cases hpure
              refine iff_of_true ?_ (.inr (grants_of_error d hstop _))
              rw [RunTimed, clientRun_cons, Exec.wp, Exec.bind_error hrun]
              apply Unshifted.timed
              intro r hmem
              have hold : .call (.shiftBits r) ∈ s.events := by simpa [hevents] using hmem
              exact hun r hold
          | ok p =>
              obtain ⟨r, t⟩ := p
              obtain ⟨hcall, hevents, hset⟩ := Exec.wp_ok hop hrun
              obtain ⟨actual, driver, hanswer, hpure⟩ := Exec.bind_eq_ok hcall
              cases hpure
              rw [runTimed_cons d hrun, grants_cons d hanswer]
              have hun' : Unshifted t.events := hevents ▸ unshifted_request hun ns actual
              have hset' : PeriodSet t.events ↔ 0 < actual :=
                hevents ▸ periodSet_request hunset ns actual
              by_cases hactual : 0 < actual
              · exact iff_of_true (runTimed_of_set d ops hun' (hset'.mpr hactual))
                  (.inr (.inl hactual))
              · rw [ih (fun op _ => passes_of_orig hset op) hun' (mt hset'.mp hactual)]
                simp [hactual, DriverOp.isShift]

/-! ## The setup -/

theorem unshifted_nil : Unshifted [] := fun _ => List.not_mem_nil

theorem not_periodSet_nil : ¬PeriodSet [] := by
  rintro ⟨_, _, hmem⟩
  cases hmem

theorem unenforced_timed_iff {fixedTckPeriod : ℤ} (hfixed : ¬0 < fixedTckPeriod)
    (ops : List DriverOp) (driver : δ) :
    FirstShiftTimed d fixedTckPeriod ops driver ↔
      ops.any DriverOp.isShift = false ∨
        Grants d (periodsBeforeShift (withDefault ops)) driver := by
  have hmonitors : (Wrapped.initial driver).monitored.Monitors := ⟨rfl, rfl⟩
  rw [FirstShiftTimed, Exec.wp_bind_ok (setup_unenforced d hfixed _), Exec.wp,
    clientRun_withDefault d hmonitors, ← Exec.wp, Exec.wp_bind, ← any_isShift_withDefault]
  exact runTimed_iff d (withDefault ops) (passes_withDefault hmonitors ops) unshifted_nil
    not_periodSet_nil

theorem setup_refused {fixedTckPeriod : ℤ} (hfixed : 0 < fixedTckPeriod) {driver : δ}
    {e : ε × δ} (hstop : d.setTckPeriod fixedTckPeriod driver = .error e) :
    txvcDriverWrapperSetup d fixedTckPeriod (.initial driver) =
      .error (e.1, ⟨.orig, .orig, e.2, [.call (.setTckPeriod fixedTckPeriod)]⟩) := by
  have horig : wrapperSetTckPeriod d fixedTckPeriod (.initial driver) =
      .error (e.1, ⟨.orig, .orig, e.2, [.call (.setTckPeriod fixedTckPeriod)]⟩) := by
    rw [wrapperSetTckPeriod, Exec.get_bind]
    simp [origSetTckPeriod, reach, hstop, Wrapped.record, Wrapped.initial]
  have hmodify : (modify fun s : Wrapped δ => { s with setTckPeriod := .orig, shiftBits := .orig } :
      Exec ε (Wrapped δ) PUnit) (.initial driver) = .ok (⟨⟩, .initial driver) := rfl
  rw [txvcDriverWrapperSetup, Exec.bind_ok hmodify, if_pos hfixed, Exec.bind_error horig]

theorem enforced_timed_iff {fixedTckPeriod : ℤ} (hfixed : 0 < fixedTckPeriod)
    (ops : List DriverOp) (driver : δ) :
    FirstShiftTimed d fixedTckPeriod ops driver ↔
      ops.any DriverOp.isShift = false ∨
        Grants d (fixedTckPeriod :: periodsBeforeShift ops) driver := by
  cases hcall : d.setTckPeriod fixedTckPeriod driver with
  | error e =>
      refine iff_of_true ?_ (.inr (grants_of_error d hcall _))
      rw [FirstShiftTimed, Exec.wp, Exec.bind_error (setup_refused d hfixed hcall)]
      apply Unshifted.timed
      simp [Unshifted]
  | ok p =>
      obtain ⟨actual, driver'⟩ := p
      have hsetup := setup_eq d (s := .initial driver) hfixed hcall
      have hun := unshifted_request unshifted_nil fixedTckPeriod actual
      have hset := periodSet_request not_periodSet_nil fixedTckPeriod actual
      rw [FirstShiftTimed, Exec.wp_bind_ok hsetup, grants_cons d hcall]
      by_cases hactual : 0 < actual
      · exact iff_of_true (runTimed_of_set d ops hun (hset.mpr hactual)) (.inr (.inl hactual))
      · have hpass : ((Wrapped.initial driver).setUp fixedTckPeriod actual driver').setTckPeriod
            = .orig := if_neg (by omega)
        have hrun := runTimed_iff d ops (fun op _ => passes_of_orig hpass op) hun
          (mt hset.mp hactual)
        simp only [hactual, false_or]
        exact hrun

theorem first_shift_timed_iff (fixedTckPeriod : ℤ) (ops : List DriverOp) (driver : δ) :
    FirstShiftTimed d fixedTckPeriod ops driver ↔
      ops.any DriverOp.isShift = false ∨
        Grants d (requestsBeforeShift fixedTckPeriod ops) driver := by
  rw [requestsBeforeShift]
  by_cases hfixed : 0 < fixedTckPeriod
  · rw [if_pos hfixed]
    exact enforced_timed_iff d hfixed ops driver
  · rw [if_neg hfixed]
    exact unenforced_timed_iff d hfixed ops driver

/-- A driver that fails to set any period. -/
def stuckDriver : TxvcDriver Abort Unit where
  setTckPeriod _ := pure (-1)
  shiftBits _ := pure true

theorem not_grants_stuckDriver (requests : List ℤ) : ¬Grants stuckDriver requests () := by
  induction requests with
  | nil => exact id
  | cons ns rest ih =>
      have hstuck : stuckDriver.setTckPeriod ns () = .ok (-1, ()) := rfl
      rw [grants_cons stuckDriver hstuck]
      simpa using ih

/-- One byte of ones, shifted with TMS low. -/
def shiftByte : DriverOp := .shiftBits ⟨8, fun _ => 0, fun _ => 0xff, ⟨.vector 0, 0⟩⟩

/-- The enforced period, the client's own and the default are refused, and each
time the shift still reaches the driver. -/
theorem shifts_untimed :
    ¬FirstShiftTimed stuckDriver 100 [shiftByte] () ∧
      ¬FirstShiftTimed stuckDriver 0 [.setTckPeriod 100, shiftByte] () ∧
      ¬FirstShiftTimed stuckDriver 0 [shiftByte] () := by
  have hnone (requests : List ℤ) := not_grants_stuckDriver requests
  refine ⟨?_, ?_, ?_⟩
  · rw [enforced_timed_iff _ (by decide)]
    simp [hnone, shiftByte, DriverOp.isShift]
  · rw [unenforced_timed_iff _ (by decide)]
    simp [hnone, shiftByte, DriverOp.isShift]
  · rw [unenforced_timed_iff _ (by decide)]
    simp [hnone, shiftByte, DriverOp.isShift]

end TinyXvc
