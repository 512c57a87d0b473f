import TinyXvc.DriverWrapper
import TinyXvc.Drivers
import TinyXvc.FtdiGeneric.TckRounding

/-!
# Enforced TCK periods

With an enforced period, the wrapper is meant to keep every later request for a
period from the driver.  It does so when the driver's answer to the enforced
period is that period, and not when the driver rounds it.
-/

namespace TinyXvc

variable {ε δ : Type}

/-- The periods that the driver was asked for. -/
def requestedPeriods (events : List DriverEvent) : List ℤ :=
  events.filterMap fun e =>
    match e with
    | .call (.setTckPeriod tckPeriodNs) => some tckPeriodNs
    | _ => none

@[simp] theorem requestedPeriods_append (es fs : List DriverEvent) :
    requestedPeriods (es ++ fs) = requestedPeriods es ++ requestedPeriods fs :=
  List.filterMap_append ..

def Wrapped.periods (s : Wrapped δ) : List ℤ := requestedPeriods s.events

/-- The driver has been asked for exactly these periods, and no client call
reaches its `set_tck_period`. -/
structure Sealed (ps : List ℤ) (s : Wrapped δ) : Prop where
  setTckPeriod : s.setTckPeriod = .noop
  shiftBits : s.shiftBits = .orig
  periods : s.periods = ps

variable (d : TxvcDriver ε δ) {ps : List ℤ}

theorem wrapperPerform_sealed (op : DriverOp) :
    Exec.Preserves (Sealed ps) (fun _ => Sealed ps) (wrapperPerform d op) := by
  intro s hs
  cases op with
  | setTckPeriod ns =>
      simp only [wrapperPerform, wrapperSetTckPeriod, Exec.wp_bind, Exec.wp_get, hs.setTckPeriod]
      exact hs
  | shiftBits r =>
      simp only [wrapperPerform, wrapperShiftBits, Exec.wp_bind, Exec.wp_get, hs.shiftBits,
        origShiftBits, wp_reach]
      refine Exec.wp_always (fun ok t => ?_) (fun e t => ?_)
      · exact ⟨hs.setTckPeriod, hs.shiftBits, by simpa [Wrapped.periods, Wrapped.record,
          requestedPeriods] using hs.periods⟩
      · exact ⟨hs.setTckPeriod, hs.shiftBits, by simpa [Wrapped.periods, Wrapped.record,
          requestedPeriods] using hs.periods⟩

theorem clientRun_sealed (ops : List DriverOp) :
    Exec.Preserves (Sealed ps) (fun _ => Sealed ps) (clientRun d ops) := by
  induction ops with
  | nil => exact Exec.Preserves.pure _
  | cons op ops ih =>
      unfold clientRun
      rw [List.mapM_cons]
      exact (wrapperPerform_sealed d op).bind fun _ => ih.bind fun _ => Exec.Preserves.pure _

/-- Without a wrapper in the way, a request of the client reaches the driver. -/
theorem wrapperPerform_orig {s : Wrapped δ} (h : s.setTckPeriod = .orig) (ns : ℤ) :
    Exec.wp (wrapperPerform d (.setTckPeriod ns)) (fun _ t => t.periods = s.periods ++ [ns])
      (fun _ t => t.periods = s.periods ++ [ns]) s := by
  simp only [wrapperPerform, wrapperSetTckPeriod, Exec.wp_bind, Exec.wp_get, h, origSetTckPeriod,
    wp_reach, Exec.wp_pure]
  refine Exec.wp_always (fun actual t => ?_) (fun e t => ?_)
  · simp [Wrapped.periods, Wrapped.record, requestedPeriods]
  · simp [Wrapped.periods, Wrapped.record, requestedPeriods]

/-- In every run of a client after the setup, the driver is asked for no period
but the enforced one. -/
def PeriodEnforced (fixedTckPeriod : ℤ) (s : Wrapped δ) : Prop :=
  ∀ ops : List DriverOp,
    Exec.wp (do txvcDriverWrapperSetup d fixedTckPeriod; clientRun d ops)
      (fun _ t => t.periods = s.periods ++ [fixedTckPeriod])
      (fun _ t => t.periods = s.periods ++ [fixedTckPeriod]) s

theorem Wrapped.periods_setUp (s : Wrapped δ) (fixedTckPeriod actual : ℤ) (driver : δ) :
    (s.setUp fixedTckPeriod actual driver).periods = s.periods ++ [fixedTckPeriod] := by
  simp [Wrapped.periods, Wrapped.setUp, requestedPeriods]

theorem enforced_of_exact {fixedTckPeriod : ℤ} {s : Wrapped δ} {driver : δ}
    (hfixed : 0 < fixedTckPeriod)
    (haccept : d.setTckPeriod fixedTckPeriod s.driver = .ok (fixedTckPeriod, driver)) :
    PeriodEnforced d fixedTckPeriod s := by
  intro ops
  rw [Exec.wp_bind_ok (setup_eq d hfixed haccept)]
  have hsealed : Sealed (s.periods ++ [fixedTckPeriod])
      (s.setUp fixedTckPeriod fixedTckPeriod driver) :=
    ⟨if_pos rfl, rfl, s.periods_setUp _ _ _⟩
  exact Exec.wp_mono (clientRun_sealed d ops _ hsealed) (fun _ _ h => h.periods)
    (fun _ _ h => h.periods)

theorem not_enforced_of_rounded {fixedTckPeriod actual : ℤ} {s : Wrapped δ} {driver : δ}
    (hfixed : 0 < fixedTckPeriod)
    (haccept : d.setTckPeriod fixedTckPeriod s.driver = .ok (actual, driver))
    (hne : actual ≠ fixedTckPeriod) : ¬PeriodEnforced d fixedTckPeriod s := by
  intro h
  -- a client that asks for any period reaches the driver
  have hrun := h [.setTckPeriod 1]
  rw [Exec.wp_bind_ok (setup_eq d hfixed haccept), clientRun, List.mapM_cons, Exec.wp_bind] at hrun
  have hreached := wrapperPerform_orig d (s := s.setUp fixedTckPeriod actual driver)
    (if_neg hne) 1
  rw [Wrapped.periods_setUp] at hreached
  have hboth := Exec.wp_and hrun hreached
  refine Exec.not_wp_false (Exec.wp_mono hboth ?_ ?_)
  · rintro a t ⟨hkept, hmore⟩
    have hkept' : t.periods = s.periods ++ [fixedTckPeriod] := hkept
    simp [hmore] at hkept'
  · rintro e t ⟨hkept, hmore⟩
    simp [hmore] at hkept

/-- A driver that accepts the enforced period is never asked for another exactly
if it answers with that period. -/
theorem period_enforced_iff {fixedTckPeriod actual : ℤ} {s : Wrapped δ} {driver : δ}
    (hfixed : 0 < fixedTckPeriod)
    (haccept : d.setTckPeriod fixedTckPeriod s.driver = .ok (actual, driver)) :
    PeriodEnforced d fixedTckPeriod s ↔ actual = fixedTckPeriod := by
  constructor
  · intro h
    by_contra hne
    exact not_enforced_of_rounded d hfixed haccept hne h
  · rintro rfl
    exact enforced_of_exact d hfixed haccept

/-- The echo driver answers every request with the requested period. -/
theorem period_enforced_iff_echo :
    PeriodEnforced driverEcho 90 (.initial fun _ _ => 0) ↔ (90 : ℤ) = 90 :=
  period_enforced_iff driverEcho (by decide) rfl

open ClockDivider

/-- The periods that the FTDI driver keeps are those that it reports for some
divider. -/
theorem ftdi_period_enforced_iff {dev : Mpsse.Device} {p : FtParams} {s₀ s : Sys Usb}
    (h₀ : PoweredUp s₀) (h : Reachable dev p s₀ s) (highSpeedCapable : Bool)
    {ns : ℕ} (hone : 1 ≤ ns)
    (hfit : clockMHz highSpeedCapable * ns ≤ intMax) :
    PeriodEnforced (driverFtdiGeneric (link dev)) ns (.initial (s.atSpeed highSpeedCapable)) ↔
      ∃ divider ≤ maxDivider, ns = period (clockMHz highSpeedCapable) 1000 divider := by
  have hpos := clockMHz_pos highSpeedCapable
  have hfixed : 0 < (ns : ℤ) := by exact_mod_cast hone
  obtain ⟨t, hrun, -⟩ := ((h.settable h₀).atSpeed highSpeedCapable).set hone hfit
  constructor
  · intro henforced
    by_contra hnone
    refine not_enforced_of_rounded _ hfixed hrun ?_ henforced
    intro hexact
    exact hnone ⟨_, min_le_right _ _, by exact_mod_cast hexact.symm⟩
  · rintro ⟨divider, hd, rfl⟩
    have hagain := divider_period (m := maxDivider) hpos (clockMHz_le highSpeedCapable) hd
    have hspeed : (s.atSpeed highSpeedCapable).gFtdi.highSpeedCapable = highSpeedCapable := rfl
    rw [hspeed, hagain] at hrun
    exact enforced_of_exact _ hfixed hrun

/-- The FTDI driver rounds 90 ns to 100 ns, and is asked again. -/
theorem rounded_period_not_enforced :
    ∃ s, activate (link tdoHigh) ft2232hParams poweredUp = .ok (true, s) ∧
      (∃ t, setTckPeriod (link tdoHigh) (90 : ℕ) s = .ok ((100 : ℕ), t)) ∧
      ¬PeriodEnforced (driverFtdiGeneric (link tdoHigh)) (90 : ℕ) (.initial s) := by
  obtain ⟨s, hrun, hspeed⟩ := exists_activated_fast
  have hset : Settable tdoHigh _ s := Reachable.settable poweredUp_poweredUp (.activate hrun)
  obtain ⟨t, hround, -⟩ := hset.set (p := 90) (by decide) (by rw [hspeed]; decide)
  have hdivider :
      period (clockMHz true) 1000 (divider (clockMHz true) 1000 maxDivider 90) = 100 := by
    decide
  rw [hspeed, hdivider] at hround
  exact ⟨s, hrun, ⟨t, hround⟩, not_enforced_of_rounded _ (by decide) hround (by decide)⟩

end TinyXvc
