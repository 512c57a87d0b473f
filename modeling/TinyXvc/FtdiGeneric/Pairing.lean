import TinyXvc.FtdiGeneric.Contract

/-!
# Writes fit the chip, and reads meet their replies

In every run of the driver on a healthy link, also in one that ends for lack of
pool memory, each flush finds the chip ready for what it writes, and exactly
the replies that it reads.
-/

namespace TinyXvc

open Mpsse

/-- A run of the driver. -/
def driverRun {τ : Type} (io : D2xx τ) (p : FtParams) (ops : List DriverOp) : Prog τ Unit := do
  let _ ← activate io p
  ops.forM (DriverOp.perform io)

variable {dev : Device} {chip : ℕ} {s : Sys Usb}

theorem callback_ready (e : JtagSplitEvent) :
    Exec.Preserves (Ready dev chip) (fun _ => FlushesSafe dev chip)
      (jtagSplitterCallback (link dev) e) := by
  intro s hs
  obtain ⟨hlinked, hawaiting, rfl⟩ := hs
  have hrefused : ∀ (text : String) (x : Prog Usb Bool),
      Exec.wp (alwaysAssert false text >>= fun _ => x)
      (fun _ s' => Ready dev s.gFtdi.chipBufferBytes s')
      (fun _ => FlushesSafe dev s.gFtdi.chipBufferBytes) s := fun _ _ => hlinked.flushes
  cases e with
  | shiftTms tms a b =>
      by_cases hab : a < b
      · refine Exec.wp_mono (callback_tms hlinked hawaiting tms hab) ?_ (fun _ _ he => he.2)
        rintro ok t ⟨-, hlinked', hfixed, hsettled⟩
        refine ⟨hlinked', ?_, congrArg (fun p => p.1) hfixed⟩
        exact congrArg (fun p => p.1.awaiting) hsettled
      · unfold jtagSplitterCallback appendTmsShiftToTransaction
        dsimp only
        rw [decide_eq_false hab]
        exact hrefused _ _
  | shiftTdi tdi tdo a b incomplete =>
      by_cases hab : a < b
      · refine Exec.wp_mono
          (callback_tdi hlinked hawaiting ⟨tdi, tdo, a, b, !incomplete⟩ hab) ?_ (fun _ _ he => he.2)
        rintro ok t ⟨-, hlinked', hfixed, ls, -, hengine, -⟩
        refine ⟨hlinked', ?_, congrArg (fun p => p.1) hfixed⟩
        rw [hengine]
        rfl
      · unfold jtagSplitterCallback appendTdiShiftToTransaction
        dsimp only
        rw [decide_eq_false hab]
        exact hrefused _ _
  | flushAll =>
      rw [Exec.wp, callback_flush hlinked]
      exact ⟨hlinked.flushedAll, hawaiting, rfl⟩

theorem shiftBits_ready (r : SplitRequest) :
    Exec.Preserves (Ready dev chip) (fun _ => FlushesSafe dev chip) (shiftBits (link dev) r) := by
  refine Exec.Preserves.get.bind fun s => Exec.Preserves.bind ?_ fun p => ?_
  · exact process_preserves _ r callback_ready (fun _ _ h => h.flushesSafe) _
  · refine Exec.Preserves.bind (Exec.Preserves.modifyGet fun t ht => ?_) fun _ =>
      Exec.Preserves.pure _
    exact ⟨{ ht.linked with }, ht.awaiting, ht.chip⟩

theorem setTckPeriod_ready (tckPeriodNs : ℤ) :
    Exec.Preserves (Ready dev chip) (fun _ => FlushesSafe dev chip)
      (setTckPeriod (link dev) tckPeriodNs) :=
  fun _ hs => Exec.wp_mono (setTckPeriod_spec hs tckPeriodNs) (fun _ _ h => h.1) (fun _ _ he => he)

theorem activate_ready (p : FtParams) (h : PoweredUp s) :
    Exec.wp (activate (link dev) p) (fun _ s' => Ready dev p.device.chipBufferBytes s')
      (fun _ => FlushesSafe dev p.device.chipBufferBytes) s := by
  refine Exec.wp_mono (activate_spec .testLogicReset p h) ?_ (fun _ _ he => he.2)
  rintro ok t ⟨-, -, hstep⟩
  exact hstep.toReady

/-- At every flush of every run of the driver, the write and the replies to it
fit the chip's buffers, and the replies are the ones that are read. -/
theorem flushes_safe (dev : Device) (p : FtParams) (ops : List DriverOp) {s : Sys Usb}
    (h : PoweredUp s) :
    Exec.wp (driverRun (link dev) p ops)
      (fun _ s' => FlushesSafe dev p.device.chipBufferBytes s' ∧ ∀ c ∈ s'.calls, c.inFull = true)
      (fun _ s' => FlushesSafe dev p.device.chipBufferBytes s') s := by
  have hops : ∀ ops : List DriverOp, Exec.Preserves (Ready dev p.device.chipBufferBytes)
      (fun _ => FlushesSafe dev p.device.chipBufferBytes)
      (ops.forM (DriverOp.perform (link dev))) := by
    intro ops
    induction ops with
    | nil => exact Exec.Preserves.pure _
    | cons op ops ih =>
        change Exec.Preserves _ _ (op.perform (link dev) >>= fun _ => ops.forM _)
        refine Exec.Preserves.bind ?_ fun _ => ih
        cases op with
        | setTckPeriod ns => exact (setTckPeriod_ready ns).bind fun _ => Exec.Preserves.pure _
        | shiftBits r => exact (shiftBits_ready r).bind fun _ => Exec.Preserves.pure _
  unfold driverRun
  rw [Exec.wp_bind]
  refine Exec.wp_mono (activate_ready p h) ?_ (fun _ _ he => he)
  intro _ t ht
  refine Exec.wp_mono (hops ops t ht) ?_ (fun _ _ he => he)
  intro _ u hu
  exact ⟨hu.flushesSafe, hu.linked.calls⟩

/-- `activate`, one change of the period and a vector that shifts. -/
theorem flushes_safe_session :
    Exec.wp (driverRun (link tdoHigh) ft2232hParams [.setTckPeriod 100, .shiftBits scanFour])
      (fun _ s' => FlushesSafe tdoHigh ft2232hParams.device.chipBufferBytes s' ∧
        ∀ c ∈ s'.calls, c.inFull = true)
      (fun _ s' => FlushesSafe tdoHigh ft2232hParams.device.chipBufferBytes s') poweredUp :=
  @flushes_safe tdoHigh ft2232hParams [.setTckPeriod 100, .shiftBits scanFour] poweredUp
    poweredUp_poweredUp

end TinyXvc
