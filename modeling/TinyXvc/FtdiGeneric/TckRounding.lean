import TinyXvc.FtdiGeneric.PoolUse

/-!
# TCK periods on the wire

Which periods `set_tck_period` accepts without a trap, on any transport, and
what it sends and answers for them on a healthy link.
-/

namespace TinyXvc

open Mpsse ClockDivider

section Traps

variable {τ : Type} (io : D2xx τ) {s : Sys τ}

/-- `set_tck_period` after its arithmetic. -/
def sendDivider (highSpeedCapable : Bool) (setting : ℤ × ℤ) : Prog τ ℤ := do
  if ← ftBufferAddWriteToChip io (tckDivisorCmd setting.1.toNat highSpeedCapable)
      <&&> checkDeviceInSync io then
    pure setting.2
  else pure (-1)

theorem setTckPeriod_error {tckPeriodNs : ℤ} {e : Abort × Sys τ}
    (h : tckSetting (maxFreqMHz s.gFtdi.highSpeedCapable) tckPeriodNs s = .error e) :
    setTckPeriod io tckPeriodNs s = .error e := by
  rw [setTckPeriod, Exec.get_bind, Exec.bind_error h]

theorem setTckPeriod_eq {tckPeriodNs : ℤ} {setting : ℤ × ℤ}
    (h : tckSetting (σ := Sys τ) (maxFreqMHz s.gFtdi.highSpeedCapable) tckPeriodNs =
      pure setting) :
    setTckPeriod io tckPeriodNs s = sendDivider io s.gFtdi.highSpeedCapable setting s := by
  rw [setTckPeriod, Exec.get_bind, h, pure_bind, sendDivider]

/-- The frequency of the clock as a natural number. -/
def clockMHz (highSpeedCapable : Bool) : ℕ := if highSpeedCapable then 30 else 6

theorem maxFreqMHz_eq (highSpeedCapable : Bool) :
    maxFreqMHz highSpeedCapable = (clockMHz highSpeedCapable : ℤ) := by
  cases highSpeedCapable <;> rfl

theorem clockMHz_pos (highSpeedCapable : Bool) : 0 < clockMHz highSpeedCapable := by
  cases highSpeedCapable <;> decide

theorem sendDivider_noTrap (highSpeedCapable : Bool) (setting : ℤ × ℤ) :
    Exec.Preserves (fun _ => True) (fun e _ => ¬e.OfSetting)
      (sendDivider io highSpeedCapable setting) := by
  refine ((queue_noTrap io (.write _)).andM (checkDeviceInSync_noTrap io)).bind fun ok => ?_
  exact (Exec.Preserves.pure _).ite (Exec.Preserves.pure _)

/-- `set_tck_period` neither overflows nor traps exactly for these periods. -/
theorem set_tck_period_safe_iff (s : Sys τ) (tckPeriodNs : ℕ) :
    (∀ e t, setTckPeriod io tckPeriodNs s = .error (e, t) →
        e ≠ .signedOverflow ∧ e ≠ .unreachable) ↔
      1 ≤ tckPeriodNs ∧ clockMHz s.gFtdi.highSpeedCapable * tckPeriodNs ≤ intMax := by
  have hfreq := maxFreqMHz_eq s.gFtdi.highSpeedCapable
  have hpos := clockMHz_pos s.gFtdi.highSpeedCapable
  constructor
  · intro hsafe
    constructor
    · by_contra hzero
      have hzero' : tckPeriodNs = 0 := by omega
      have hsetting : tckSetting (maxFreqMHz s.gFtdi.highSpeedCapable) (0 : ℕ) s =
          .error (.unreachable, s) := by
        rw [hfreq, Nat.cast_zero, tckSetting_zero]
        rfl
      rw [hzero'] at hsafe
      exact (hsafe _ _ (setTckPeriod_error io hsetting)).2 rfl
    · by_contra hlarge
      have hover := tckSetting_overflow (Nat.lt_of_not_le hlarge) s
      rw [← hfreq] at hover
      exact (hsafe _ _ (setTckPeriod_error io hover)).1 rfl
  · rintro ⟨hone, hfit⟩ e t hrun
    have hsetting := tckSetting_eq (σ := Sys τ) hpos hone hfit
    rw [← hfreq] at hsetting
    rw [setTckPeriod_eq io hsetting] at hrun
    have hsend := sendDivider_noTrap io s.gFtdi.highSpeedCapable
      (((divider (clockMHz s.gFtdi.highSpeedCapable) 1000 maxDivider tckPeriodNs : ℕ) : ℤ),
        ((period (clockMHz s.gFtdi.highSpeedCapable) 1000
          (divider (clockMHz s.gFtdi.highSpeedCapable) 1000 maxDivider tckPeriodNs) : ℕ) : ℤ)) s
      trivial
    exact not_or.mp (Exec.wp_error hsend hrun)

end Traps

theorem exists_activated_fast :
    ∃ s, activate (link tdoHigh) ft2232hParams poweredUp = .ok (true, s) ∧
      s.gFtdi.highSpeedCapable = true := by
  obtain ⟨ok, s, hrun, htest⟩ := Exec.exists_ok_of_test
    (x := activate (link tdoHigh) ft2232hParams) (s := poweredUp)
    (fun ok s => ok && s.gFtdi.highSpeedCapable) (by decide +kernel)
  rw [Bool.and_eq_true] at htest
  obtain ⟨rfl, hspeed⟩ := htest
  exact ⟨s, hrun, hspeed⟩

/-- After `activate`, a request for 0 ns traps, and one for 71582789 ns overflows. -/
theorem set_tck_period_traps :
    ∃ s, activate (link tdoHigh) ft2232hParams poweredUp = .ok (true, s) ∧
      setTckPeriod (link tdoHigh) 0 s = .error (.unreachable, s) ∧
      setTckPeriod (link tdoHigh) 71582789 s = .error (.signedOverflow, s) := by
  obtain ⟨s, hrun, hspeed⟩ := exists_activated_fast
  have hfreq : maxFreqMHz s.gFtdi.highSpeedCapable = (30 : ℕ) := by
    rw [hspeed]
    rfl
  refine ⟨s, hrun, ?_, ?_⟩
  · apply setTckPeriod_error
    rw [hfreq, tckSetting_zero]
    rfl
  · apply setTckPeriod_error
    rw [hfreq]
    exact tckSetting_overflow (f := 30) (p := 71582789) (by decide) s

/-! ## Rounding -/

section Rounding

variable {dev : Device} {s : Sys Usb} {chip : ℕ}

theorem Linked.issued_flushed (h : Linked dev s) : (s.flushed dev).issued = s.issued := by
  have hwrite : (if s.buffer.txBuffer.isSome then
      [D2xxCall.write s.buffer.txData ⟨true, s.buffer.txData.length⟩] else []).flatMap
        D2xxCall.sent = s.buffer.txData := by
    cases hb : s.buffer.txBuffer with
    | none =>
        rw [h.txData_eq_nil hb]
        rfl
    | some addr => simp [D2xxCall.sent]
  have hread : (if s.buffer.rxBuffer.isSome then
      [D2xxCall.read s.buffer.rxNumBytes ⟨true, s.pendingReplies dev⟩] else []).flatMap
        D2xxCall.sent = [] := by
    split <;> rfl
  have hsent : (s.flushed dev).sent = s.sent ++ s.buffer.txData := by
    simp only [Sys.sent, Sys.flushed, Sys.written, List.flatMap_append, hwrite, hread,
      List.append_nil]
  rw [Sys.issued, hsent]
  exact List.append_nil _

theorem Linked.issued_ensured (h : Linked dev s) (m n : ℕ) :
    (s.ensured dev m n).issued = s.issued := by
  unfold Sys.ensured
  split
  · exact h.issued_flushed
  · rfl

theorem Linked.issued_enqueued (h : Linked dev s) {q : Request} :
    (s.enqueued dev q).issued = s.issued ++ q.txData := by
  cases q with
  | write cmd => rw [Sys.enqueued, issued_appended, h.issued_ensured]; rfl
  | readBits cmd e =>
      have hsame : ((s.withBitExtra e).ensured dev cmd.length 1).issued =
          (s.ensured dev cmd.length 1).issued := by
        unfold Sys.ensured
        split
        · rw [if_pos ‹_›]
          rfl
        · rw [if_neg ‹_›]
          rfl
      rw [Sys.enqueued, issued_appended, hsame, h.issued_ensured]
      rfl
  | readBytes txData rxData n =>
      rw [Sys.enqueued, issued_appended]
      congr 1
      exact h.issued_ensured _ _

/-- The command and the bad opcode after it are sent. -/
theorem silent_sync_issued (h : Linked dev s) {cmd : List UInt8} (hlen : cmd.length ≤ 4)
    (hsilent : Silent dev (s.settledEngine dev) cmd) :
    Exec.wp (ftBufferAddWriteToChip (link dev) cmd <&&> checkDeviceInSync (link dev))
      (fun _ s' => s'.issued = s.issued ++ (cmd ++ [0xab])) (fun _ _ => True) s := by
  have hchip := h.chip_bounds
  obtain ⟨hreplies, hawaiting, -⟩ := hsilent
  have hwrite : (Request.write cmd).Fits s.gFtdi.chipBufferBytes := by
    refine ⟨?_, Nat.zero_le _, trivial⟩
    change cmd.length ≤ s.gFtdi.chipBufferBytes
    omega
  unfold andM
  rw [Exec.wp_bind]
  refine Exec.wp_mono (Exec.wp_and (queue_spec h hwrite (congrArg List.length hreplies))
    ((Request.queue_keeps (link dev) (.write cmd)).wp s)) ?_ (fun _ _ _ => trivial)
  rintro ok t ⟨⟨rfl, rfl, hlinked, hsettled⟩, hkeep⟩
  have hengine : (s.enqueued dev (.write cmd)).settledEngine dev =
      (s.settledEngine dev).feed dev cmd := congrArg Prod.fst hsettled
  have hbad := (feed_badOpcode dev (e := (s.enqueued dev (.write cmd)).settledEngine dev)
    (by rw [hengine]; exact hawaiting)).2
  have hsync : (Request.readBytes [0xab] ⟨.resp, 0⟩ 2).Fits
      (s.enqueued dev (.write cmd)).gFtdi.chipBufferBytes := by
    have hchip' : (s.enqueued dev (.write cmd)).gFtdi.chipBufferBytes =
        s.gFtdi.chipBufferBytes := congrArg (fun p => p.1) hkeep
    rw [hchip']
    refine ⟨?_, ?_, by decide⟩
    · change 1 ≤ s.gFtdi.chipBufferBytes
      omega
    · change 2 ≤ s.gFtdi.chipBufferBytes
      omega
  change Exec.wp (checkDeviceInSync (link dev)) _ _ (s.enqueued dev (.write cmd))
  unfold checkDeviceInSync
  dsimp only
  rw [Exec.wp_bind]
  refine Exec.wp_mono (queue_spec hlinked hsync (congrArg List.length hbad)) ?_
    (fun _ _ _ => trivial)
  rintro ok u ⟨rfl, rfl, hlinked', -⟩
  rw [if_pos rfl, Exec.wp_bind_ok (ftBufferFlush_eq hlinked'), if_pos rfl]
  change (Sys.flushed dev _).issued = _
  rw [hlinked'.issued_flushed, hlinked.issued_enqueued, h.issued_enqueued, List.append_assoc]
  rfl

/-- The state between two calls, for either speed of the chip. -/
structure Settable (dev : Device) (chip : ℕ) (s : Sys Usb) : Prop where
  ready : Ready dev chip s
  idle : PoolsIdle s
  drained : s.buffer.txData = []

/-- The driver of a chip with the other maximum frequency. -/
def Sys.atSpeed (s : Sys Usb) (highSpeedCapable : Bool) : Sys Usb :=
  { s with gFtdi := { s.gFtdi with highSpeedCapable := highSpeedCapable } }

/-- What `set_tck_period` sends for the divider `d`, with the bad opcode of the
sync check. -/
def dividerBytes (highSpeedCapable : Bool) (d : ℕ) : List UInt8 :=
  [0x86, UInt8.ofNat (d % 256), UInt8.ofNat (d / 256)] ++
    (if highSpeedCapable then [0x8a] else []) ++ [0xab]

theorem tckDivisorCmd_eq (highSpeedCapable : Bool) (d : ℕ) :
    tckDivisorCmd d highSpeedCapable ++ [0xab] = dividerBytes highSpeedCapable d := by
  have hlow : UInt8.ofNat d = UInt8.ofNat (d % 256) := by
    apply UInt8.toNat.inj
    simp [UInt8.toNat_ofNat']
  have hhigh : UInt8.ofNat (d >>> 8) = UInt8.ofNat (d / 256) := by
    rw [Nat.shiftRight_eq_div_pow]
  rw [dividerBytes, ← hlow, ← hhigh]
  cases highSpeedCapable <;> rfl

/-- The speed of the chip plays no part between two calls. -/
theorem Settable.atSpeed (h : Settable dev chip s) (highSpeedCapable : Bool) :
    Settable dev chip (s.atSpeed highSpeedCapable) :=
  ⟨⟨{ h.ready.linked with }, h.ready.awaiting, h.ready.chip⟩, { h.idle with }, h.drained⟩

/-- One call of `set_tck_period` on a healthy link. -/
theorem Settable.set (h : Settable dev chip s) {p : ℕ} (hp : 0 < p)
    (hfit : clockMHz s.gFtdi.highSpeedCapable * p ≤ intMax) :
    ∃ t, setTckPeriod (link dev) p s =
        .ok ((period (clockMHz s.gFtdi.highSpeedCapable) 1000
          (divider (clockMHz s.gFtdi.highSpeedCapable) 1000 maxDivider p) : ℕ), t) ∧
      t.sent = s.sent ++ dividerBytes s.gFtdi.highSpeedCapable
        (divider (clockMHz s.gFtdi.highSpeedCapable) 1000 maxDivider p) ∧
      Settable dev chip t ∧ t.gFtdi.highSpeedCapable = s.gFtdi.highSpeedCapable := by
  obtain ⟨⟨hlinked, hawaiting, rfl⟩, hidle, hdrained⟩ := h
  have hsetting := tckSetting_eq (σ := Sys Usb) (clockMHz_pos s.gFtdi.highSpeedCapable) hp hfit
  rw [← maxFreqMHz_eq] at hsetting
  rw [setTckPeriod_eq (link dev) hsetting]
  generalize divider (clockMHz s.gFtdi.highSpeedCapable) 1000 maxDivider p = d
  have hlen : (tckDivisorCmd d s.gFtdi.highSpeedCapable).length ≤ 4 := List.length_take_le' _ _
  have hsilent := silent_tckDivisorCmd dev hawaiting d s.gFtdi.highSpeedCapable
  obtain ⟨hfeed, -⟩ := feed_tckDivisorCmd dev hawaiting d s.gFtdi.highSpeedCapable
  obtain ⟨ok, t, hrun, hq⟩ := Exec.exists_ok (Exec.wp_mono
    (Exec.wp_and (silent_sync_issued hlinked hlen hsilent)
      (Exec.wp_and (silent_sync_spec hlinked hlen hsilent)
        (silent_sync_pool hlinked hlen hsilent hidle)))
    (fun _ _ hq => hq) (fun _ _ he => he.2.2))
  obtain ⟨hissued, ⟨rfl, hlinked', hkeep, hdrained', hengine⟩, hidle'⟩ := hq
  refine ⟨t, ?_, ?_, ⟨⟨hlinked', ?_, congrArg (fun p => p.1) hkeep⟩, hidle', hdrained'⟩,
    congrArg (fun p => p.2.1) hkeep⟩
  · rw [sendDivider]
    exact Exec.bind_ok hrun
  · rw [tckDivisorCmd_eq, Sys.issued, Sys.issued, hdrained', hdrained, List.append_nil,
      List.append_nil] at hissued
    exact hissued
  · rw [hengine, hfeed]
    exact hawaiting

theorem Reachable.settable {p : FtParams} {s₀ : Sys Usb} (h₀ : PoweredUp s₀)
    (h : Reachable dev p s₀ s) : Settable dev p.device.chipBufferBytes s :=
  ⟨(h.inStep h₀ .testLogicReset).toReady, h.poolsIdle h₀, (h.inStep h₀ .testLogicReset).drained⟩

theorem clockMHz_le (highSpeedCapable : Bool) : clockMHz highSpeedCapable ≤ 1000 := by
  cases highSpeedCapable <;> decide

/-- Asking for an answer again overflows no `int`. -/
theorem answer_fits (highSpeedCapable : Bool) {d : ℕ} (hd : d ≤ maxDivider) :
    clockMHz highSpeedCapable * period (clockMHz highSpeedCapable) 1000 d ≤ intMax := by
  obtain ⟨hlow, -⟩ := period_bounds (u := 1000) (d := d) (clockMHz_pos highSpeedCapable)
  rw [maxDivider] at hd
  rw [intMax]
  omega

/-- `set_tck_period` sends the divider of the least period not below the request,
or the greatest divider; its answer is that period rounded down, grows with the
request, and may be requested again. -/
theorem set_tck_period_nearest {p : FtParams} {s₀ : Sys Usb} (h₀ : PoweredUp s₀)
    (h : Reachable dev p s₀ s) (highSpeedCapable : Bool) {tckPeriodNs : ℕ} (hone : 1 ≤ tckPeriodNs)
    (hfit : clockMHz highSpeedCapable * tckPeriodNs ≤ intMax) :
    ∃ (d actual : ℕ) (t : Sys Usb),
      setTckPeriod (link dev) tckPeriodNs (s.atSpeed highSpeedCapable) = .ok (actual, t) ∧
      t.sent = s.sent ++ dividerBytes highSpeedCapable d ∧
      Nearest (clockMHz highSpeedCapable) 1000 maxDivider tckPeriodNs d ∧
      actual = period (clockMHz highSpeedCapable) 1000 d ∧
      (tckPeriodNs ≤ actual ∨ d = maxDivider ∧
        ∀ d' ≤ maxDivider, exactPeriod (clockMHz highSpeedCapable) 1000 d' < tckPeriodNs) ∧
      (∀ s' tckPeriodNs' answer t', Reachable dev p s₀ s' → tckPeriodNs ≤ tckPeriodNs' →
        clockMHz highSpeedCapable * tckPeriodNs' ≤ intMax →
        setTckPeriod (link dev) tckPeriodNs' (s'.atSpeed highSpeedCapable) = .ok (answer, t') →
        (actual : ℤ) ≤ answer) ∧
      ∃ t', setTckPeriod (link dev) actual t = .ok (actual, t') ∧
        t'.sent = t.sent ++ dividerBytes highSpeedCapable d := by
  have hpos := clockMHz_pos highSpeedCapable
  have hle := clockMHz_le highSpeedCapable
  have hnearest := nearest_divider (m := maxDivider) hpos (by decide : 0 < 1000) hone
  obtain ⟨t, hrun, hsent, hset, hspeed⟩ :=
    ((h.settable h₀).atSpeed highSpeedCapable).set hone hfit
  refine ⟨divider (clockMHz highSpeedCapable) 1000 maxDivider tckPeriodNs, _, t, hrun, hsent,
    hnearest, rfl, ?_, ?_, ?_⟩
  · rcases hnearest.nearest with ⟨hge, -⟩ | hclamped
    · exact .inl ((le_period_iff hpos).mpr hge)
    · exact .inr hclamped
  · intro s' tckPeriodNs' answer t' h' hnext hfit' hrun'
    obtain ⟨_, hrun'', -⟩ :=
      ((h'.settable h₀).atSpeed highSpeedCapable).set (hone.trans hnext) hfit'
    cases hrun''.symm.trans hrun'
    exact_mod_cast period_mono (divider_mono hnext)
  · have hagain := divider_period (m := maxDivider) hpos hle hnearest.le_max
    have hspeed' : t.gFtdi.highSpeedCapable = highSpeedCapable := hspeed
    obtain ⟨t', hrun', hsent', -⟩ := hset.set (period_pos hpos hle)
      (by rw [hspeed']; exact answer_fits highSpeedCapable hnearest.le_max)
    rw [hspeed', hagain] at hrun' hsent'
    exact ⟨t', hrun', hsent'⟩

end Rounding

/-- After `activate`, 90 ns are rounded up to 100 ns, the period of the divider 2. -/
theorem set_tck_period_nearest_90 :
    ∃ s, activate (link tdoHigh) ft2232hParams poweredUp = .ok (true, s) ∧
      ∃ (d actual : ℕ) (t : Sys Usb),
        setTckPeriod (link tdoHigh) (90 : ℕ) (s.atSpeed true) = .ok (actual, t) ∧
        t.sent = s.sent ++ dividerBytes true d ∧ Nearest 30 1000 maxDivider 90 d := by
  obtain ⟨s, hrun⟩ := exists_activated
  obtain ⟨d, actual, t, hset, hsent, hnearest, -⟩ :=
    set_tck_period_nearest poweredUp_poweredUp (.activate hrun) true (show 1 ≤ 90 by decide)
      (by decide)
  exact ⟨s, hrun, d, actual, t, hset, hsent, hnearest⟩

end TinyXvc
