import TinyXvc.FtdiGeneric.Shifts

/-!
# The operations of the driver on a healthy link

Lists of requests, the events of the splitter and the two other operations keep
the invariant of the link; they succeed unless a pool is exhausted.
-/

namespace TinyXvc

open Mpsse

/-- An abort for lack of pool memory, before any flush went wrong. -/
def OomSafe (dev : Device) (chipBufferBytes : ℕ) (e : Abort) (s' : Sys Usb) : Prop :=
  (∃ n, e = .oom n) ∧ ∀ f ∈ s'.flushes, FlushSafe dev chipBufferBytes f

variable {dev : Device} {s : Sys Usb}

theorem PoolOom.oomSafe {t s' : Sys Usb} {e : Abort} (h : PoolOom dev s t e s') :
    OomSafe dev s.gFtdi.chipBufferBytes e s' := by
  obtain ⟨hflushes, ⟨rfl, -⟩ | ⟨rfl, -⟩⟩ := h
  · exact ⟨⟨_, rfl⟩, hflushes⟩
  · exact ⟨⟨_, rfl⟩, hflushes⟩

theorem request_spec (h : Linked dev s) {q : Request} (hfits : q.Fits s.gFtdi.chipBufferBytes)
    (hreplies : ((s.settledEngine dev).replies dev q.txData).length = q.rxNumBytes) :
    Exec.wp (q.queue (link dev))
      (fun ok s' => ok = true ∧ Linked dev s' ∧ s'.settings = s.settings ∧
        s'.settled dev = q.exec dev (s.settled dev))
      (OomSafe dev s.gFtdi.chipBufferBytes) s := by
  refine Exec.wp_mono (Exec.wp_and (queue_spec h hfits hreplies)
    ((Request.queue_keeps (link dev) q).wp s)) ?_ ?_
  · rintro ok t ⟨⟨rfl, -, hlinked, hsettled⟩, hkeep⟩
    exact ⟨rfl, hlinked, hkeep, hsettled⟩
  · rintro e s' ⟨hoom, -⟩
    exact hoom.oomSafe

/-- A list of requests is executed in the settled view. -/
theorem requests_spec (h : Linked dev s) {qs : List Request}
    (hfits : ∀ q ∈ qs, q.Fits s.gFtdi.chipBufferBytes)
    (hpair : WellPaired dev (s.settledEngine dev) qs) :
    Exec.wp (qs.allM (Request.queue (link dev)))
      (fun ok s' => ok = true ∧ Linked dev s' ∧ s'.settings = s.settings ∧
        s'.settled dev = qs.foldl (Request.exec dev) (s.settled dev))
      (OomSafe dev s.gFtdi.chipBufferBytes) s := by
  induction qs generalizing s with
  | nil => exact ⟨rfl, h, rfl, rfl⟩
  | cons q qs ih =>
      obtain ⟨hreplies, hrest⟩ := hpair
      rw [List.allM_cons, Exec.wp_bind]
      refine Exec.wp_mono (request_spec h (hfits q List.mem_cons_self) hreplies) ?_
        (fun _ _ hoom => hoom)
      rintro ok t ⟨rfl, hlinked, hkeep, hsettled⟩
      have hchip : t.gFtdi.chipBufferBytes = s.gFtdi.chipBufferBytes :=
        congrArg (fun p => p.1) hkeep
      have hengine : t.settledEngine dev = (s.settledEngine dev).feed dev q.txData :=
        congrArg Prod.fst hsettled
      have hspec := ih hlinked
        (by rw [hchip]; exact fun q' hq' => hfits q' (List.mem_cons_of_mem q hq'))
        (by rw [hengine]; exact hrest)
      rw [hchip, hkeep, hsettled] at hspec
      exact hspec

theorem fits_tmsRequests (tms : Octets) (lastTdi : Bool) (a b : ℕ) {chip : ℕ} (hchip : 3 ≤ chip) :
    ∀ q ∈ tmsRequests tms lastTdi a b, q.Fits chip := by
  induction hn : b - a using Nat.strong_induction_on generalizing a with
  | _ n ih =>
      intro q hq
      rw [tmsRequests] at hq
      split at hq
      · rcases List.mem_cons.mp hq with rfl | hq
        · exact ⟨hchip, Nat.zero_le _, trivial⟩
        · exact ih _ (by omega) _ rfl q hq
      · cases hq

theorem fits_requests (t : TdiShift) (h : t.fromBitIdx < t.toBitIdx) {chip : ℕ} (hchip : 3 ≤ chip) :
    ∀ q ∈ t.requests chip, q.Fits chip := by
  obtain ⟨-, hlead, htrail, -⟩ := t.split_cases h
  have hinner : ∀ n octet, ∀ q ∈ t.innerRequests chip octet n, q.Fits chip := by
    intro n
    induction n using Nat.strong_induction_on with
    | _ n ih =>
        intro octet q hq
        rw [TdiShift.innerRequests] at hq
        split at hq
        · simp only [List.mem_cons] at hq
          rcases hq with rfl | rfl | hq
          · exact ⟨hchip, Nat.zero_le _, trivial⟩
          · refine ⟨?_, ?_, ?_⟩
            · simp [Request.txData]
            · simp [Request.rxNumBytes]
            · dsimp only
              omega
          · exact ih _ (by omega) _ q hq
        · cases hq
  intro q hq
  simp only [TdiShift.requests, List.mem_append, List.mem_singleton] at hq
  rcases hq with (hq | hq) | hq | rfl
  · unfold TdiShift.leadingRequests at hq
    dsimp only at hq
    split at hq
    · rw [List.mem_singleton] at hq
      subst hq
      refine ⟨hchip, by change 1 ≤ chip; omega, ?_⟩
      dsimp only
      omega
    · cases hq
  · exact hinner _ _ q hq
  · unfold TdiShift.trailingRequests at hq
    dsimp only at hq
    split at hq
    · rw [List.mem_singleton] at hq
      subst hq
      refine ⟨hchip, by change 1 ≤ chip; omega, ?_⟩
      dsimp only
      omega
    · cases hq
  · exact ⟨hchip, by change 1 ≤ chip; omega, le_rfl⟩

/-! ## The events of the splitter -/

def Driver.fixed (d : Driver) : ℕ × Bool × JtagSplitter :=
  (d.chipBufferBytes, d.highSpeedCapable, d.jtagSplitter)

theorem callback_tms (h : Linked dev s) (he : (s.settledEngine dev).awaiting = .opcode)
    (tms : Octets) {a b : ℕ} (hab : a < b) :
    Exec.wp (jtagSplitterCallback (link dev) (.shiftTms tms a b))
      (fun ok s' => ok = true ∧ Linked dev s' ∧ s'.gFtdi.fixed = s.gFtdi.fixed ∧
        s'.settled dev =
          ((s.settledEngine dev).clocked dev (levels (tmsShiftLevel tms s.gFtdi.lastTdi) a (b - a)),
            s.settledMem dev))
      (OomSafe dev s.gFtdi.chipBufferBytes) s := by
  obtain ⟨hpair, hexec⟩ := exec_tmsRequests dev he tms s.gFtdi.lastTdi a b
    (s.settledMem dev)
  have hspec := requests_spec h (fits_tmsRequests tms s.gFtdi.lastTdi a b
    (by have := h.chip_bounds; omega)) hpair
  rw [Sys.settled, hexec] at hspec
  have heq : jtagSplitterCallback (link dev) (.shiftTms tms a b) s =
      (tmsRequests tms s.gFtdi.lastTdi a b).allM (Request.queue (link dev)) s :=
    appendTmsShift_eq (link dev) tms hab s
  rw [Exec.wp, heq]
  refine Exec.wp_mono hspec ?_ (fun _ _ hoom => hoom)
  rintro ok s' ⟨rfl, hlinked, hkeep, hsettled⟩
  have hfixed : s'.gFtdi.fixed = s.gFtdi.fixed := congrArg (fun p => (p.1, p.2.1, p.2.2.1)) hkeep
  exact ⟨rfl, hlinked, hfixed, hsettled⟩

theorem callback_tdi (h : Linked dev s) (he : (s.settledEngine dev).awaiting = .opcode)
    (t : TdiShift) (hab : t.fromBitIdx < t.toBitIdx) :
    Exec.wp (appendTdiShiftToTransaction (link dev) t)
      (fun ok s' => ok = true ∧ Linked dev s' ∧ s'.gFtdi.fixed = s.gFtdi.fixed ∧
        ∃ ls, ls = levels (t.level (s.settledEngine dev).tmsLevel) t.fromBitIdx
            (t.toBitIdx - t.fromBitIdx) ∧
          s'.settledEngine dev = (s.settledEngine dev).clocked dev ls ∧
          Stored (s.settledMem dev) (s'.settledMem dev) t.tdo t.fromBitIdx
            ((dev.clock (s.settledEngine dev).cycles ls).map Cycle.tdo))
      (OomSafe dev s.gFtdi.chipBufferBytes) s := by
  have hchip := h.chip_bounds
  obtain ⟨hpair, hengine, hstored⟩ := t.segment dev hab
    (show 0 < s.gFtdi.chipBufferBytes by omega) (by omega) he rfl (s.settledMem dev)
  have hspec := requests_spec h (fits_requests t hab (by omega)) hpair
  rw [Exec.wp, appendTdiShift_eq (link dev) hab s (by omega)]
  change Exec.wp _ _ _ _
  rw [Exec.wp_bind]
  refine Exec.wp_mono hspec ?_ (fun _ _ hoom => hoom)
  rintro ok s' ⟨rfl, hlinked, hkeep, hsettled⟩
  have hfixed : s'.gFtdi.fixed = s.gFtdi.fixed := congrArg (fun p => (p.1, p.2.1, p.2.2.1)) hkeep
  refine ⟨rfl, { hlinked with }, hfixed, _, rfl, ?_, ?_⟩
  · rw [← hengine]
    exact congrArg Prod.fst hsettled
  · have hmem : s'.settledMem dev = ((t.requests s.gFtdi.chipBufferBytes).foldl (Request.exec dev)
        (s.settledEngine dev, s.settledMem dev)).2 := congrArg Prod.snd hsettled
    rw [← hmem] at hstored
    exact hstored

/-- The state after the final flush of a vector. -/
def Sys.flushedAll (dev : Device) (s : Sys Usb) : Sys Usb :=
  { s.flushed dev with
    gFtdi := { (s.flushed dev).gFtdi with
      pool := txvcMempoolReclaimAll (s.flushed dev).gFtdi.pool } }

theorem callback_flush (h : Linked dev s) :
    jtagSplitterCallback (link dev) .flushAll s = .ok (true, s.flushedAll dev) := by
  unfold jtagSplitterCallback
  dsimp only
  rw [Exec.bind_ok (ftBufferFlush_eq h)]
  rfl

theorem Linked.flushedAll (h : Linked dev s) : Linked dev (s.flushedAll dev) :=
  { h.flushed with
    extras := fun _ ho => nomatch ho
    heads := ⟨h.driverStart, h.flushed.heads.2⟩ }

/-! ## Commands that are checked with a bad opcode -/

/-- The command changes no pin and is not answered. -/
def Silent (dev : Device) (e : Engine) (cmd : List UInt8) : Prop :=
  e.replies dev cmd = [] ∧ (e.feed dev cmd).awaiting = .opcode ∧
    (e.feed dev cmd).cycles = e.cycles

variable (dev) in
theorem silent_setupCmds {e : Engine} (he : e.awaiting = .opcode) (dPins : ℕ → PinRole) :
    Silent dev e (setupCmds dPins) := by
  obtain ⟨x, y, hcmd⟩ : ∃ x y, setupCmds dPins = [0x80, x, y] := ⟨_, _, rfl⟩
  obtain ⟨hfeed, hreplies⟩ := e.feed_command dev he (b := 0x80) rfl
    (by decide) (by decide) x y
  rw [hcmd, Silent, hfeed, hreplies]
  exact ⟨rfl, rfl, rfl⟩

variable (dev) in
/-- The divisor commands do not change the engine at all. -/
theorem feed_tckDivisorCmd {e : Engine} (he : e.awaiting = .opcode) (divider : ℕ) (fast : Bool) :
    e.feed dev (tckDivisorCmd divider fast) = e ∧
      e.replies dev (tckDivisorCmd divider fast) = [] := by
  obtain ⟨awaiting, tmsLevel, cycles⟩ := e
  dsimp only at he
  subst he
  cases fast <;> exact ⟨rfl, rfl⟩

variable (dev) in
theorem silent_tckDivisorCmd {e : Engine} (he : e.awaiting = .opcode) (divider : ℕ) (fast : Bool) :
    Silent dev e (tckDivisorCmd divider fast) := by
  obtain ⟨hfeed, hreplies⟩ := feed_tckDivisorCmd dev he divider fast
  rw [Silent, hfeed]
  exact ⟨hreplies, he, rfl⟩

variable (dev) in
theorem feed_badOpcode {e : Engine} (he : e.awaiting = .opcode) :
    e.feed dev [0xab] = e ∧ e.replies dev [0xab] = [0xfa, 0xab] := by
  obtain ⟨awaiting, tmsLevel, cycles⟩ := e
  dsimp only at he
  subst he
  exact ⟨rfl, rfl⟩

theorem checkDeviceInSync_spec (h : Linked dev s) (he : (s.settledEngine dev).awaiting = .opcode) :
    Exec.wp (checkDeviceInSync (link dev))
      (fun ok s' => ok = true ∧ Linked dev s' ∧ s'.settings = s.settings ∧
        s'.buffer.txData = [] ∧ s'.settledEngine dev = s.settledEngine dev)
      (OomSafe dev s.gFtdi.chipBufferBytes) s := by
  have hchip := h.chip_bounds
  obtain ⟨hfeed, hreplies⟩ := feed_badOpcode dev he
  have hfits : (Request.readBytes [0xab] ⟨.resp, 0⟩ 2).Fits s.gFtdi.chipBufferBytes := by
    refine ⟨?_, ?_, by decide⟩
    · change 1 ≤ s.gFtdi.chipBufferBytes
      omega
    · change 2 ≤ s.gFtdi.chipBufferBytes
      omega
  have hspec := request_spec h hfits (congrArg List.length hreplies)
  unfold checkDeviceInSync
  dsimp only
  rw [Exec.wp_bind]
  refine Exec.wp_mono hspec ?_ (fun _ _ hoom => hoom)
  rintro ok t ⟨rfl, hlinked, hkeep, hsettled⟩
  rw [if_pos rfl, Exec.wp_bind_ok (ftBufferFlush_eq hlinked), if_pos rfl]
  have hengine : t.settledEngine dev = s.settledEngine dev :=
    (congrArg Prod.fst hsettled).trans hfeed
  have hmem : t.settledMem dev = byteCopierRxObserverFn (Octets.ofList [0xfa, 0xab])
      ⟨⟨.resp, 0⟩, 2⟩ (s.settledMem dev) := by
    rw [← hreplies]
    exact congrArg Prod.snd hsettled
  refine ⟨?_, hlinked.flushed, hkeep, rfl, hengine⟩
  have hview : (t.flushed dev).mem.view ⟨.resp, 0⟩ = fun i =>
      if i < 2 then Octets.ofList [0xfa, 0xab] i else (s.settledMem dev).view ⟨.resp, 0⟩ i := by
    change (t.settledMem dev).view ⟨.resp, 0⟩ = _
    rw [hmem]
    exact Mem.view_write _ _ _
  rw [hview]
  rfl

/-- A silent command and the sync check after it. -/
theorem silent_sync_spec (h : Linked dev s) {cmd : List UInt8} (hlen : cmd.length ≤ 4)
    (hsilent : Silent dev (s.settledEngine dev) cmd) :
    Exec.wp (ftBufferAddWriteToChip (link dev) cmd <&&> checkDeviceInSync (link dev))
      (fun ok s' => ok = true ∧ Linked dev s' ∧ s'.settings = s.settings ∧
        s'.buffer.txData = [] ∧ s'.settledEngine dev = (s.settledEngine dev).feed dev cmd)
      (OomSafe dev s.gFtdi.chipBufferBytes) s := by
  have hchip := h.chip_bounds
  obtain ⟨hreplies, hawaiting, -⟩ := hsilent
  have hfits : (Request.write cmd).Fits s.gFtdi.chipBufferBytes := by
    refine ⟨?_, Nat.zero_le _, trivial⟩
    change cmd.length ≤ s.gFtdi.chipBufferBytes
    omega
  have hspec := request_spec h hfits (congrArg List.length hreplies)
  unfold andM
  rw [Exec.wp_bind]
  refine Exec.wp_mono hspec ?_ (fun _ _ hoom => hoom)
  rintro ok t ⟨rfl, hlinked, hkeep, hsettled⟩
  have hengine : t.settledEngine dev = (s.settledEngine dev).feed dev cmd :=
    congrArg Prod.fst hsettled
  have hsync := checkDeviceInSync_spec hlinked (by rw [hengine]; exact hawaiting)
  have hchip' : t.gFtdi.chipBufferBytes = s.gFtdi.chipBufferBytes := congrArg (fun p => p.1) hkeep
  rw [hkeep, hengine, hchip'] at hsync
  exact hsync

end TinyXvc
