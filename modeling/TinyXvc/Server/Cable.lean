import TinyXvc.Drivers
import TinyXvc.DriverWrapper.Timing
import TinyXvc.FtdiGeneric.TckRounding
import TinyXvc.Lib.Scan
import TinyXvc.Server.Wrapped

/-!
# The cable

To its client the program is a JTAG cable: the vectors of all shift requests are
scanned one after the other, and the responses have what comes out of the device.
Nothing else is clocked, whatever the other commands and the wrapper ask of the
FTDI driver in between.
-/

namespace TinyXvc

theorem SplitRequest.take_tmsBits (r : SplitRequest) {k : ℕ} (hk : k ≤ r.numBits) :
    r.tmsBits.take k = r.tms.bits 0 k := by
  obtain ⟨n, hn⟩ := Nat.exists_eq_add_of_le hk
  rw [tmsBits, hn, Octets.bits_add]
  exact List.take_left' (Octets.length_bits ..)

theorem JtagState.tap_injective : Function.Injective JtagState.tap := by
  intro st st'
  cases st <;> cases st' <;> first | exact fun _ => rfl | exact fun h => absurd h (by decide)

namespace Server

open Mpsse Jtag

def ftdiBacking : Backing (Sys Usb) where
  maxVectorBits := fun s => TinyXvc.maxVectorBits s.gFtdi
  tdo := fun s => s.mem.view tdoVector
  withTdo := withTdo

/-- The program with an FTDI chip that `dev` is connected to. -/
abbrev cable (dev : Device) : Driver (Option (Wrapped (Sys Usb))) :=
  wrapperDriver (driverFtdiGeneric (link dev)) ftdiBacking

def Command.tmsBits : Command → List Bool
  | .shift numBits tms _ => (Octets.ofList tms).bits 0 numBits
  | _ => []

def Command.tdiBits : Command → List Bool
  | .shift numBits _ tdi => (Octets.ofList tdi).bits 0 numBits
  | _ => []

/-- The bits of the responses to shift requests. -/
def tdoBits : List Event → List Bool
  | .shiftBits numBits _ _ :: .response tdo :: es =>
      (Octets.ofList tdo).bits 0 numBits ++ tdoBits es
  | _ :: es => tdoBits es
  | [] => []

theorem bits_vectorBytes (numBits : ℕ) (v : Octets) :
    (Octets.ofList (vectorBytes numBits v)).bits 0 numBits = v.bits 0 numBits := by
  refine List.map_congr_left fun i hi => ?_
  have hlt : i / 8 < vectorOctets numBits := by
    have hi' := List.mem_range.mp hi
    rw [vectorOctets]
    omega
  have hoctet : Octets.ofList (vectorBytes numBits v) (i / 8) = v (i / 8) := by
    simp [Octets.ofList, vectorBytes, hlt]
  rw [Nat.zero_add, Octets.bit, Octets.bit, hoctet]

variable {dev : Device} {p : FtParams} {s₀ s t : Sys Usb} {hist : List Cycle}

/-- The driver has been activated, and has clocked the cycles `hist`. -/
structure Wired (dev : Device) (p : FtParams) (s₀ : Sys Usb) (hist : List Cycle) (s : Sys Usb) :
    Prop where
  reachable : Reachable dev p s₀ s
  cycles : s.usb.engine.cycles = hist

theorem Wired.withTdo (h : Wired dev p s₀ hist s) (tdo : Octets) :
    Wired dev p s₀ hist (withTdo s tdo) := ⟨Reachable.withTdo h.reachable tdo, h.cycles⟩

/-- Setting the period clocks nothing. -/
theorem Wired.setTckPeriod (h₀ : PoweredUp s₀) (h : Wired dev p s₀ hist s) {ns period : ℤ}
    (hrun : setTckPeriod (link dev) ns s = .ok (period, t)) :
    Wired dev p s₀ hist t ∧ t.gFtdi.jtagSplitter = s.gFtdi.jtagSplitter := by
  obtain ⟨-, hkeep, hengine⟩ :=
    Exec.wp_ok (setTckPeriod_quiet (h.reachable.inStep h₀ .testLogicReset) ns) hrun
  refine ⟨⟨.perform (.setTckPeriod ns) h.reachable (Exec.bind_ok hrun), ?_⟩,
    congrArg (fun x => x.2.2.1) hkeep⟩
  rw [hengine, h.cycles]

/-- A shift scans its vectors. -/
theorem Wired.shiftBits (h₀ : PoweredUp s₀) (tap₀ : Tap) (h : Wired dev p s₀ hist s)
    {r : SplitRequest} (hr : r.tdo = tdoVector) {ok : Bool}
    (hrun : shiftBits (link dev) r s = .ok (ok, t)) :
    ∃ ls, Wired dev p s₀ (hist ++ dev.clock hist ls) t ∧
      Scan (tap₀.run (hist.map Cycle.tms)) r.tmsBits (r.tdi.bits 0 r.numBits)
        ((t.mem.view tdoVector).bits 0 r.numBits) (dev.clock hist ls) := by
  obtain ⟨-, -, ls, hcs⟩ := Exec.wp_ok (shiftBits_clocks (h.reachable.inStep h₀ tap₀) r) hrun
  have htap : s.tap tap₀ = tap₀.run (hist.map Cycle.tms) := by rw [Sys.tap, h.cycles]
  rw [h.cycles] at hcs
  refine ⟨ls, ⟨.perform (.shiftBits r) h.reachable (Exec.bind_ok hrun), ?_⟩, ?_⟩
  · rw [hcs.cycles, h.cycles]
  · have hlen := hcs.length
    have hsame : TinyXvc.Server.withTdo s (s.mem.view tdoVector) = s := by
      rw [TinyXvc.Server.withTdo, Mem.write_view]
    have hstored := bit_stored hr (hsame.symm ▸ hcs)
    rw [← htap]
    refine scan_of_getElem ?_ ?_ ?_ fun k hk hshift => ?_
    · rw [hcs.shifted.tms, hlen]
      rfl
    · rw [Octets.length_bits, hlen]
    · rw [Octets.length_bits, hlen]
    · rw [r.take_tmsBits (by omega)] at hshift
      have htdi := hcs.shifted.tdi k hk
      rw [Nat.zero_add] at htdi
      rw [Octets.getElem_bits, Octets.getElem_bits, Nat.zero_add]
      refine ⟨htdi hshift, ?_⟩
      rw [hstored k, if_pos ⟨by omega, hshift⟩, List.getElem?_map, List.getElem?_eq_getElem hk]
      rfl

/-! ## Sessions -/

section Sessions

variable {w w' : Wrapped (Sys Usb)} {c : Command} {cmds : List Command} {es : List Event}

theorem Wired.wrapperSetTckPeriod (h₀ : PoweredUp s₀) (h : Wired dev p s₀ hist w.driver)
    {ns period : ℤ}
    (hrun : wrapperSetTckPeriod (driverFtdiGeneric (link dev)) ns w = .ok (period, w')) :
    Wired dev p s₀ hist w'.driver := by
  rcases wrapperSetTckPeriod_eq_ok hrun with hsame | hreach
  · rw [hsame]
    exact h
  · exact (h.setTckPeriod h₀ hreach).1

theorem Wired.wrapperShiftBits (h₀ : PoweredUp s₀) (tap₀ : Tap) (h : Wired dev p s₀ hist w.driver)
    {r : SplitRequest} (hr : r.tdo = tdoVector) {ok : Bool}
    (hrun : wrapperShiftBits (driverFtdiGeneric (link dev)) r w = .ok (ok, w')) :
    ∃ ls, Wired dev p s₀ (hist ++ dev.clock hist ls) w'.driver ∧
      Scan (tap₀.run (hist.map Cycle.tms)) r.tmsBits (r.tdi.bits 0 r.numBits)
        ((w'.driver.mem.view tdoVector).bits 0 r.numBits) (dev.clock hist ls) := by
  rcases wrapperShiftBits_eq_ok hrun with hreach | ⟨period, t, hset, hreach⟩
  · exact h.shiftBits h₀ tap₀ hr hreach
  · exact (h.setTckPeriod h₀ hset).1.shiftBits h₀ tap₀ hr hreach

theorem Answers.tdoBits_append (h : Answers (driverFtdiGeneric (link dev)) ftdiBacking w c es w')
    (fs : List Event) : tdoBits (es ++ fs) = tdoBits es ++ tdoBits fs := by
  cases h with
  | getinfo hmax => rfl
  | settck hset hperiod => rfl
  | shift tdo hshift => exact (congrArg (· ++ tdoBits fs) (List.append_nil _)).symm

/-- A command that is answered scans its vectors, if it has any. -/
theorem Answers.scan (h₀ : PoweredUp s₀) (tap₀ : Tap)
    (h : Answers (driverFtdiGeneric (link dev)) ftdiBacking w c es w')
    (hw : Wired dev p s₀ hist w.driver) :
    ∃ ls, Wired dev p s₀ (hist ++ dev.clock hist ls) w'.driver ∧
      Scan (tap₀.run (hist.map Cycle.tms)) c.tmsBits c.tdiBits (tdoBits es)
        (dev.clock hist ls) := by
  have hquiet : ∀ t, Wired dev p s₀ hist t → Wired dev p s₀ (hist ++ dev.clock hist []) t := by
    intro t ht
    rw [Device.clock, List.append_nil]
    exact ht
  cases h with
  | getinfo hmax => exact ⟨[], hquiet _ hw, .nil _⟩
  | settck hset hperiod => exact ⟨[], hquiet _ (hw.wrapperSetTckPeriod h₀ hset), .nil _⟩
  | @shift _ numBits tms tdi tdo hshift =>
      have hbits : tdoBits [.shiftBits numBits tms tdi,
          .response (vectorBytes numBits (ftdiBacking.tdo w'.driver))] =
            (w'.driver.mem.view tdoVector).bits 0 numBits := by
        rw [tdoBits, bits_vectorBytes]
        exact List.append_nil _
      rw [hbits]
      exact (hw.withTdo tdo).wrapperShiftBits h₀ tap₀ rfl hshift

/-- The commands of a session scan the vectors of all of them as one. -/
theorem Session.scan (h₀ : PoweredUp s₀) (tap₀ : Tap)
    (h : Session (driverFtdiGeneric (link dev)) ftdiBacking w cmds es w')
    (hw : Wired dev p s₀ hist w.driver) :
    ∃ ls, Wired dev p s₀ (hist ++ dev.clock hist ls) w'.driver ∧
      Scan (tap₀.run (hist.map Cycle.tms)) (cmds.flatMap Command.tmsBits)
        (cmds.flatMap Command.tdiBits) (tdoBits es) (dev.clock hist ls) := by
  induction h generalizing hist with
  | nil w =>
      refine ⟨[], ?_, .nil _⟩
      rw [Device.clock, List.append_nil]
      exact hw
  | @cons w w₁ w₂ c cmds es fs hanswers _ ih =>
      obtain ⟨ls, hw₁, hscan⟩ := hanswers.scan h₀ tap₀ hw
      obtain ⟨ls', hw₂, hscan'⟩ := ih hw₁
      have hrun : tap₀.run ((hist ++ dev.clock hist ls).map Cycle.tms) =
          (tap₀.run (hist.map Cycle.tms)).run c.tmsBits := by
        rw [List.map_append, Tap.run_append, hscan.map_tms]
      rw [hrun] at hscan'
      refine ⟨ls ++ ls', ?_, ?_⟩
      · rw [dev.clock_append, ← List.append_assoc]
        exact hw₂
      · rw [dev.clock_append, hanswers.tdoBits_append, List.flatMap_cons, List.flatMap_cons]
        exact hscan.append hscan'

end Sessions

/-! ## Commands that the driver accepts -/

/-- The driver answers the command, if its splitter is in `st`. -/
def Command.Accepted (st : JtagState) : Command → Prop
  | .getinfo => True
  | .settck ns => 0 < ns ∧ 30 * ns ≤ intMax
  | .shift numBits tms tdi => Answered (shiftRequest numBits tms tdi) st

instance (st : JtagState) : DecidablePred (Command.Accepted st) := fun c =>
  match c with
  | .getinfo => inferInstanceAs (Decidable True)
  | .settck _ => inferInstanceAs (Decidable (_ ∧ _))
  | .shift _ _ _ => inferInstanceAs (Decidable (Answered _ _))

/-- It answers all commands, one after the other. -/
def Accepted : JtagState → List Command → Prop
  | _, [] => True
  | st, c :: cmds => c.Accepted st ∧ Accepted (st.run c.tmsBits) cmds

def decideAccepted : (st : JtagState) → (cmds : List Command) → Decidable (Accepted st cmds)
  | _, [] => isTrue trivial
  | st, c :: cmds =>
      have := decideAccepted (st.run c.tmsBits) cmds
      inferInstanceAs (Decidable (_ ∧ _))

instance (st : JtagState) : DecidablePred (Accepted st) := decideAccepted st

section Accepted

variable {w : Wrapped (Sys Usb)} {c : Command} {cmds : List Command} {st : JtagState} {tap₀ : Tap}
  {heap : ℕ → Octets} {b : Backend (Option (Wrapped (Sys Usb)))}

theorem Wired.splitter (h₀ : PoweredUp s₀) (h : Wired dev p s₀ hist s)
    (hst : st.tap = tap₀.run (hist.map Cycle.tms)) : s.gFtdi.jtagSplitter.state = st := by
  apply JtagState.tap_injective
  rw [(h.reachable.inStep h₀ tap₀).tracks, Sys.tap, h.cycles, hst]

theorem Wired.exists_setTckPeriod (h₀ : PoweredUp s₀) (h : Wired dev p s₀ hist s) {ns : ℕ}
    (hpos : 0 < ns) (hfit : 30 * ns ≤ intMax) :
    ∃ (period : ℤ) (t : Sys Usb),
      TinyXvc.setTckPeriod (link dev) ns s = .ok (period, t) ∧ 0 < period := by
  have hclock : clockMHz s.gFtdi.highSpeedCapable ≤ 30 := by
    cases s.gFtdi.highSpeedCapable <;> decide
  obtain ⟨t, hrun, -⟩ := (h.reachable.settable h₀).set hpos
    ((Nat.mul_le_mul_right ns hclock).trans hfit)
  refine ⟨_, t, hrun, ?_⟩
  exact_mod_cast ClockDivider.period_pos (clockMHz_pos _) (clockMHz_le _)

variable (heap) in
theorem exists_serve (h₀ : PoweredUp s₀) (hb : b.driver = some w)
    (hw : Wired dev p s₀ hist w.driver) (hst : st.tap = tap₀.run (hist.map Cycle.tms))
    (hc : c.Accepted st) : ∃ es b', serve (cable dev) heap b c = (es, some b') := by
  cases c with
  | getinfo =>
      have hchip := (hw.reachable.inStep h₀ tap₀).linked.chip_bounds
      refine exists_serve_getinfo hb ?_
      change (0 : ℤ) < (TinyXvc.maxVectorBits w.driver.gFtdi : ℕ)
      rw [maxVectorBits]
      omega
  | settck ns =>
      obtain ⟨hpos, hfit⟩ := hc
      obtain ⟨period, t, hset, hperiod⟩ := hw.exists_setTckPeriod h₀ hpos hfit
      obtain ⟨actual, w', hrun, hactual⟩ :=
        exists_wrapperSetTckPeriod (d := driverFtdiGeneric (link dev)) (by omega) hperiod hset
      exact exists_serve_settck hb hrun hactual
  | shift numBits tms tdi =>
      refine exists_serve_shift hb fun tdo => ?_
      have hvector := hw.withTdo tdo
      have hanswered : ∀ t, Wired dev p s₀ hist t →
          ∃ u, TinyXvc.shiftBits (link dev) (shiftRequest numBits tms tdi) t = .ok (true, u) := by
        intro t ht
        have hstate := ht.splitter h₀ hst
        obtain ⟨u, hrun, -⟩ := exists_shift h₀ ht.reachable (hstate.symm ▸ hc)
        exact ⟨u, hrun⟩
      obtain ⟨t, hshift⟩ := hanswered _ hvector
      have hdefault : 0 < 100 ∧ 30 * 100 ≤ intMax := by decide
      obtain ⟨period, u, hset, -⟩ := hvector.exists_setTckPeriod h₀ hdefault.1 hdefault.2
      obtain ⟨v, hafter⟩ := hanswered u (hvector.setTckPeriod h₀ hset).1
      exact exists_wrapperShiftBits (d := driverFtdiGeneric (link dev)) hshift hset hafter

variable (heap) in
theorem exists_serveAll (h₀ : PoweredUp s₀) (hb : b.driver = some w)
    (hw : Wired dev p s₀ hist w.driver) (hst : st.tap = tap₀.run (hist.map Cycle.tms))
    (hcmds : Accepted st cmds) :
    ∃ es b', (xvc (cable dev) heap).serveAll b cmds = (es, some b') := by
  induction cmds generalizing b w hist st with
  | nil => exact ⟨[], b, rfl⟩
  | cons c cmds ih =>
      obtain ⟨hc, hcmds⟩ := hcmds
      obtain ⟨es, b₁, hserve⟩ := exists_serve heap h₀ hb hw hst hc
      obtain ⟨w₁, hb₁, hanswers⟩ := serve_wrapper hb hserve
      obtain ⟨ls, hw₁, hscan⟩ := hanswers.scan h₀ tap₀ hw
      have hst₁ : (st.run c.tmsBits).tap =
          tap₀.run ((hist ++ dev.clock hist ls).map Cycle.tms) := by
        rw [JtagState.tap_run, hst, List.map_append, Tap.run_append, hscan.map_tms]
      obtain ⟨fs, b', hrest⟩ := ih hb₁ hw₁ hst₁ hcmds
      refine ⟨es ++ fs, b', ?_⟩
      rw [CommandStream.serveAll_cons_served (S := xvc (cable dev) heap) hserve, hrest]

end Accepted

/-! ## The program -/

/-- The program has activated the driver and set the wrapper up. -/
structure Started (dev : Device) (p : FtParams) (fixedTckPeriod : ℤ) (s₀ s : Sys Usb)
    (w : Wrapped (Sys Usb)) : Prop where
  poweredUp : PoweredUp s₀
  activate : TinyXvc.activate (link dev) p s₀ = .ok (true, s)
  setup : txvcDriverWrapperSetup (driverFtdiGeneric (link dev)) fixedTckPeriod (.initial s) =
    .ok ((), w)

section Program

variable {fixedTckPeriod : ℤ} {w : Wrapped (Sys Usb)}

/-- The setup clocks nothing. -/
theorem Started.wired (h : Started dev p fixedTckPeriod s₀ s w) :
    Wired dev p s₀ s.usb.engine.cycles w.driver := by
  have hactive : Wired dev p s₀ s.usb.engine.cycles s := ⟨.activate h.activate, rfl⟩
  by_cases hfixed : 0 < fixedTckPeriod
  · cases hset : TinyXvc.setTckPeriod (link dev) fixedTckPeriod s with
    | error e =>
        have hsetup := h.setup
        rw [setup_refused _ hfixed hset] at hsetup
        cases hsetup
    | ok x =>
        obtain ⟨actual, t⟩ := x
        have hsetup := (setup_eq _ (s := .initial s) hfixed hset).symm.trans h.setup
        cases hsetup
        exact (hactive.setTckPeriod h.poweredUp hset).1
  · have hsetup := (setup_unenforced _ hfixed (.initial s)).symm.trans h.setup
    cases hsetup
    exact hactive

theorem Started.tap (h : Started dev p fixedTckPeriod s₀ s w) (tap₀ : Tap) :
    tap₀.run (s.usb.engine.cycles.map Cycle.tms) = .testLogicReset := by
  obtain ⟨-, hstate, hstep⟩ := Exec.wp_ok (activate_spec tap₀ p h.poweredUp) h.activate
  rw [← Sys.tap, ← hstep.tracks, hstate]
  rfl

theorem exists_started : ∃ s w, Started tdoHigh ft2232hParams 0 poweredUp s w := by
  obtain ⟨s, hrun⟩ := exists_activated
  have hfixed : ¬(0 : ℤ) < 0 := lt_irrefl 0
  exact ⟨s, (Wrapped.initial s).monitored, poweredUp_poweredUp, hrun, setup_unenforced _ hfixed _⟩

/-- Accepted commands make a session. -/
theorem Started.exists_session (h : Started dev p fixedTckPeriod s₀ s w) {cmds : List Command}
    (haccepted : Accepted .testLogicReset cmds) (heap : ℕ → Octets)
    {b : Backend (Option (Wrapped (Sys Usb)))} (hb : b.driver = some w) :
    ∃ es w' b', (xvc (cable dev) heap).serveAll b cmds = (es, some b') ∧
      Session (driverFtdiGeneric (link dev)) ftdiBacking w cmds es w' := by
  have hstart : JtagState.tap .testLogicReset =
      Tap.testLogicReset.run (s.usb.engine.cycles.map Cycle.tms) := (h.tap .testLogicReset).symm
  obtain ⟨es, b', hserve⟩ := exists_serveAll heap h.poweredUp hb h.wired hstart haccepted
  obtain ⟨w', -, hsession⟩ := serveAll_wrapper hb hserve
  exact ⟨es, w', b', hserve, hsession⟩

/-- After the cycles of `s`, those of `t` scan the vectors of the commands from
Test-Logic-Reset on, and the events have the result. -/
structure Scanned (dev : Device) (s : Sys Usb) (cmds : List Command) (es : List Event)
    (t : Sys Usb) (ls : List (Bool × Bool)) : Prop where
  cycles : t.usb.engine.cycles = s.usb.engine.cycles ++ dev.clock s.usb.engine.cycles ls
  scan : Scan .testLogicReset (cmds.flatMap Command.tmsBits) (cmds.flatMap Command.tdiBits)
    (tdoBits es) (dev.clock s.usb.engine.cycles ls)

theorem Started.scanned (h : Started dev p fixedTckPeriod s₀ s w) {cmds : List Command}
    {es : List Event} {w' : Wrapped (Sys Usb)}
    (hsession : Session (driverFtdiGeneric (link dev)) ftdiBacking w cmds es w') :
    ∃ ls, Scanned dev s cmds es w'.driver ls := by
  obtain ⟨ls, hw', hscan⟩ := hsession.scan h.poweredUp .testLogicReset h.wired
  rw [h.tap] at hscan
  exact ⟨ls, hw'.cycles, hscan⟩

/-- At every moment of a connection, what has been answered is a scan of the vectors of
the shift requests so far; between two commands, the device has seen nothing else. -/
theorem cable_scans (h : Started dev p fixedTckPeriod s₀ s w) (heap : ℕ → Octets) (io : Client)
    (b : Backend (Option (Wrapped (Sys Usb)))) (hb : b.driver = some w) (n : ℕ) :
    Exec.wp (runConnectin (cable dev) heap io n)
      (fun returned c =>
        if returned then ∃ cmds es w' ls,
          Over (driverFtdiGeneric (link dev)) ftdiBacking io w c.trace cmds es w' ∧
            Scanned dev s cmds es w'.driver ls
        else ∃ cmds w' ls,
          Underway (driverFtdiGeneric (link dev)) ftdiBacking io w cmds w' c ∧
            Scanned dev s cmds c.trace w'.driver ls)
      (fun _ c => ∃ cmds es w' ls,
        Over (driverFtdiGeneric (link dev)) ftdiBacking io w c.trace cmds es w' ∧
          Scanned dev s cmds es w'.driver ls) (io.start b) := by
  refine Exec.wp_mono (runConnectin_session hb n) ?_ ?_
  · intro returned c hc
    cases returned with
    | true =>
        obtain ⟨cmds, es, w', hover⟩ := hc
        obtain ⟨ls, hscanned⟩ := h.scanned hover.session
        exact ⟨cmds, es, w', ls, hover, hscanned⟩
    | false =>
        obtain ⟨cmds, w', hunderway⟩ := hc
        obtain ⟨ls, hscanned⟩ := h.scanned hunderway.session
        exact ⟨cmds, w', ls, hunderway, hscanned⟩
  · rintro _ c ⟨cmds, es, w', hover⟩
    obtain ⟨ls, hscanned⟩ := h.scanned hover.session
    exact ⟨cmds, es, w', ls, hover, hscanned⟩

/-- Four clocks to Shift-DR, and eight in it. -/
def twoShifts : List Command := [.shift 4 [0x02] [0x00], .shift 8 [0x80] [0xa5]]

/-- A client whose shifts have all arrived at the first peek. -/
def shiftingClient : Client where
  stream := encodeAll twoShifts
  closes := true
  arrivals := ⟨fun _ => 24, fun _ => 16, fun _ => Nat.succ_pos 15⟩

/-- The target holds TDO high. -/
def twoShiftsTrace : List Event :=
  [.shiftBits 4 [0x02] [0x00], .response [0x00], .shiftBits 8 [0x80] [0xa5], .response [0xff]]

theorem exists_shifted_connection : ∃ s w c, Started tdoHigh ft2232hParams 0 poweredUp s w ∧
    runConnectin (cable tdoHigh) (fun _ _ => 0) shiftingClient 2
      (shiftingClient.start ⟨some w, 0, fun _ => 0, 0⟩) = .ok (false, c) ∧
    c.trace = twoShiftsTrace := by
  obtain ⟨ok, s, hactivate, htest⟩ := Exec.exists_ok_of_test
    (x := activate (link tdoHigh) ft2232hParams) (s := poweredUp)
    (fun ok s => ok && Exec.passes (runConnectin (cable tdoHigh) (fun _ _ => 0) shiftingClient 2)
      (shiftingClient.start ⟨some (Wrapped.initial s).monitored, 0, fun _ => 0, 0⟩)
      fun returned c => !returned && c.trace == twoShiftsTrace) (by decide +kernel)
  rw [Bool.and_eq_true] at htest
  obtain ⟨rfl, hconnection⟩ := htest
  obtain ⟨returned, c, hrun, htrace⟩ := Exec.exists_ok_of_test _ hconnection
  rw [Bool.and_eq_true, Bool.not_eq_true', beq_iff_eq] at htrace
  obtain ⟨rfl, htrace⟩ := htrace
  exact ⟨s, (Wrapped.initial s).monitored, c, ⟨poweredUp_poweredUp, hactivate,
    setup_unenforced _ (lt_irrefl 0) _⟩, hrun, htrace⟩

/-- Both shifts have been answered. -/
theorem cable_scans_two_shifts : ∃ s w c cmds w' ls,
    Started tdoHigh ft2232hParams 0 poweredUp s w ∧
      runConnectin (cable tdoHigh) (fun _ _ => 0) shiftingClient 2
        (shiftingClient.start ⟨some w, 0, fun _ => 0, 0⟩) = .ok (false, c) ∧
      c.trace = twoShiftsTrace ∧
      Underway (driverFtdiGeneric (link tdoHigh)) ftdiBacking shiftingClient w cmds w' c ∧
      Scanned tdoHigh s cmds c.trace w'.driver ls := by
  obtain ⟨s, w, c, hstarted, hrun, htrace⟩ := exists_shifted_connection
  obtain ⟨cmds, w', ls, hunderway, hscanned⟩ := Exec.wp_ok
    (cable_scans hstarted (fun _ _ => 0) shiftingClient ⟨some w, 0, fun _ => 0, 0⟩ rfl 2) hrun
  exact ⟨s, w, c, cmds, w', ls, hstarted, hrun, htrace, hunderway, hscanned⟩

/-- Commands that the driver accepts are all answered in the end, with one scan of their
vectors, whatever follows them and however the octets arrive. -/
theorem cable_answers (h : Started dev p fixedTckPeriod s₀ s w) (heap : ℕ → Octets)
    {cmds : List Command} (hcmds : ∀ c ∈ cmds, c.WellFormed)
    (haccepted : Accepted .testLogicReset cmds) (rest : List UInt8) (closes : Bool)
    (sch : Schedule) (b : Backend (Option (Wrapped (Sys Usb)))) (hb : b.driver = some w) :
    let io : Client := ⟨encodeAll cmds ++ rest, closes, sch.toArrivals⟩
    ∃ es w' ls, Session (driverFtdiGeneric (link dev)) ftdiBacking w cmds es w' ∧
      Scanned dev s cmds es w'.driver ls ∧
        ∃ m, ∀ n ≥ m, es <+: traceOf (runConnectin (cable dev) heap io n (io.start b)) := by
  obtain ⟨es, w', b', hserve, hsession⟩ := h.exists_session haccepted heap hb
  obtain ⟨ls, hscanned⟩ := h.scanned hsession
  refine ⟨es, w', ls, hsession, hscanned, ?_⟩
  have hserved := commands_served (cable dev) heap hcmds rest closes sch b
  rw [hserve] at hserved
  exact hserved

/-- A period, and four clocks to Shift-DR. -/
theorem cable_answers_four : ∃ s w es w' ls, Started tdoHigh ft2232hParams 0 poweredUp s w ∧
    Scanned tdoHigh s [.settck 100, .shift 4 [0x02] [0x00]] es w' ls ∧
      ∃ m, ∀ n ≥ m, es <+: traceOf (runConnectin (cable tdoHigh) (fun _ _ => 0)
        ⟨encodeAll [.settck 100, .shift 4 [0x02] [0x00]] ++ [], true, promptSchedule.toArrivals⟩ n
        (Client.start ⟨encodeAll [.settck 100, .shift 4 [0x02] [0x00]] ++ [], true,
          promptSchedule.toArrivals⟩ ⟨some w, 0, fun _ => 0, 0⟩)) := by
  obtain ⟨s, w, hstarted⟩ := exists_started
  have hcmds : ∀ c ∈ [Command.settck 100, .shift 4 [0x02] [0x00]], c.WellFormed := by decide
  obtain ⟨es, w', ls, -, hscanned, hserved⟩ := cable_answers hstarted (fun _ _ => 0) hcmds
    (by decide) [] true promptSchedule ⟨some w, 0, fun _ => 0, 0⟩ rfl
  exact ⟨s, w, es, w'.driver, ls, hstarted, hscanned, hserved⟩

/-- Two sessions that cut the same vectors into shift requests in different places read
the same from a device that looks at TDI only while it shifts. -/
theorem vectors_cut_anywhere (h : Started dev p fixedTckPeriod s₀ s w) {tap₀ : Tap}
    (hdev : Registers tap₀ dev) {cmds cmds' : List Command} {es es' : List Event}
    {w₁ w₂ : Wrapped (Sys Usb)}
    (hsession : Session (driverFtdiGeneric (link dev)) ftdiBacking w cmds es w₁)
    (hsession' : Session (driverFtdiGeneric (link dev)) ftdiBacking w cmds' es' w₂)
    (htms : cmds'.flatMap Command.tmsBits = cmds.flatMap Command.tmsBits)
    (htdi : cmds'.flatMap Command.tdiBits = cmds.flatMap Command.tdiBits) :
    shifted .testLogicReset (cmds.flatMap Command.tmsBits) (tdoBits es') =
      shifted .testLogicReset (cmds.flatMap Command.tmsBits) (tdoBits es) := by
  obtain ⟨ls, hscanned⟩ := h.scanned hsession
  obtain ⟨ls', hscanned'⟩ := h.scanned hsession'
  have hscan' := hscanned'.scan
  rw [htms, htdi] at hscan'
  exact hscanned.scan.shifted_eq hdev (h.tap tap₀) hscan'

/-- Eight clocks, of which the last four shift; in one piece, and cut after five. -/
theorem vectors_cut_after_five : ∃ w es es' w₁ w₂,
    Session (driverFtdiGeneric (link tdoHigh)) ftdiBacking w [.shift 8 [0x02] [0xa5]] es w₁ ∧
      Session (driverFtdiGeneric (link tdoHigh)) ftdiBacking w
        [.shift 5 [0x02] [0x05], .shift 3 [0x00] [0x05]] es' w₂ ∧
      shifted .testLogicReset (Command.tmsBits (.shift 8 [0x02] [0xa5])) (tdoBits es') =
        shifted .testLogicReset (Command.tmsBits (.shift 8 [0x02] [0xa5])) (tdoBits es) := by
  obtain ⟨s, w, hstarted⟩ := exists_started
  obtain ⟨es, w₁, -, -, hsession⟩ := hstarted.exists_session
    (by decide : Accepted .testLogicReset [.shift 8 [0x02] [0xa5]]) (fun _ _ => 0)
    (rfl : (Backend.mk (some w) 0 (fun _ => 0) 0).driver = some w)
  obtain ⟨es', w₂, -, -, hsession'⟩ := hstarted.exists_session
    (by decide : Accepted .testLogicReset [.shift 5 [0x02] [0x05], .shift 3 [0x00] [0x05]])
    (fun _ _ => 0) (rfl : (Backend.mk (some w) 0 (fun _ => 0) 0).driver = some w)
  have hdev : Registers .testLogicReset tdoHigh := fun _ _ _ _ _ _ _ => rfl
  exact ⟨w, es, es', w₁, w₂, hsession, hsession',
    vectors_cut_anywhere hstarted hdev hsession hsession' (by decide) (by decide)⟩

end Program

end Server

end TinyXvc
