import TinyXvc.Server.Cable
import TinyXvc.Server.Sessions
import TinyXvc.Server.Healthy

/-!
# The whole program

The server with the cable behind it, over sockets that may fail at any time.  The
device is clocked with the vectors of the commands that have been read from the clients,
one client after the other; no fault adds, drops or repeats a clock.
-/

namespace TinyXvc.Server.Life

open Mpsse Jtag

/-! ## What commands leave behind -/

section Attempts

variable {δ : Type} {D : Driver δ} {heap : ℕ → Octets} {b b' : Backend δ} {c : Command}
  {es : List Event}

theorem serve_eq_some (h : serve D heap b c = (es, some b')) : b' = attempted D heap b c := by
  cases c with
  | getinfo | settck period =>
      simp only [serve] at h
      split at h
      · cases h
        rfl
      · cases h
  | shift numBits tms tdi =>
      simp only [serve] at h
      simp only [attempted]
      generalize (if b.vectorNumBytes < vectorOctets numBits then
        Server.allocateVectors heap (vectorOctets numBits) b else b) = b₁ at h ⊢
      split at h
      · cases h
        rfl
      · cases h

variable (D heap) in
/-- The commands one after the other, whatever the driver says. -/
def attemptAll (b : Backend δ) (cmds : List Command) : Backend δ := cmds.foldl (attempted D heap) b

theorem attemptAll_append (cmds cmds' : List Command) :
    attemptAll D heap b (cmds ++ cmds') = attemptAll D heap (attemptAll D heap b cmds) cmds' :=
  List.foldl_append

theorem serveAll_eq_some {cmds : List Command} (h : (xvc D heap).serveAll b cmds = (es, some b')) :
    b' = attemptAll D heap b cmds :=
  CommandStream.serveAll_eq_foldl (S := xvc D heap) serve_eq_some h

theorem parse_of_no_command {s : List UInt8} (h : nextCommand s = none) :
    (xvc D heap).parse s = [] := CommandStream.parse_of_none (S := xvc D heap) h

/-- What has reached the driver when a connection ends. -/
theorem Closing.attempted {rest : List UInt8} (h : Closing D heap b (nextCommand rest) es b') :
    b'.driver = (attemptAll D heap b ((xvc D heap).parse rest)).driver := by
  have hlast : ∀ c, nextCommand rest = some (c, []) → (xvc D heap).parse rest = [c] := by
    intro c hnext
    rw [CommandStream.parse_of_next (S := xvc D heap) hnext, parse_of_no_command rfl]
  generalize hparsed : nextCommand rest = parsed at h
  cases h with
  | nothing h =>
      rw [parse_of_no_command hparsed]
      obtain rfl | ⟨n, rfl⟩ := h
      · rfl
      · rfl
  | refused h =>
      rw [hlast _ hparsed]
      rfl
  | cut h hk =>
      rw [hlast _ hparsed, serve_eq_some h]
      rfl

/-- The client has closed the connection after a command. -/
theorem Closing.closed (b : Backend δ) : Closing D heap b (nextCommand []) [] b :=
  .nothing (.inl rfl)

end Attempts

/-! ## The device -/

section Device

variable {dev : Device} {p : FtParams} {s₀ : Sys Usb} {hist : List Cycle} {heap : ℕ → Octets}
  {w w' : Wrapped (Sys Usb)}

variable (dev p s₀) in
/-- After the cycles `hist` the device has been clocked with the vectors of `cmds` from
`tap` on. -/
def Driven (hist : List Cycle) (tap : Tap) (cmds : List Command) (s : Sys Usb) : Prop :=
  ∃ ls tdo, Wired dev p s₀ (hist ++ dev.clock hist ls) s ∧
    Scan tap (cmds.flatMap Command.tmsBits) (cmds.flatMap Command.tdiBits) tdo (dev.clock hist ls)

theorem Driven.nil {s : Sys Usb} {tap : Tap} (h : Wired dev p s₀ hist s) :
    Driven dev p s₀ hist tap [] s := by
  refine ⟨[], [], ?_, .nil tap⟩
  rw [Device.clock, List.append_nil]
  exact h

theorem Driven.append {s t : Sys Usb} {tap : Tap} {cmds cmds' : List Command}
    (h : Driven dev p s₀ hist tap cmds s)
    (h' : ∀ hist', hist'.map Cycle.tms = hist.map Cycle.tms ++ cmds.flatMap Command.tmsBits →
      Wired dev p s₀ hist' s →
        Driven dev p s₀ hist' (tap.run (cmds.flatMap Command.tmsBits)) cmds' t) :
    Driven dev p s₀ hist tap (cmds ++ cmds') t := by
  obtain ⟨ls, tdo, hs, hscan⟩ := h
  have htms : (hist ++ dev.clock hist ls).map Cycle.tms =
      hist.map Cycle.tms ++ cmds.flatMap Command.tmsBits := by
    rw [List.map_append, hscan.map_tms]
  obtain ⟨ls', tdo', ht, hscan'⟩ := h' _ htms hs
  refine ⟨ls ++ ls', tdo ++ tdo', ?_, ?_⟩
  · rw [dev.clock_append, ← List.append_assoc]
    exact ht
  · rw [dev.clock_append, List.flatMap_append, List.flatMap_append]
    exact hscan.append hscan'

/-- An attempt drives the device with the vectors of its command, if the process is
still alive after it. -/
theorem attempted_driven (h₀ : PoweredUp s₀) (tap₀ : Tap)
    {b : Backend (Option (Wrapped (Sys Usb)))} (hb : b.driver = some w) (c : Command)
    (hw : Wired dev p s₀ hist w.driver)
    (hafter : (attempted (cable dev) heap b c).driver = some w') :
    Driven dev p s₀ hist (tap₀.run (hist.map Cycle.tms)) [c] w'.driver := by
  cases c with
  | getinfo =>
      simp only [attempted, wrapperDriver, hb] at hafter
      cases hafter
      exact .nil hw
  | settck period =>
      simp only [attempted, wrapperDriver, hb] at hafter
      cases hset : wrapperSetTckPeriod (driverFtdiGeneric (link dev)) period w with
      | error e =>
          rw [hset] at hafter
          cases hafter
      | ok x =>
          rw [hset] at hafter
          cases hafter
          exact .nil (hw.wrapperSetTckPeriod h₀ hset)
  | shift numBits tms tdi =>
      have hdriver := (driver_resized heap b (vectorOctets numBits)).trans hb
      simp only [attempted] at hafter
      generalize (if b.vectorNumBytes < vectorOctets numBits then
        Server.allocateVectors heap (vectorOctets numBits) b else b) = b₁ at hafter hdriver
      simp only [wrapperDriver, hdriver] at hafter
      cases hshift : wrapperShiftBits (driverFtdiGeneric (link dev)) (shiftRequest numBits tms tdi)
          { w with driver := ftdiBacking.withTdo w.driver b₁.tdoVector } with
      | error e =>
          rw [hshift] at hafter
          cases hafter
      | ok x =>
          rw [hshift] at hafter
          cases hafter
          obtain ⟨ls, hw', hscan⟩ :=
            (hw.withTdo b₁.tdoVector).wrapperShiftBits h₀ tap₀ rfl hshift
          refine ⟨ls, (x.2.driver.mem.view tdoVector).bits 0 numBits, hw', ?_⟩
          rw [List.flatMap_singleton, List.flatMap_singleton]
          exact hscan

variable (dev heap) in
/-- There is no driver left after an abort. -/
theorem attempted_aborted {b : Backend (Option (Wrapped (Sys Usb)))} (hb : b.driver = none)
    (c : Command) : (attempted (cable dev) heap b c).driver = none := by
  cases c with
  | getinfo | settck period => simp only [attempted, wrapperDriver, hb]
  | shift numBits tms tdi =>
      have hdriver := (driver_resized heap b (vectorOctets numBits)).trans hb
      simp only [attempted, wrapperDriver, hdriver]

variable (dev heap) in
theorem attemptAll_aborted {b : Backend (Option (Wrapped (Sys Usb)))} (hb : b.driver = none)
    (cmds : List Command) : (attemptAll (cable dev) heap b cmds).driver = none := by
  induction cmds generalizing b with
  | nil => exact hb
  | cons c cmds ih => exact ih (attempted_aborted dev heap hb c)

theorem attemptAll_driven (h₀ : PoweredUp s₀) (tap₀ : Tap)
    {b : Backend (Option (Wrapped (Sys Usb)))} (hb : b.driver = some w) (cmds : List Command)
    (hw : Wired dev p s₀ hist w.driver)
    (hafter : (attemptAll (cable dev) heap b cmds).driver = some w') :
    Driven dev p s₀ hist (tap₀.run (hist.map Cycle.tms)) cmds w'.driver := by
  induction cmds generalizing b w hist with
  | nil =>
      cases hb.symm.trans hafter
      exact .nil hw
  | cons c cmds ih =>
      cases hnext : (attempted (cable dev) heap b c).driver with
      | none =>
          have hnone := attemptAll_aborted dev heap hnext cmds
          cases hnone.symm.trans hafter
      | some w₁ =>
          have hfirst := attempted_driven h₀ tap₀ hb c hw hnext
          change Driven dev p s₀ hist _ ([c] ++ cmds) w'.driver
          refine hfirst.append fun hist' htms hw₁ => ?_
          have hrest := ih hnext hw₁ hafter
          rw [htms, Tap.run_append] at hrest
          exact hrest

/-- The sessions drive the device with what their clients have written. -/
theorem Sessions.driven (h₀ : PoweredUp s₀) (tap₀ : Tap) (hw : Wired dev p s₀ hist w.driver)
    {as : List Action} {inputs : List (List UInt8)} {d : Option (Wrapped (Sys Usb))} {k : ℕ}
    (h : Sessions (cable dev) heap (some w) as inputs d k) (hd : d = some w') :
    Driven dev p s₀ hist (tap₀.run (hist.map Cycle.tms))
      (inputs.flatMap (xvc (cable dev) heap).parse) w'.driver := by
  induction h generalizing w' with
  | start =>
      cases hd
      exact .nil hw
  | ignored socket _ ih => exact ih hd
  | @served as inputs d k socket cmds rest es es' b b' _ hcmds hserved hclosing ih =>
      have hparse : (xvc (cable dev) heap).parse (encodeAll cmds ++ rest) =
          cmds ++ (xvc (cable dev) heap).parse rest :=
        CommandStream.parse_encode cmds fun c hc rest => nextCommand_eq_some.mpr ⟨hcmds c hc, rfl⟩
      have hafter : (attemptAll (cable dev) heap ⟨d, 0, fun _ => 0, k⟩
          (cmds ++ (xvc (cable dev) heap).parse rest)).driver = some w' := by
        rw [attemptAll_append, ← serveAll_eq_some hserved]
        exact hclosing.attempted.symm.trans hd
      rw [List.flatMap_append, List.flatMap_singleton, hparse]
      cases d with
      | none =>
          have hnone := attemptAll_aborted dev heap (b := ⟨none, 0, fun _ => 0, k⟩) rfl
            (cmds ++ (xvc (cable dev) heap).parse rest)
          cases hnone.symm.trans hafter
      | some w₁ =>
          refine (ih rfl).append fun hist' htms hw₁ => ?_
          have hlast := attemptAll_driven (b := ⟨some w₁, 0, fun _ => 0, k⟩) h₀ tap₀ rfl _ hw₁
            hafter
          rw [htms, Tap.run_append] at hlast
          exact hlast

end Device

/-! ## The program -/

section Program

variable {ν : Type}

/-- What has been read so far of what the clients have written. -/
def State.inputs {δ : Type} (s : State ν δ) : List (List UInt8) :=
  match s.phase with
  | .connected _ _ _ _ received => s.received ++ [received]
  | _ => s.received

variable {dev : Device} {p : FtParams} {s₀ s : Sys Usb} {fixedTckPeriod : ℤ}
  {heap : ℕ → Octets} {w w' : Wrapped (Sys Usb)}

theorem Accounted.driven (h₀ : PoweredUp s₀) (tap₀ : Tap) {hist : List Cycle}
    (hw : Wired dev p s₀ hist w.driver) {t : State ν (Option (Wrapped (Sys Usb)))}
    (h : Accounted (cable dev) heap (some w) t) (ht : t.driver = some w') :
    Driven dev p s₀ hist (tap₀.run (hist.map Cycle.tms))
      (t.inputs.flatMap (xvc (cable dev) heap).parse) w'.driver := by
  cases hphase : t.phase with
  | returned | listening =>
      simp only [Accounted, hphase] at h
      simp only [State.inputs, hphase]
      exact h.driven h₀ tap₀ hw ht
  | connected socket vectors vectorNumBytes tdoVector received =>
      simp only [Accounted, hphase] at h
      simp only [State.inputs, hphase]
      obtain ⟨as, d, k, cmds, es, hbefore, hcmds, rfl, hserved, -⟩ := h
      -- the session so far, as if its client had closed it
      have hsession := Sessions.served socket hbefore hcmds hserved (.closed _)
      rw [List.append_nil (encodeAll cmds)] at hsession
      exact hsession.driven h₀ tap₀ hw ht

/-- Whatever the system calls do, at every moment of the program's life the target has
been clocked, since the setup, with the TMS and TDI vectors of the complete requests that
have been read from the clients, one client after the other: no fault of a connection adds,
drops or repeats a clock. -/
theorem clients_clock_target (h : Started dev p fixedTckPeriod s₀ s w) (S : Sockets ν) (os : ν)
    (heap : ℕ → Octets) (n : ℕ) {t : State ν (Option (Wrapped (Sys Usb)))}
    (hrun : serverRun S (cable dev) heap n (.start os (some w)) = .ok t)
    (ht : t.driver = some w') :
    let cmds := t.inputs.flatMap (xvc (cable dev) heap).parse
    ∃ cs, w'.driver.usb.engine.cycles = s.usb.engine.cycles ++ cs ∧
      cs.map Cycle.tms = cmds.flatMap Command.tmsBits ∧
      shifted .testLogicReset (cmds.flatMap Command.tmsBits) (cs.map Cycle.tdi) =
        shifted .testLogicReset (cmds.flatMap Command.tmsBits) (cmds.flatMap Command.tdiBits) := by
  have haccounted := serverRun_invariant (S := S) (J := Accounted (cable dev) heap (some w))
    (fun _ h => serverRound_accounted h) n (s := .start os (some w)) .start
  rw [hrun] at haccounted
  obtain ⟨ls, tdo, hw', hscan⟩ := haccounted.driven h.poweredUp .testLogicReset h.wired ht
  rw [h.tap] at hscan
  exact ⟨dev.clock s.usb.engine.cycles ls, hw'.cycles, hscan.map_tms, hscan.shifted_tdi⟩

/-- The shifting client connects, and nobody else. -/
def shiftingSockets : Sockets Queue :=
  { healthy shiftingClient with accept := fun q => (some (0, true), q) }

/-- Accepted, and two rounds of its connection. -/
theorem exists_shifted : ∃ s w t w', Started tdoHigh ft2232hParams 0 poweredUp s w ∧
    serverRun shiftingSockets (cable tdoHigh) (fun _ _ => 0) 3
      (.start (encodeAll twoShifts, 0) (some w)) = .ok t ∧
    t.driver = some w' ∧ t.inputs = [encodeAll twoShifts] := by
  obtain ⟨ok, s, hactivate, htest⟩ := Exec.exists_ok_of_test
    (x := activate (link tdoHigh) ft2232hParams) (s := poweredUp)
    (fun ok s => ok &&
      match serverRun shiftingSockets (cable tdoHigh) (fun _ _ => 0) 3
        (.start (encodeAll twoShifts, 0) (some (Wrapped.initial s).monitored)) with
      | .ok t => t.driver.isSome && t.inputs == [encodeAll twoShifts]
      | .error _ => false) (by decide +kernel)
  rw [Bool.and_eq_true] at htest
  obtain ⟨rfl, hserver⟩ := htest
  cases hrun : serverRun shiftingSockets (cable tdoHigh) (fun _ _ => 0) 3
      (.start (encodeAll twoShifts, 0) (some (Wrapped.initial s).monitored)) with
  | error actions =>
      rw [hrun] at hserver
      cases hserver
  | ok t =>
      rw [hrun] at hserver
      simp only [Bool.and_eq_true, beq_iff_eq] at hserver
      obtain ⟨w', hw'⟩ := Option.isSome_iff_exists.mp hserver.1
      exact ⟨s, (Wrapped.initial s).monitored, t, w', ⟨poweredUp_poweredUp, hactivate,
        setup_unenforced _ (lt_irrefl 0) _⟩, hrun, hw', hserver.2⟩

theorem parse_twoShifts {δ : Type} (D : Driver δ) (heap : ℕ → Octets) :
    (xvc D heap).parse (encodeAll twoShifts) = twoShifts := by
  have hcmds : ∀ c ∈ twoShifts, c.WellFormed := by decide
  have hnext : ∀ c ∈ twoShifts, ∀ rest, (xvc D heap).next (c.encode ++ rest) = some (c, rest) :=
    fun c hc _ => nextCommand_eq_some.mpr ⟨hcmds c hc, rfl⟩
  have hnone : (xvc D heap).parse [] = [] := parse_of_no_command rfl
  rw [← List.append_nil (encodeAll twoShifts), encodeAll,
    CommandStream.parse_encode twoShifts hnext, hnone, List.append_nil]

/-- The target has been clocked to Shift-DR, and with the eight bits there. -/
theorem clients_clock_target_two_shifts : ∃ s w t w' cs,
    Started tdoHigh ft2232hParams 0 poweredUp s w ∧
      serverRun shiftingSockets (cable tdoHigh) (fun _ _ => 0) 3
        (.start (encodeAll twoShifts, 0) (some w)) = .ok t ∧ t.driver = some w' ∧
      w'.driver.usb.engine.cycles = s.usb.engine.cycles ++ cs ∧
      cs.map Cycle.tms = twoShifts.flatMap Command.tmsBits ∧
      shifted .testLogicReset (twoShifts.flatMap Command.tmsBits) (cs.map Cycle.tdi) =
        shifted .testLogicReset (twoShifts.flatMap Command.tmsBits)
          (twoShifts.flatMap Command.tdiBits) := by
  obtain ⟨s, w, t, w', hstarted, hrun, hdriver, hinputs⟩ := exists_shifted
  obtain ⟨cs, hcycles, htms, htdi⟩ := clients_clock_target hstarted shiftingSockets
    (encodeAll twoShifts, 0) (fun _ _ => 0) 3 hrun hdriver
  rw [hinputs, List.flatMap_singleton, parse_twoShifts] at htms htdi
  exact ⟨s, w, t, w', cs, hstarted, hrun, hdriver, hcycles, htms, htdi⟩

end Program

end TinyXvc.Server.Life
