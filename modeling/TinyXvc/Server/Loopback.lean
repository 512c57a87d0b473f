import TinyXvc.Drivers
import TinyXvc.Server.Wrapped

/-!
# The loopback

With the echo driver the program is a loopback: a client reads back the TDI vectors
that it sends, also through the wrapper and whatever the TDO vector held before.
-/

namespace TinyXvc.Server

def echoBacking : Backing Mem where
  maxVectorBits := fun _ => 1024
  tdo := fun m => m.view tdoVector
  withTdo := fun m tdo => m.write tdoVector tdo

/-- What a command is answered; `none` ends the connection. -/
def Command.echo : Command → List Event × Bool
  | .getinfo => ([.maxVectorBits, .response (octets "xvcServer_v1.0:1024\n".toList)], true)
  | .settck 0 => ([.setTckPeriod 0], false)
  | .settck ns => ([.setTckPeriod ns, .response (LittleEndian.octets ns)], true)
  | .shift numBits tms tdi => ([.shiftBits numBits tms tdi, .response tdi], true)

def echoAll : List Command → List Event
  | [] => []
  | c :: cmds => c.echo.1 ++ if c.echo.2 then echoAll cmds else []

variable {w : Wrapped Mem} {heap : ℕ → Octets} {b : Backend (Option (Wrapped Mem))}

theorem map_ofList (l : List UInt8) : (List.range l.length).map (Octets.ofList l) = l := by
  refine List.ext_getElem (by simp) fun i hi hi' => ?_
  simp [Octets.ofList, hi']

/-! ## The driver behind the wrapper -/

theorem echo_setTckPeriod (ns : ℤ) (w : Wrapped Mem) :
    ∃ w', wrapperSetTckPeriod driverEcho ns w = .ok (ns, w') := by
  rw [wrapperSetTckPeriod, Exec.get_bind]
  cases w.setTckPeriod with
  | orig => exact ⟨_, rfl⟩
  | noop => exact ⟨_, rfl⟩
  | onetime => exact ⟨_, rfl⟩

/-- What `shift_bits` leaves in the memory. -/
def echoed (r : SplitRequest) (m : Mem) : Mem :=
  m.write r.tdo fun i => if i < vectorOctets r.numBits then r.tdi i else m.view r.tdo i

theorem echo_shiftBits (r : SplitRequest) (m : Mem) :
    driverEcho.shiftBits r m = .ok (true, echoed r m) := by
  have hsize : r.numBits / 8 + (if r.numBits % 8 ≠ 0 then 1 else 0) = vectorOctets r.numBits := by
    rw [vectorOctets]
    split <;> omega
  unfold driverEcho echoed
  dsimp only
  rw [hsize]
  rfl

theorem vectorBytes_echoed {numBits : ℕ} {tms tdi : List UInt8} (m : Mem)
    (htdi : tdi.length = vectorOctets numBits) :
    vectorBytes numBits ((echoed (shiftRequest numBits tms tdi) m).view tdoVector) = tdi := by
  have hview : (echoed (shiftRequest numBits tms tdi) m).view tdoVector =
      fun i => if i < vectorOctets numBits then Octets.ofList tdi i else m.view tdoVector i :=
    Mem.view_write _ _ _
  have hoctets : ∀ i ∈ List.range (vectorOctets numBits),
      (if i < vectorOctets numBits then Octets.ofList tdi i else m.view tdoVector i) =
        Octets.ofList tdi i := by
    intro i hi
    rw [if_pos (List.mem_range.mp hi)]
  rw [vectorBytes, hview, List.map_congr_left hoctets, ← htdi, map_ofList]

/-! ## Sessions -/

variable (heap) in
theorem serve_echo_shift (hb : b.driver = some w) {numBits : ℕ} (tms : List UInt8)
    {tdi : List UInt8} (htdi : tdi.length = vectorOctets numBits) :
    ∃ b' w', serve (wrapperDriver driverEcho echoBacking) heap b (.shift numBits tms tdi) =
      ((Command.shift numBits tms tdi).echo.1, some b') ∧ b'.driver = some w' := by
  have hanswered : ∃ es b', serve (wrapperDriver driverEcho echoBacking) heap b
      (.shift numBits tms tdi) = (es, some b') :=
    exists_serve_shift hb fun tdo => exists_wrapperShiftBits (d := driverEcho)
      (echo_shiftBits (shiftRequest numBits tms tdi) _) rfl (echo_shiftBits _ _)
  obtain ⟨es, b', hserve⟩ := hanswered
  obtain ⟨w', hb', hanswers⟩ := serve_wrapper hb hserve
  refine ⟨b', w', ?_, hb'⟩
  rw [hserve]
  cases hanswers with
  | shift tdo hshift =>
      have hmem : ∃ m, w'.driver = echoed (shiftRequest numBits tms tdi) m := by
        rcases wrapperShiftBits_eq_ok hshift with hreach | ⟨period, t, hset, hreach⟩
        · rw [echo_shiftBits] at hreach
          exact ⟨_, (congrArg Prod.snd (Except.ok.inj hreach)).symm⟩
        · rw [echo_shiftBits] at hreach
          exact ⟨_, (congrArg Prod.snd (Except.ok.inj hreach)).symm⟩
      obtain ⟨m, hm⟩ := hmem
      have hbytes : vectorBytes numBits (echoBacking.tdo w'.driver) = tdi := by
        rw [hm]
        exact vectorBytes_echoed m htdi
      rw [hbytes, Command.echo]

variable (heap) in
theorem serve_echo_settck (hb : b.driver = some w) {ns : ℕ} (hns : 0 < ns) :
    ∃ b' w', serve (wrapperDriver driverEcho echoBacking) heap b (.settck ns) =
      ((Command.settck ns).echo.1, some b') ∧ b'.driver = some w' := by
  obtain ⟨n, rfl⟩ := Nat.exists_eq_succ_of_ne_zero hns.ne'
  obtain ⟨w', hset⟩ := echo_setTckPeriod ((n + 1 : ℕ) : ℤ) w
  have hpos : (0 : ℤ) < ((n + 1 : ℕ) : ℤ) := by omega
  simp only [serve, wrapperDriver, hb, hset, if_pos hpos]
  exact ⟨_, w', rfl, rfl⟩

variable (heap) in
/-- A command is answered as in a loopback. -/
theorem serve_echo (hb : b.driver = some w) {c : Command} (hc : c.WellFormed) :
    ∃ o, serve (wrapperDriver driverEcho echoBacking) heap b c = (c.echo.1, o) ∧
      if c.echo.2 then ∃ b' w', o = some b' ∧ b'.driver = some w' else o = none := by
  cases c with
  | getinfo =>
      refine ⟨some { b with driver := some w }, ?_, ⟨_, w, rfl, rfl⟩⟩
      have hmax : (0 : ℤ) < echoBacking.maxVectorBits w.driver := (by decide : (0 : ℤ) < 1024)
      have hline : infoLine (echoBacking.maxVectorBits w.driver).toNat =
          octets "xvcServer_v1.0:1024\n".toList :=
        (by decide : infoLine 1024 = octets "xvcServer_v1.0:1024\n".toList)
      simp only [serve, wrapperDriver, hb, if_pos hmax, hline]
      rfl
  | settck ns =>
      cases ns with
      | zero =>
          obtain ⟨w', hset⟩ := echo_setTckPeriod ((0 : ℕ) : ℤ) w
          refine ⟨none, ?_, rfl⟩
          simp only [serve, wrapperDriver, hb, hset]
          rfl
      | succ n =>
          obtain ⟨b', w', hserve, hb'⟩ := serve_echo_settck heap hb (Nat.succ_pos n)
          exact ⟨some b', hserve, b', w', rfl, hb'⟩
  | shift numBits tms tdi =>
      obtain ⟨b', w', hserve, hb'⟩ := serve_echo_shift heap hb tms hc.2.2.2
      exact ⟨some b', hserve, b', w', rfl, hb'⟩

variable (heap) in
theorem serveAll_echo (hb : b.driver = some w) {cmds : List Command}
    (hcmds : ∀ c ∈ cmds, c.WellFormed) :
    ∃ o, (xvc (wrapperDriver driverEcho echoBacking) heap).serveAll b cmds = (echoAll cmds, o) := by
  induction cmds generalizing b w with
  | nil => exact ⟨some b, rfl⟩
  | cons c cmds ih =>
      obtain ⟨hc, hrest⟩ := List.forall_mem_cons.mp hcmds
      obtain ⟨o, hserve, hnext⟩ := serve_echo heap hb hc
      rw [echoAll]
      by_cases hgoes : c.echo.2 = true
      · rw [if_pos hgoes] at hnext ⊢
        obtain ⟨b', w', rfl, hb'⟩ := hnext
        obtain ⟨o', ho'⟩ := ih hb' hrest
        refine ⟨o', ?_⟩
        rw [CommandStream.serveAll_cons_served
          (S := xvc (wrapperDriver driverEcho echoBacking) heap) hserve, ho']
      · rw [if_neg hgoes] at hnext ⊢
        subst hnext
        refine ⟨none, ?_⟩
        rw [CommandStream.serveAll_cons_stopped
          (S := xvc (wrapperDriver driverEcho echoBacking) heap) hserve, List.append_nil]

/-- A client that writes whole commands reads back its periods and its TDI vectors, up to
a period of zero, whatever the wrapper does and however the octets arrive. -/
theorem echo_loops_back (heap : ℕ → Octets) {cmds : List Command}
    (hcmds : ∀ c ∈ cmds, c.WellFormed) {rest : List UInt8}
    (hrest : ∀ c : Command, c.WellFormed → ¬c.encode <+: rest) (closes : Bool) (sch : Schedule)
    {w : Wrapped Mem} (b : Backend (Option (Wrapped Mem))) (hb : b.driver = some w) :
    let io : Client := ⟨encodeAll cmds ++ rest, closes, sch.toArrivals⟩
    ∃ m, ∀ n ≥ m, traceOf (runConnectin (wrapperDriver driverEcho echoBacking) heap io n
      (io.start b)) = echoAll cmds := by
  obtain ⟨o, hserve⟩ := serveAll_echo heap hb hcmds
  have hnext : (xvc (wrapperDriver driverEcho echoBacking) heap).next rest = none :=
    nextCommand_eq_none.mpr hrest
  have htrace := trace_of_commands (wrapperDriver driverEcho echoBacking) heap hcmds rest closes
    sch b
  rw [hserve] at htrace
  cases o with
  | none =>
      dsimp only [Option.elim_none] at htrace
      rw [List.append_nil] at htrace
      exact htrace
  | some b' =>
      dsimp only [Option.elim_some] at htrace
      rw [CommandStream.answers_of_none hnext, List.append_nil] at htrace
      exact htrace

/-- A shift, a period of zero, and a shift that is not answered any more. -/
theorem echo_loops_back_shift :
    ∃ m, ∀ n ≥ m, traceOf (runConnectin (wrapperDriver driverEcho echoBacking) (fun _ _ => 7)
      ⟨encodeAll [.shift 9 [0x01, 0x00] [0xab, 0x01], .settck 0, .shift 3 [0x00] [0x05]] ++ [],
        true, promptSchedule.toArrivals⟩ n
      (Client.start ⟨encodeAll [.shift 9 [0x01, 0x00] [0xab, 0x01], .settck 0,
        .shift 3 [0x00] [0x05]] ++ [], true, promptSchedule.toArrivals⟩
        ⟨some (.initial fun _ _ => 0), 0, fun _ => 0, 0⟩)) =
      [.shiftBits 9 [0x01, 0x00] [0xab, 0x01], .response [0xab, 0x01], .setTckPeriod 0] := by
  have hcmds : ∀ c ∈ [Command.shift 9 [0x01, 0x00] [0xab, 0x01], .settck 0,
      .shift 3 [0x00] [0x05]], c.WellFormed := by decide
  have hrest : ∀ c : Command, c.WellFormed → ¬c.encode <+: [] :=
    nextCommand_eq_none.mp (by decide)
  exact echo_loops_back (fun _ _ => 7) hcmds hrest true promptSchedule
    ⟨some (.initial fun _ _ => 0), 0, fun _ => 0, 0⟩ rfl

end TinyXvc.Server
