import TinyXvc.DriverWrapper
import TinyXvc.Server.Framing
import TinyXvc.Server.StaleBits

/-!
# The server over the wrapper

The program gives the server the wrapper of its driver.  Each command that is
answered goes to the driver underneath, with at most one `set_tck_period` of the
wrapper's own before it.
-/

namespace TinyXvc.Server

/-- What the server has of a driver besides the two methods that the wrapper replaces:
the vector size, and the TDO vector that `shift_bits` writes to. -/
structure Backing (δ : Type) where
  maxVectorBits : δ → ℤ
  tdo : δ → Octets
  withTdo : δ → Octets → δ

/-- `txvcDriverWrapper` behind the server; `none` is a process that has ended. -/
def wrapperDriver {δ : Type} (d : TxvcDriver Abort δ) (m : Backing δ) :
    Driver (Option (Wrapped δ)) where
  maxVectorBits := fun x =>
    match x with
    | none => (0, none)
    | some w => (m.maxVectorBits w.driver, some w)
  setTckPeriod := fun tckPeriodNs x =>
    match x with
    | none => (-1, none)
    | some w =>
        match wrapperSetTckPeriod d tckPeriodNs w with
        | .ok (period, w') => (period, some w')
        | .error _ => (-1, none)
  shiftBits := fun numBits tms tdi tdo x =>
    match x with
    | none => (false, tdo, none)
    | some w =>
        match wrapperShiftBits d (shiftRequest numBits tms tdi)
            { w with driver := m.withTdo w.driver tdo } with
        | .ok (ok, w') => (ok, m.tdo w'.driver, some w')
        | .error _ => (false, tdo, none)

/-- The octets of the first `numBits` bits. -/
def vectorBytes (numBits : ℕ) (v : Octets) : List UInt8 := (List.range (vectorOctets numBits)).map v

section Wrapper

variable {δ : Type} {d : TxvcDriver Abort δ} {m : Backing δ} {w w' : Wrapped δ}

/-! ## What reaches the driver -/

theorem reach_eq_ok {α : Type} {op : DriverOp} {result : α → DriverResult} {x : Exec Abort δ α}
    {a : α} (h : reach op result x w = .ok (a, w')) : x w.driver = .ok (a, w'.driver) := by
  unfold reach at h
  split at h
  · rename_i heq
    cases h
    exact heq
  · cases h

theorem onetimeSetTckPeriod_eq_ok {ns period : ℤ}
    (h : onetimeSetTckPeriod d ns w = .ok (period, w')) :
    d.setTckPeriod ns w.driver = .ok (period, w'.driver) :=
  reach_eq_ok (w := { w with setTckPeriod := .orig }) h

/-- The wrapper ignores the period, or passes it on. -/
theorem wrapperSetTckPeriod_eq_ok {ns period : ℤ}
    (h : wrapperSetTckPeriod d ns w = .ok (period, w')) :
    w'.driver = w.driver ∨ d.setTckPeriod ns w.driver = .ok (period, w'.driver) := by
  rw [wrapperSetTckPeriod, Exec.get_bind] at h
  cases hset : w.setTckPeriod with
  | orig =>
      rw [hset] at h
      exact .inr (reach_eq_ok h)
  | noop =>
      rw [hset] at h
      cases h
      exact .inl rfl
  | onetime =>
      rw [hset] at h
      exact .inr (onetimeSetTckPeriod_eq_ok h)

/-- A shift reaches the driver, perhaps after the default period. -/
theorem wrapperShiftBits_eq_ok {r : SplitRequest} {ok : Bool}
    (h : wrapperShiftBits d r w = .ok (ok, w')) :
    d.shiftBits r w.driver = .ok (ok, w'.driver) ∨
      ∃ period t, d.setTckPeriod defaultTckPeriod w.driver = .ok (period, t) ∧
        d.shiftBits r t = .ok (ok, w'.driver) := by
  rw [wrapperShiftBits, Exec.get_bind] at h
  cases hshift : w.shiftBits with
  | orig =>
      rw [hshift] at h
      exact .inl (reach_eq_ok h)
  | onetime =>
      rw [hshift] at h
      dsimp only at h
      rw [onetimeShiftBits, Exec.get_bind] at h
      split at h
      · obtain ⟨period, v, hset, hrest⟩ := Exec.bind_eq_ok h
        exact .inr ⟨period, v.driver, onetimeSetTckPeriod_eq_ok hset,
          reach_eq_ok (w := { v with shiftBits := .orig }) hrest⟩
      · exact .inl (reach_eq_ok (w := { w with shiftBits := .orig }) h)

theorem exists_reach {α : Type} (op : DriverOp) (result : α → DriverResult)
    {x : Exec Abort δ α} {a : α} {t : δ} (h : x w.driver = .ok (a, t)) :
    ∃ w', reach op result x w = .ok (a, w') := by
  rw [reach, h]
  exact ⟨_, rfl⟩

theorem exists_onetimeSetTckPeriod {ns period : ℤ} {t : δ}
    (h : d.setTckPeriod ns w.driver = .ok (period, t)) :
    ∃ w', onetimeSetTckPeriod d ns w = .ok (period, w') ∧ w'.driver = t := by
  obtain ⟨w', hrun⟩ := exists_reach (w := { w with setTckPeriod := .orig }) (.setTckPeriod ns)
    .period h
  have hdriver := onetimeSetTckPeriod_eq_ok (d := d) (w := w) hrun
  rw [h] at hdriver
  cases hdriver
  exact ⟨w', hrun, rfl⟩

/-- The wrapper does not refuse a period that the driver accepts. -/
theorem exists_wrapperSetTckPeriod {ns period : ℤ} {t : δ} (hns : 0 < ns) (hperiod : 0 < period)
    (h : d.setTckPeriod ns w.driver = .ok (period, t)) :
    ∃ actual w', wrapperSetTckPeriod d ns w = .ok (actual, w') ∧ 0 < actual := by
  rw [wrapperSetTckPeriod, Exec.get_bind]
  cases w.setTckPeriod with
  | orig =>
      obtain ⟨w', hrun⟩ := exists_reach (.setTckPeriod ns) .period h
      exact ⟨period, w', hrun, hperiod⟩
  | noop => exact ⟨ns, w, rfl, hns⟩
  | onetime =>
      obtain ⟨w', hrun, -⟩ := exists_onetimeSetTckPeriod h
      exact ⟨period, w', hrun, hperiod⟩

/-- Nor a shift that the driver accepts, before and after the default period. -/
theorem exists_wrapperShiftBits {r : SplitRequest} {t u v : δ} {period : ℤ}
    (hshift : d.shiftBits r w.driver = .ok (true, t))
    (hset : d.setTckPeriod defaultTckPeriod w.driver = .ok (period, u))
    (hafter : d.shiftBits r u = .ok (true, v)) : ∃ w', wrapperShiftBits d r w = .ok (true, w') := by
  rw [wrapperShiftBits, Exec.get_bind]
  cases w.shiftBits with
  | orig => exact exists_reach (.shiftBits r) .shifted hshift
  | onetime =>
      dsimp only
      rw [onetimeShiftBits, Exec.get_bind]
      split
      · obtain ⟨w', hrun, rfl⟩ := exists_onetimeSetTckPeriod hset
        rw [Exec.bind_ok hrun]
        exact exists_reach (w := { w' with shiftBits := .orig }) (.shiftBits r) .shifted hafter
      · exact exists_reach (w := { w with shiftBits := .orig }) (.shiftBits r) .shifted hshift

/-! ## Answered commands -/

variable (d m) in
/-- The command is answered with `es`, and takes the wrapper from `w` to `w'`. -/
inductive Answers : Wrapped δ → Command → List Event → Wrapped δ → Prop
  | getinfo {w : Wrapped δ} : 0 < m.maxVectorBits w.driver →
      Answers w .getinfo
        [.maxVectorBits, .response (infoLine (m.maxVectorBits w.driver).toNat)] w
  | settck {w w' : Wrapped δ} {ns : ℕ} {period : ℤ} :
      wrapperSetTckPeriod d ns w = .ok (period, w') → 0 < period →
        Answers w (.settck ns) [.setTckPeriod ns, .response (LittleEndian.octets period.toNat)] w'
  | shift {w w' : Wrapped δ} {numBits : ℕ} {tms tdi : List UInt8} (tdo : Octets) :
      wrapperShiftBits d (shiftRequest numBits tms tdi)
          { w with driver := m.withTdo w.driver tdo } = .ok (true, w') →
        Answers w (.shift numBits tms tdi)
          [.shiftBits numBits tms tdi, .response (vectorBytes numBits (m.tdo w'.driver))] w'

variable {heap : ℕ → Octets} {b b' : Backend (Option (Wrapped δ))} {c : Command} {es : List Event}

theorem driver_resized (heap : ℕ → Octets) (b : Backend (Option (Wrapped δ))) (size : ℕ) :
    (if b.vectorNumBytes < size then allocateVectors heap size b else b).driver = b.driver := by
  split
  · rfl
  · rfl

theorem serve_wrapper (hb : b.driver = some w)
    (h : serve (wrapperDriver d m) heap b c = (es, some b')) :
    ∃ w', b'.driver = some w' ∧ Answers d m w c es w' := by
  cases c with
  | getinfo =>
      simp only [serve, wrapperDriver, hb] at h
      split at h
      · cases h
        exact ⟨w, rfl, .getinfo ‹_›⟩
      · cases h
  | settck ns =>
      simp only [serve, wrapperDriver, hb] at h
      cases hset : wrapperSetTckPeriod d ns w with
      | error e =>
          rw [hset] at h
          cases h
      | ok p =>
          obtain ⟨period, w'⟩ := p
          rw [hset] at h
          dsimp only at h
          split at h
          · cases h
            exact ⟨w', rfl, .settck hset ‹_›⟩
          · cases h
  | shift numBits tms tdi =>
      have hdriver := (driver_resized heap b (vectorOctets numBits)).trans hb
      simp only [serve] at h
      generalize (if b.vectorNumBytes < vectorOctets numBits then
        allocateVectors heap (vectorOctets numBits) b else b) = b₁ at h hdriver
      simp only [wrapperDriver, hdriver] at h
      cases hshift : wrapperShiftBits d (shiftRequest numBits tms tdi)
          { w with driver := m.withTdo w.driver b₁.tdoVector } with
      | error e =>
          rw [hshift] at h
          cases h
      | ok p =>
          obtain ⟨ok, w'⟩ := p
          rw [hshift] at h
          cases ok with
          | false => cases h
          | true =>
              cases h
              exact ⟨w', rfl, .shift _ hshift⟩

/-! ## Sessions -/

variable (d m) in
/-- The commands of a client with what they are answered. -/
inductive Session : Wrapped δ → List Command → List Event → Wrapped δ → Prop
  | nil (w : Wrapped δ) : Session w [] [] w
  | cons {w w' w'' : Wrapped δ} {c : Command} {cs : List Command} {es fs : List Event} :
      Answers d m w c es w' → Session w' cs fs w'' → Session w (c :: cs) (es ++ fs) w''

theorem serveAll_wrapper {cmds : List Command} (hb : b.driver = some w)
    (h : (xvc (wrapperDriver d m) heap).serveAll b cmds = (es, some b')) :
    ∃ w', b'.driver = some w' ∧ Session d m w cmds es w' := by
  induction cmds generalizing w b es with
  | nil =>
      cases h
      exact ⟨w, hb, .nil w⟩
  | cons c cmds ih =>
      cases hserve : serve (wrapperDriver d m) heap b c with
      | mk fs next =>
          cases next with
          | none =>
              rw [CommandStream.serveAll_cons_stopped (S := xvc (wrapperDriver d m) heap)
                hserve] at h
              cases h
          | some b₁ =>
              rw [CommandStream.serveAll_cons_served (S := xvc (wrapperDriver d m) heap)
                hserve] at h
              obtain ⟨hes, hsome⟩ := Prod.mk.inj h
              obtain ⟨w₁, hw₁, hanswers⟩ := serve_wrapper hb hserve
              obtain ⟨w', hw', hrest⟩ := ih hw₁ (Prod.ext rfl hsome)
              exact ⟨w', hw', hes ▸ .cons hanswers hrest⟩

/-- A driver that fails has been called once for the command. -/
theorem serve_eq_none (D : Driver (Option (Wrapped δ)))
    (h : serve D heap b c = (es, none)) : ∃ call, es = [call] := by
  cases c with
  | getinfo =>
      simp only [serve] at h
      split at h
      · cases h
      · cases h
        exact ⟨_, rfl⟩
  | settck ns =>
      simp only [serve] at h
      split at h
      · cases h
      · cases h
        exact ⟨_, rfl⟩
  | shift numBits tms tdi =>
      simp only [serve] at h
      generalize (if b.vectorNumBytes < vectorOctets numBits then
        allocateVectors heap (vectorOctets numBits) b else b) = b₁ at h
      split at h
      · cases h
      · cases h
        exact ⟨_, rfl⟩

variable (d m) in
/-- The connection has answered `cmds`, and the driver is the one of `w'`. -/
structure Underway (io : Client) (w : Wrapped δ) (cmds : List Command) (w' : Wrapped δ)
    (s : Conn (Option (Wrapped δ))) : Prop where
  wellFormed : ∀ c ∈ cmds, c.WellFormed
  stream : io.stream = encodeAll cmds ++ s.unread
  session : Session d m w cmds s.trace w'
  driver : s.backend.driver = some w'

variable (d m) in
/-- The connection has answered `cmds` with `es`, and perhaps called a driver that failed. -/
structure Over (io : Client) (w : Wrapped δ) (trace : List Event) (cmds : List Command)
    (es : List Event) (w' : Wrapped δ) : Prop where
  wellFormed : ∀ c ∈ cmds, c.WellFormed
  stream : encodeAll cmds <+: io.stream
  session : Session d m w cmds es w'
  trace : trace = es ∨ ∃ call, trace = es ++ [call]

theorem over_of_framedEnd {io : Client} {cmds : List Command} {rest : List UInt8}
    {trace : List Event} (hb : b.driver = some w)
    (h : FramedEnd (wrapperDriver d m) heap io b cmds rest trace) :
    ∃ cmds es w', Over d m io w trace cmds es w' := by
  obtain ⟨hwf, hstream, hserved, -⟩ := h
  cases hall : (xvc (wrapperDriver d m) heap).serveAll b cmds with
  | mk es next =>
      rw [hall] at hserved
      cases next with
      | some b' =>
          obtain ⟨w', -, hsession⟩ := serveAll_wrapper hb hall
          exact ⟨cmds, es, w', hwf, ⟨rest, hstream.symm⟩, hsession, .inl hserved.symm⟩
      | none =>
          obtain ⟨pre, c, post, fs, b', gs, rfl, hpre, hc, hes⟩ :=
            CommandStream.serveAll_eq_none hall
          obtain ⟨w', -, hsession⟩ := serveAll_wrapper hb hpre
          obtain ⟨call, rfl⟩ := serve_eq_none (wrapperDriver d m) hc
          refine ⟨pre, fs, w', fun c hc => hwf c (List.mem_append_left _ hc), ?_, hsession,
            .inr ⟨call, hserved.symm.trans hes⟩⟩
          rw [hstream, encodeAll_append, List.append_assoc]
          exact List.prefix_append _ _

/-- At every moment a connection has been a session. -/
theorem runConnectin_session {io : Client} (hb : b.driver = some w) (n : ℕ) :
    Exec.wp (runConnectin (wrapperDriver d m) heap io n)
      (fun returned s =>
        if returned then ∃ cmds es w', Over d m io w s.trace cmds es w'
        else ∃ cmds w', Underway d m io w cmds w' s)
      (fun _ s => ∃ cmds es w', Over d m io w s.trace cmds es w') (io.start b) := by
  refine Exec.wp_mono (runConnectin_framed n (framed_start io b)) ?_ ?_
  · intro returned s hs
    cases returned with
    | true =>
        obtain ⟨cmds, rest, h⟩ := hs
        exact over_of_framedEnd hb h
    | false =>
        obtain ⟨cmds, hwf, hstream, hserved⟩ := hs
        obtain ⟨w', hdriver, hsession⟩ := serveAll_wrapper hb hserved
        exact ⟨cmds, w', hwf, hstream, hsession, hdriver⟩
  · rintro _ s ⟨cmds, rest, h⟩
    exact over_of_framedEnd hb h

/-! ## Commands that are answered for certain -/

theorem exists_serve_getinfo (hb : b.driver = some w) (hmax : 0 < m.maxVectorBits w.driver) :
    ∃ es b', serve (wrapperDriver d m) heap b .getinfo = (es, some b') := by
  simp only [serve, wrapperDriver, hb, if_pos hmax]
  exact ⟨_, _, rfl⟩

theorem exists_serve_settck (hb : b.driver = some w) {ns : ℕ} {period : ℤ}
    (hset : wrapperSetTckPeriod d ns w = .ok (period, w')) (hperiod : 0 < period) :
    ∃ es b', serve (wrapperDriver d m) heap b (.settck ns) = (es, some b') := by
  simp only [serve, wrapperDriver, hb, hset, if_pos hperiod]
  exact ⟨_, _, rfl⟩

theorem exists_serve_shift (hb : b.driver = some w) {numBits : ℕ} {tms tdi : List UInt8}
    (hshift : ∀ tdo, ∃ w', wrapperShiftBits d (shiftRequest numBits tms tdi)
      { w with driver := m.withTdo w.driver tdo } = .ok (true, w')) :
    ∃ es b', serve (wrapperDriver d m) heap b (.shift numBits tms tdi) = (es, some b') := by
  have hdriver := (driver_resized heap b (vectorOctets numBits)).trans hb
  simp only [serve]
  generalize (if b.vectorNumBytes < vectorOctets numBits then
    allocateVectors heap (vectorOctets numBits) b else b) = b₁ at hdriver ⊢
  obtain ⟨w', hw'⟩ := hshift b₁.tdoVector
  simp only [wrapperDriver, hdriver, hw']
  exact ⟨_, _, rfl⟩

end Wrapper

end TinyXvc.Server
