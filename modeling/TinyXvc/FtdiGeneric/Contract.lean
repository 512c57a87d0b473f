import TinyXvc.Interface
import TinyXvc.FtdiGeneric.Operations
import TinyXvc.FtdiGeneric.TckPeriod
import TinyXvc.JtagSplitter.Tracking

/-!
# The contract of `shift_bits`

On a healthy link a call clocks the vector, bit for bit, and stores the samples
of the cycles in which the TAP shifts.  The splitter's state is the TAP's, from
`activate` on and through any sequence of calls.
-/

namespace TinyXvc

open Mpsse Jtag

/-- The TAP at bit `k` of the vector, if the vector finds it in `tap`. -/
def SplitRequest.tapAt (r : SplitRequest) (tap : Tap) (k : ℕ) : Tap := tap.run (r.tms.bits 0 k)

theorem SplitRequest.tapAt_isShift (r : SplitRequest) (st : JtagState) (k : ℕ) :
    (r.tapAt st.tap k).IsShift ↔ (r.stateAt st k).isShift = true := by
  rw [JtagState.isShift_iff, stateAt, JtagState.tap_run]
  rfl

/-- The cycles `cs` shift the bits of a vector from bit `a` on, and take the
memory from `m` to `m'`. -/
structure Shifted (r : SplitRequest) (tap : Tap) (a : ℕ) (cs : List Cycle) (m m' : Mem) : Prop where
  tms : cs.map Cycle.tms = r.tms.bits a cs.length
  tdi : ∀ k (hk : k < cs.length), (r.tapAt tap (a + k)).IsShift → cs[k].tdi = r.tdi.bit (a + k)
  tdo : ∀ b i, (m' b).bit i =
    if b = r.tdo.block ∧ 8 * r.tdo.off + a ≤ i ∧ i < 8 * r.tdo.off + a + cs.length ∧
        (r.tapAt tap (i - 8 * r.tdo.off)).IsShift then
      ((cs.map Cycle.tdo)[i - (8 * r.tdo.off + a)]?).getD false
    else (m b).bit i

section Ranges

variable {r : SplitRequest} {tap : Tap}

theorem shifted_nil (a : ℕ) (m : Mem) : Shifted r tap a [] m m where
  tms := rfl
  tdi := fun k hk => absurd hk (Nat.not_lt_zero k)
  tdo := by
    intro b i
    rw [if_neg]
    rintro ⟨-, hlo, hhi, -⟩
    rw [List.length_nil] at hhi
    omega

theorem Shifted.append {a : ℕ} {cs cs' : List Cycle} {m m' m'' : Mem}
    (h : Shifted r tap a cs m m') (h' : Shifted r tap (a + cs.length) cs' m' m'') :
    Shifted r tap a (cs ++ cs') m m'' where
  tms := by rw [List.map_append, h.tms, h'.tms, List.length_append, Octets.bits_add]
  tdi := by
    intro k hk hshift
    by_cases hfirst : k < cs.length
    · rw [List.getElem_append_left hfirst]
      exact h.tdi k hfirst hshift
    · have hk' : k - cs.length < cs'.length := by
        rw [List.length_append] at hk
        omega
      have hidx : a + cs.length + (k - cs.length) = a + k := by omega
      rw [List.getElem_append_right (Nat.le_of_not_lt hfirst)]
      have htdi := h'.tdi (k - cs.length) hk'
      rw [hidx] at htdi
      exact htdi hshift
  tdo := by
    intro b i
    rw [h'.tdo b i, h.tdo b i]
    by_cases hshift : b = r.tdo.block ∧ (r.tapAt tap (i - 8 * r.tdo.off)).IsShift
    · simp only [hshift, true_and, and_true, List.length_append, List.map_append]
      by_cases hy : 8 * r.tdo.off + (a + cs.length) ≤ i ∧
          i < 8 * r.tdo.off + (a + cs.length) + cs'.length
      · have hidx : i - (8 * r.tdo.off + a) - cs.length =
            i - (8 * r.tdo.off + (a + cs.length)) := by
          omega
        rw [if_pos hy, if_pos (by omega),
          List.getElem?_append_right (by rw [List.length_map]; omega),
          List.length_map, hidx]
      · rw [if_neg hy]
        by_cases hx : 8 * r.tdo.off + a ≤ i ∧ i < 8 * r.tdo.off + a + cs.length
        · rw [if_pos hx, if_pos (by omega),
            List.getElem?_append_left (by rw [List.length_map]; omega)]
        · rw [if_neg hx, if_neg (by omega)]
    · rw [if_neg (fun hc => hshift ⟨hc.1, hc.2.2.2⟩), if_neg (fun hc => hshift ⟨hc.1, hc.2.2.2⟩),
        if_neg (fun hc => hshift ⟨hc.1, hc.2.2.2⟩)]

variable {dev : Device}

theorem tms_clock (h : List Cycle) (ls : List (Bool × Bool)) :
    (dev.clock h ls).map Cycle.tms = ls.map Prod.fst := by
  conv_rhs => rw [← dev.map_clock h ls]
  rw [List.map_map]
  rfl

theorem tdi_clock (h : List Cycle) (ls : List (Bool × Bool)) {k : ℕ}
    (hk : k < (dev.clock h ls).length) (hk' : k < ls.length) :
    (dev.clock h ls)[k].tdi = ls[k].2 := by
  have hmap := List.getElem_map (fun c : Cycle => (c.tms, c.tdi)) (l := dev.clock h ls)
    (h := by rw [List.length_map]; exact hk)
  simp only [dev.map_clock] at hmap
  rw [hmap]

/-- An engine that shifted bits up to a shift state holds TMS low. -/
theorem Shifted.low {st : JtagState} {a : ℕ} {e : Engine} {ls : List (Bool × Bool)} {m m' : Mem}
    (h : Shifted r tap a (dev.clock e.cycles ls) m m') (hne : ls ≠ [])
    (hshift : (r.stateAt st (a + ls.length)).isShift = true) :
    (e.clocked dev ls).tmsLevel = false := by
  obtain ⟨n, hn⟩ : ∃ n, ls.length = n + 1 :=
    Nat.exists_eq_succ_of_ne_zero fun hzero => hne (List.length_eq_zero_iff.mp hzero)
  have htms := h.tms
  rw [tms_clock, Device.length_clock, hn] at htms
  have hlast : (ls.map Prod.fst).getLast? = some (r.tms.bit (a + n)) := by
    rw [htms, Octets.bits_add, Octets.bits_succ]
    simp
  rw [hn, ← Nat.add_assoc, SplitRequest.stateAt_succ] at hshift
  rw [Engine.clocked, ← List.getLast?_map, hlast]
  exact nextState_isShift_low hshift

variable {s : Sys Usb} {st : JtagState}

/-- What an operation that shifts the bits from `a` to `b` does in the settled view. -/
def ShiftsTo (dev : Device) (r : SplitRequest) (st : JtagState) (a b : ℕ) (s s' : Sys Usb) : Prop :=
  ∃ ls : List (Bool × Bool), a + ls.length = b ∧
    s'.settledEngine dev = (s.settledEngine dev).clocked dev ls ∧
    Shifted r st.tap a (dev.clock (s.settledEngine dev).cycles ls) (s.settledMem dev)
      (s'.settledMem dev)

theorem ShiftsTo.trans {a b c : ℕ} {s s' s'' : Sys Usb} (h : ShiftsTo dev r st a b s s')
    (h' : ShiftsTo dev r st b c s' s'') : ShiftsTo dev r st a c s s'' := by
  obtain ⟨ls, rfl, hengine, hshifted⟩ := h
  obtain ⟨ls', rfl, hengine', hshifted'⟩ := h'
  refine ⟨ls ++ ls', ?_, ?_, ?_⟩
  · rw [List.length_append, Nat.add_assoc]
  · rw [hengine', hengine, Engine.clocked_append]
  · rw [dev.clock_append]
    rw [hengine] at hshifted'
    refine hshifted.append ?_
    rw [Device.length_clock]
    exact hshifted'

/-- After the bits up to `b`, an engine in a shift state holds TMS low. -/
theorem ShiftsTo.next {a b : ℕ} {s s' : Sys Usb} (h : ShiftsTo dev r st a b s s') (hab : a < b) :
    (s'.settledEngine dev).awaiting = .opcode ∧
      ((r.stateAt st b).isShift = true → (s'.settledEngine dev).tmsLevel = false) := by
  obtain ⟨ls, rfl, hengine, hshifted⟩ := h
  have hls : ls ≠ [] := by
    rintro rfl
    exact absurd hab (lt_irrefl a)
  rw [hengine]
  exact ⟨rfl, hshifted.low hls⟩

theorem shiftsTo_tms {x : SplitRange} (hkind : x.kind = .tms) (hdec : x.Decodes r st)
    (lastTdi : Bool)
    {s s' : Sys Usb}
    (hsettled : s'.settled dev = ((s.settledEngine dev).clocked dev
      (levels (tmsShiftLevel r.tms lastTdi) x.fromBitIdx (x.toBitIdx - x.fromBitIdx)),
        s.settledMem dev)) :
    ShiftsTo dev r st x.fromBitIdx x.toBitIdx s s' := by
  have hne := x.nonempty
  have hnoShift : ∀ k, x.fromBitIdx ≤ k → k < x.toBitIdx → ¬ (r.tapAt st.tap k).IsShift := by
    intro k hlo hhi hshift
    have hstate := hdec k hlo hhi
    rw [hkind] at hstate
    rw [SplitRequest.tapAt_isShift, hstate] at hshift
    cases hshift
  refine ⟨_, ?_, congrArg Prod.fst hsettled, ?_, ?_, ?_⟩
  · rw [length_levels]
    omega
  · rw [tms_clock, Device.length_clock, length_levels, levels, List.map_map]
    rfl
  · intro k hk hshift
    rw [Device.length_clock, length_levels] at hk
    exact absurd hshift (hnoShift _ (Nat.le_add_right _ _) (by omega))
  · intro b i
    have hmem : s'.settledMem dev = s.settledMem dev := congrArg Prod.snd hsettled
    rw [hmem, if_neg]
    rintro ⟨-, hlo, hhi, hshift⟩
    rw [Device.length_clock, length_levels] at hhi
    exact hnoShift _ (by omega) (by omega) hshift

theorem shiftsTo_tdi {x : SplitRange} {incomplete : Bool} (hkind : x.kind = .tdi incomplete)
    (hdec : x.Decodes r st) {s s' : Sys Usb} (hlow : (s.settledEngine dev).tmsLevel = false)
    {ls : List (Bool × Bool)}
    (hls : ls = levels (TdiShift.level ⟨r.tdi, r.tdo, x.fromBitIdx, x.toBitIdx, !incomplete⟩
      (s.settledEngine dev).tmsLevel) x.fromBitIdx (x.toBitIdx - x.fromBitIdx))
    (hengine : s'.settledEngine dev = (s.settledEngine dev).clocked dev ls)
    (hstored : Stored (s.settledMem dev) (s'.settledMem dev) r.tdo x.fromBitIdx
      ((dev.clock (s.settledEngine dev).cycles ls).map Cycle.tdo)) :
    ShiftsTo dev r st x.fromBitIdx x.toBitIdx s s' := by
  have hne := x.nonempty
  have hbits : ∀ k, x.fromBitIdx ≤ k → k < x.toBitIdx → (r.tapAt st.tap k).IsShift ∧
      r.tms.bit k = (decide (k + 1 = x.toBitIdx) && !incomplete) := by
    intro k hlo hhi
    have hstate := hdec k hlo hhi
    rw [hkind] at hstate
    exact ⟨(r.tapAt_isShift st k).mpr hstate.1, hstate.2⟩
  have hlen : ls.length = x.toBitIdx - x.fromBitIdx := by rw [hls, length_levels]
  refine ⟨ls, ?_, hengine, ?_, ?_, ?_⟩
  · rw [hlen]
    omega
  · rw [tms_clock, Device.length_clock, hlen, hls, hlow, levels, List.map_map]
    apply List.map_congr_left
    intro i hi
    rw [List.mem_range] at hi
    rw [(hbits (x.fromBitIdx + i) (Nat.le_add_right _ _) (by omega)).2]
    by_cases hend : x.fromBitIdx + i + 1 = x.toBitIdx
    · simp [TdiShift.level, hend]
    · simp [TdiShift.level, hend]
  · intro k hk _
    rw [Device.length_clock] at hk
    rw [tdi_clock _ _ _ hk]
    simp [hls, levels, TdiShift.level]
  · intro b i
    rw [hstored b i, List.length_map]
    by_cases hin : b = r.tdo.block ∧ 8 * r.tdo.off + x.fromBitIdx ≤ i ∧
        i < 8 * r.tdo.off + x.fromBitIdx + (dev.clock (s.settledEngine dev).cycles ls).length
    · have hshift : (r.tapAt st.tap (i - 8 * r.tdo.off)).IsShift := by
        have hhi := hin.2.2
        rw [Device.length_clock, hlen] at hhi
        exact (hbits _ (by omega) (by omega)).1
      rw [if_pos hin, if_pos ⟨hin.1, hin.2.1, hin.2.2, hshift⟩]
    · rw [if_neg hin, if_neg fun hc => hin ⟨hc.1, hc.2.1, hc.2.2.1⟩]

theorem range_spec (h : Linked dev s) (he : (s.settledEngine dev).awaiting = .opcode)
    {x : SplitRange} (hdec : x.Decodes r st)
    (hlow : (r.stateAt st x.fromBitIdx).isShift = true → (s.settledEngine dev).tmsLevel = false) :
    Exec.wp (jtagSplitterCallback (link dev) (x.event r))
      (fun ok s' => ok = true ∧ Linked dev s' ∧ s'.gFtdi.fixed = s.gFtdi.fixed ∧
        ShiftsTo dev r st x.fromBitIdx x.toBitIdx s s')
      (OomSafe dev s.gFtdi.chipBufferBytes) s := by
  have hne := x.nonempty
  cases hkind : x.kind with
  | tms =>
      rw [SplitRange.event, hkind]
      refine Exec.wp_mono (callback_tms h he r.tms hne) ?_ (fun _ _ hoom => hoom)
      rintro ok s' ⟨rfl, hlinked, hfixed, hsettled⟩
      exact ⟨rfl, hlinked, hfixed, shiftsTo_tms hkind hdec _ hsettled⟩
  | tdi incomplete =>
      have hstate := hdec x.fromBitIdx le_rfl hne
      rw [hkind] at hstate
      rw [SplitRange.event, hkind]
      refine Exec.wp_mono
        (callback_tdi h he ⟨r.tdi, r.tdo, x.fromBitIdx, x.toBitIdx, !incomplete⟩ hne) ?_
        (fun _ _ hoom => hoom)
      rintro ok s' ⟨rfl, hlinked, hfixed, ls, hls, hengine, hstored⟩
      exact ⟨rfl, hlinked, hfixed, shiftsTo_tdi hkind hdec (hlow hstate.1) hls hengine hstored⟩

/-- The ranges of a vector, one after the other. -/
theorem ranges_spec (h : Linked dev s) (he : (s.settledEngine dev).awaiting = .opcode)
    {xs : List SplitRange} {a b : ℕ} (htile : Tiles a b xs) (hdec : ∀ x ∈ xs, x.Decodes r st)
    (hlow : (r.stateAt st a).isShift = true → (s.settledEngine dev).tmsLevel = false) :
    Exec.wp ((xs.map (SplitRange.event r)).allM (jtagSplitterCallback (link dev)))
      (fun ok s' => ok = true ∧ Linked dev s' ∧ (s'.settledEngine dev).awaiting = .opcode ∧
        ((r.stateAt st b).isShift = true → (s'.settledEngine dev).tmsLevel = false) ∧
        s'.gFtdi.fixed = s.gFtdi.fixed ∧ ShiftsTo dev r st a b s s')
      (OomSafe dev s.gFtdi.chipBufferBytes) s := by
  induction xs generalizing s a with
  | nil =>
      have hab : a = b := htile
      subst hab
      exact ⟨rfl, h, he, hlow, rfl, [], rfl, (Engine.clocked_nil dev he).symm, shifted_nil a _⟩
  | cons x xs ih =>
      obtain ⟨rfl, htail⟩ := htile
      have hne := x.nonempty
      rw [List.map_cons, List.allM_cons, Exec.wp_bind]
      refine Exec.wp_mono (range_spec h he (hdec x List.mem_cons_self) hlow) ?_
        (fun _ _ hoom => hoom)
      rintro ok t ⟨rfl, hlinked, hfixed, hshifts⟩
      have hchip : t.gFtdi.chipBufferBytes = s.gFtdi.chipBufferBytes :=
        congrArg (fun p => p.1) hfixed
      have hnext := hshifts.next hne
      refine Exec.wp_mono (ih hlinked hnext.1 htail
        (fun y hy => hdec y (List.mem_cons_of_mem x hy)) hnext.2) ?_ ?_
      · rintro ok u ⟨rfl, hlinked', he', hlow', hfixed', hshifts'⟩
        exact ⟨rfl, hlinked', he', hlow', hfixed'.trans hfixed, hshifts.trans hshifts'⟩
      · rw [hchip]
        exact fun _ _ hoom => hoom

end Ranges

/-! ## Whole calls -/

def DriverOp.perform {τ : Type} (io : D2xx τ) : DriverOp → Prog τ Unit
  | .setTckPeriod tckPeriodNs => do let _ ← TinyXvc.setTckPeriod io tckPeriodNs
  | .shiftBits r => do let _ ← TinyXvc.shiftBits io r

/-- The chip has just entered MPSSE mode. -/
structure PoweredUp (s : Sys Usb) : Prop where
  unread : s.usb.unread = []
  awaiting : s.usb.engine.awaiting = .opcode
  flushes : s.flushes = []
  calls : s.calls = []

/-- The link is in order and no command is incomplete. -/
structure Ready (dev : Device) (chipBufferBytes : ℕ) (s : Sys Usb) : Prop where
  linked : Linked dev s
  awaiting : (s.settledEngine dev).awaiting = .opcode
  chip : s.gFtdi.chipBufferBytes = chipBufferBytes

/-- The TAP, if the first cycle found it in `tap₀`. -/
def Sys.tap (tap₀ : Tap) (s : Sys Usb) : Tap := tap₀.run (s.usb.engine.cycles.map Cycle.tms)

def FlushesSafe (dev : Device) (chipBufferBytes : ℕ) (s : Sys Usb) : Prop :=
  ∀ f ∈ s.flushes, FlushSafe dev chipBufferBytes f

/-- Nothing is queued, and the splitter knows the TAP. -/
structure InStep (dev : Device) (chipBufferBytes : ℕ) (tap₀ : Tap) (s : Sys Usb) : Prop
    extends Ready dev chipBufferBytes s where
  drained : s.buffer.txData = []
  tracks : s.gFtdi.jtagSplitter.state.tap = s.tap tap₀
  low : s.gFtdi.jtagSplitter.state.isShift = true → s.usb.engine.tmsLevel = false

variable {dev : Device} {chip : ℕ} {tap₀ : Tap} {s : Sys Usb}

theorem Ready.flushesSafe (h : Ready dev chip s) : FlushesSafe dev chip s := by
  rw [← h.chip]
  exact h.linked.flushes

theorem Linked.settled_of_drained (h : Linked dev s) (hnil : s.buffer.txData = []) :
    s.settledEngine dev = s.usb.engine ∧ s.settledMem dev = s.mem := by
  have hreplies : s.pendingReplies dev = [] := by rw [Sys.pendingReplies, hnil, Engine.replies_nil]
  have hzero : s.buffer.rxNumBytes = 0 := by rw [← h.replies, hreplies, List.length_nil]
  refine ⟨?_, ?_⟩
  · rw [Sys.settledEngine, hnil, Engine.feed_nil]
  · rw [Sys.settledMem, h.observers_nil hzero, List.foldl_nil]

/-- What a call of `shift_bits` does. -/
structure CallShifts (tap₀ : Tap) (r : SplitRequest) (s s' : Sys Usb) (cs : List Cycle) : Prop where
  cycles : s'.usb.engine.cycles = s.usb.engine.cycles ++ cs
  length : cs.length = r.numBits
  shifted : Shifted r (s.tap tap₀) 0 cs s.mem s'.mem

theorem CallShifts.tap {r : SplitRequest} {s s' : Sys Usb} {cs : List Cycle}
    (h : CallShifts tap₀ r s s' cs) : s'.tap tap₀ = (s.tap tap₀).run r.tmsBits := by
  rw [Sys.tap, h.cycles, List.map_append, Tap.run_append, h.shifted.tms, h.length]
  rfl

/-- A call clocks the device on from the cycles before it. -/
theorem shiftBits_clocks (h : InStep dev chip tap₀ s) (r : SplitRequest) :
    Exec.wp (shiftBits (link dev) r)
      (fun ok s' => ok = true ∧ InStep dev chip tap₀ s' ∧
        ∃ ls, CallShifts tap₀ r s s' (dev.clock s.usb.engine.cycles ls))
      (fun e s' => OomSafe dev chip e s' ∨ ¬ r.FitsInt) s := by
  obtain ⟨⟨hlinked, hawaiting, rfl⟩, hdrained, htracks, hlow⟩ := h
  obtain ⟨hengine, hmem⟩ := hlinked.settled_of_drained hdrained
  have hranges := ranges_spec hlinked hawaiting (r := r) (r.ranges_tile s.gFtdi.jtagSplitter.state)
    (r.ranges_decode s.gFtdi.jtagSplitter.state) (by rw [hengine]; exact hlow)
  unfold shiftBits
  rw [Exec.wp_bind, Exec.wp_get, Exec.wp_bind, Exec.wp]
  rcases process_eq_or (jtagSplitterCallback (link dev)) r s.gFtdi.jtagSplitter s with
    hdeliver | ⟨hfit, s', herror⟩
  swap
  · rw [herror]
    exact Or.inr hfit
  rw [hdeliver]
  change Exec.wp (deliver _ r _ >>= settle _ _) _ _ s
  rw [Exec.wp_bind, deliver, Exec.wp_bind, SplitRequest.events, Exec.allM_append, Exec.wp_bind]
  refine Exec.wp_mono hranges ?_ (fun _ _ hoom => Or.inl hoom)
  rintro ok t ⟨rfl, hlinked', hawaiting', hlow', hfixed, ls, hlen, hengine', hshifted⟩
  rw [if_pos rfl, List.allM_cons, Exec.wp_bind_ok (callback_flush hlinked')]
  rw [hengine] at hengine' hshifted
  rw [hmem, htracks] at hshifted
  have hcs : CallShifts tap₀ r s (t.flushedAll dev) (dev.clock s.usb.engine.cycles ls) := by
    refine ⟨congrArg Engine.cycles hengine', ?_, hshifted⟩
    rw [Device.length_clock]
    omega
  refine ⟨rfl, ⟨⟨?_, hawaiting', congrArg (fun p => p.1) hfixed⟩, rfl, ?_, hlow'⟩, _,
    ⟨hcs.cycles, hcs.length, hcs.shifted⟩⟩
  · exact { hlinked'.flushedAll with }
  · change (s.gFtdi.jtagSplitter.state.run r.tmsBits).tap = (t.flushedAll dev).tap tap₀
    rw [hcs.tap, JtagState.tap_run, htracks]

theorem shiftBits_spec (h : InStep dev chip tap₀ s) (r : SplitRequest) :
    Exec.wp (shiftBits (link dev) r)
      (fun ok s' => ok = true ∧ InStep dev chip tap₀ s' ∧ ∃ cs, CallShifts tap₀ r s s' cs)
      (fun e s' => OomSafe dev chip e s' ∨ ¬ r.FitsInt) s :=
  Exec.wp_mono (shiftBits_clocks h r) (fun _ _ ⟨hok, hstep, _, hcs⟩ => ⟨hok, hstep, _, hcs⟩)
    fun _ _ he => he

variable (tap₀) in
theorem tapReset_spec (h : Linked dev s) (he : (s.settledEngine dev).awaiting = .opcode) :
    Exec.wp (tapReset (jtagSplitterCallback (link dev)))
      (fun ok s' => ok = true ∧ Linked dev s' ∧ s'.gFtdi.fixed = s.gFtdi.fixed ∧
        s'.buffer.txData = [] ∧ s'.usb.engine.awaiting = .opcode ∧
        s'.tap tap₀ = .testLogicReset)
      (OomSafe dev s.gFtdi.chipBufferBytes) s := by
  unfold tapReset andM
  rw [Exec.wp_bind]
  refine Exec.wp_mono (callback_tms h he tmsTapResetVector (by decide)) ?_ (fun _ _ hoom => hoom)
  rintro ok t ⟨rfl, hlinked, hfixed, hsettled⟩
  have hengine : t.settledEngine dev = (s.settledEngine dev).clocked dev
      (levels (tmsShiftLevel tmsTapResetVector s.gFtdi.lastTdi) 0 5) := congrArg Prod.fst hsettled
  refine Exec.wp_of_ok (callback_flush hlinked) ⟨rfl, hlinked.flushedAll, hfixed, rfl, ?_, ?_⟩
  · change (t.settledEngine dev).awaiting = .opcode
    rw [hengine]
    rfl
  · have hhigh : (levels (tmsShiftLevel tmsTapResetVector s.gFtdi.lastTdi) 0 5).map Prod.fst =
        List.replicate 5 true := rfl
    change tap₀.run ((t.settledEngine dev).cycles.map Cycle.tms) = _
    rw [hengine, Engine.clocked, List.map_append, Tap.run_append, tms_clock, hhigh,
      Tap.run_five_high]

variable (dev) in
theorem linked_activateDriver (p : FtParams) (h : PoweredUp s) :
    Linked dev { s with gFtdi := activateDriver p s.gFtdi } ∧
      Sys.settledEngine dev { s with gFtdi := activateDriver p s.gFtdi } = s.usb.engine := by
  refine ⟨?_, rfl⟩
  exact
    { unread := h.unread
      tx_isSome := by simp [Sys.buffer, activateDriver, ftBufferInit]
      rx_isSome := by simp [Sys.buffer, activateDriver, ftBufferInit]
      replies := rfl
      tx_le := Nat.zero_le _
      rx_le := Nat.zero_le _
      maxTx := rfl
      maxRx := rfl
      observers_nil := fun _ => rfl
      observers := fun _ ho => nomatch ho
      extras := fun _ ho => nomatch ho
      fatal := ⟨rfl, rfl⟩
      heads := ⟨Nat.le_add_right _ _, Nat.le_add_right _ _⟩
      driverStart := Nat.le_add_right _ _
      cmdStart := Nat.le_add_right _ _
      device := ⟨p.device, rfl⟩
      flushes := by
        intro f hf
        rw [h.flushes] at hf
        cases hf
      calls := by
        intro c hc
        rw [h.calls] at hc
        cases hc }

variable (tap₀) in
theorem activate_spec (p : FtParams) (h : PoweredUp s) :
    Exec.wp (activate (link dev) p)
      (fun ok s' => ok = true ∧ s'.gFtdi.jtagSplitter.state = .testLogicReset ∧
        InStep dev p.device.chipBufferBytes tap₀ s')
      (OomSafe dev p.device.chipBufferBytes) s := by
  obtain ⟨hlinked, hengine⟩ := linked_activateDriver dev p h
  have hawaiting : (Sys.settledEngine dev { s with gFtdi := activateDriver p s.gFtdi }).awaiting =
      .opcode := by
    rw [hengine]
    exact h.awaiting
  have hlen : (setupCmds p.dPins).length ≤ 4 := le_of_eq_of_le (rfl : _ = 3) (by decide)
  have hsilent := silent_setupCmds dev hawaiting p.dPins
  unfold activate
  rw [Exec.wp_bind, Exec.wp_modify, Exec.wp_bind]
  refine Exec.wp_mono (silent_sync_spec hlinked hlen hsilent) ?_ (fun _ _ hoom => hoom)
  rintro ok t ⟨rfl, hlinked', hkeep, -, hengine'⟩
  have hchip : t.gFtdi.chipBufferBytes = p.device.chipBufferBytes := congrArg (fun p => p.1) hkeep
  rw [if_pos rfl, Exec.wp_bind, Exec.wp_get, Exec.wp_bind, txvcJtagSplitterInit, Exec.wp_bind]
  refine Exec.wp_mono (tapReset_spec tap₀ hlinked' (by rw [hengine']; exact hsilent.2.1)) ?_
    (by rw [hchip]; exact fun _ _ hoom => hoom)
  rintro ok u ⟨rfl, hlinked'', hfixed, hdrained, hawaiting', htap⟩
  refine ⟨rfl, rfl, ⟨⟨{ hlinked'' with }, ?_,
    (congrArg (fun p => p.1) hfixed).trans hchip⟩, hdrained,
    htap.symm, fun hshift => nomatch hshift⟩⟩
  change (u.settledEngine dev).awaiting = .opcode
  rw [(hlinked''.settled_of_drained hdrained).1]
  exact hawaiting'

theorem state_of_activate {p : FtParams} {t : Sys Usb} (h : PoweredUp s)
    (hrun : activate (link dev) p s = .ok (true, t)) :
    t.gFtdi.jtagSplitter.state = .testLogicReset :=
  (Exec.wp_ok (activate_spec .testLogicReset p h) hrun).2.1

theorem setTckPeriod_spec (h : Ready dev chip s) (tckPeriodNs : ℤ) :
    Exec.wp (setTckPeriod (link dev) tckPeriodNs)
      (fun _ s' => Ready dev chip s' ∧ s'.settings = s.settings ∧ s'.buffer.txData = [] ∧
        s'.settledEngine dev = s.settledEngine dev)
      (fun _ => FlushesSafe dev chip) s := by
  obtain ⟨hlinked, hawaiting, rfl⟩ := h
  unfold setTckPeriod
  rw [Exec.wp_bind, Exec.wp_get, Exec.wp_bind]
  refine wp_tckSetting (fun setting => ?_) (fun _ _ => hlinked.flushes)
  obtain ⟨hfeed, -⟩ := feed_tckDivisorCmd dev hawaiting setting.1.toNat
    s.gFtdi.highSpeedCapable
  rw [Exec.wp_bind]
  refine Exec.wp_mono (silent_sync_spec hlinked (List.length_take_le' _ _)
    (silent_tckDivisorCmd dev hawaiting _ _)) ?_ (fun _ _ hoom => hoom.2)
  rintro ok t ⟨rfl, hlinked', hkeep, hdrained, hengine⟩
  rw [hfeed] at hengine
  refine ⟨⟨hlinked', ?_, congrArg (fun p => p.1) hkeep⟩, hkeep, hdrained, hengine⟩
  rw [hengine]
  exact hawaiting

/-- Setting the period clocks nothing. -/
theorem setTckPeriod_quiet (h : InStep dev chip tap₀ s) (tckPeriodNs : ℤ) :
    Exec.wp (setTckPeriod (link dev) tckPeriodNs)
      (fun _ s' => InStep dev chip tap₀ s' ∧ s'.settings = s.settings ∧
        s'.usb.engine = s.usb.engine)
      (fun _ => FlushesSafe dev chip) s := by
  refine Exec.wp_mono (setTckPeriod_spec h.toReady tckPeriodNs) ?_ (fun _ _ he => he)
  rintro ns t ⟨hready, hkeep, hdrained, hengine⟩
  have hengine' : t.usb.engine = s.usb.engine := by
    rw [← (hready.linked.settled_of_drained hdrained).1, hengine,
      (h.linked.settled_of_drained h.drained).1]
  have hsplitter : t.gFtdi.jtagSplitter = s.gFtdi.jtagSplitter := congrArg (fun p => p.2.2.1) hkeep
  refine ⟨⟨hready, hdrained, ?_, ?_⟩, hkeep, hengine'⟩
  · rw [hsplitter, Sys.tap, hengine']
    exact h.tracks
  · rw [hsplitter, hengine']
    exact h.low

theorem setTckPeriod_inStep (h : InStep dev chip tap₀ s) (tckPeriodNs : ℤ) :
    Exec.wp (setTckPeriod (link dev) tckPeriodNs) (fun _ s' => InStep dev chip tap₀ s')
      (fun _ => FlushesSafe dev chip) s :=
  Exec.wp_mono (setTckPeriod_quiet h tckPeriodNs) (fun _ _ hs => hs.1) fun _ _ he => he

/-- The states between the calls after a successful `activate`; the memory is
the caller's. -/
inductive Reachable (dev : Device) (p : FtParams) (s₀ : Sys Usb) : Sys Usb → Prop
  | activate {t : Sys Usb} : activate (link dev) p s₀ = .ok (true, t) → Reachable dev p s₀ t
  | perform {s t : Sys Usb} (op : DriverOp) : Reachable dev p s₀ s →
      op.perform (link dev) s = .ok ((), t) → Reachable dev p s₀ t
  | caller {s : Sys Usb} (m : Mem) : Reachable dev p s₀ s → Reachable dev p s₀ { s with mem := m }

theorem Reachable.inStep {p : FtParams} {s₀ : Sys Usb} (h₀ : PoweredUp s₀) (tap₀ : Tap)
    (h : Reachable dev p s₀ s) : InStep dev p.device.chipBufferBytes tap₀ s := by
  induction h with
  | activate hrun => exact (Exec.wp_ok (activate_spec tap₀ p h₀) hrun).2.2
  | caller m _ ih =>
      obtain ⟨⟨hlinked, hawaiting, hchip⟩, hdrained, htracks, hlow⟩ := ih
      exact ⟨⟨{ hlinked with }, hawaiting, hchip⟩, hdrained, htracks, hlow⟩
  | perform op _ hrun ih =>
      cases op with
      | setTckPeriod ns =>
          obtain ⟨_, _, hrun', hpure⟩ := Exec.bind_eq_ok hrun
          cases hpure
          exact Exec.wp_ok (Q := fun _ => InStep dev p.device.chipBufferBytes tap₀)
            (setTckPeriod_inStep ih ns) hrun'
      | shiftBits r =>
          obtain ⟨_, _, hrun', hpure⟩ := Exec.bind_eq_ok hrun
          cases hpure
          exact (Exec.wp_ok (shiftBits_spec ih r) hrun').2.1

/-- No `int` overflows on an admissible vector. -/
theorem fitsInt_of_le (h : Linked dev s) {r : SplitRequest}
    (hmax : r.numBits ≤ maxVectorBits s.gFtdi) :
    r.FitsInt := by
  have hchip := h.chip_bounds
  rw [maxVectorBits] at hmax
  rw [SplitRequest.FitsInt, intMax]
  omega

/-- Every call of `shift_bits` that does not run out of pool memory returns
true, clocks the vector, and keeps the splitter in step with the TAP. -/
theorem shift_bits_contract (dev : Device) (p : FtParams) (tap₀ : Tap) {s₀ s : Sys Usb}
    (h₀ : PoweredUp s₀) (h : Reachable dev p s₀ s) {r : SplitRequest}
    (hmax : r.numBits ≤ maxVectorBits s.gFtdi) :
    Exec.wp (shiftBits (link dev) r)
      (fun ok s' => ok = true ∧ s'.gFtdi.jtagSplitter.state.tap = s'.tap tap₀ ∧
        ∃ cs : List Cycle,
          s'.usb.engine.cycles = s.usb.engine.cycles ++ cs ∧ cs.length = r.numBits ∧
          cs.map Cycle.tms = r.tmsBits ∧
          (∀ k (hk : k < cs.length), (r.tapAt (s.tap tap₀) k).IsShift → cs[k].tdi = r.tdi.bit k) ∧
          (∀ k (hk : k < cs.length), (r.tapAt (s.tap tap₀) k).IsShift →
            (s'.mem.view r.tdo).bit k = cs[k].tdo) ∧
          ∀ b i, (b = r.tdo.block → ∀ k < r.numBits, i = 8 * r.tdo.off + k →
            ¬ (r.tapAt (s.tap tap₀) k).IsShift) → (s'.mem b).bit i = (s.mem b).bit i)
      (fun e _ => ∃ n, e = .oom n) s := by
  have hstep := h.inStep h₀ tap₀
  have hfit := fitsInt_of_le hstep.linked hmax
  refine Exec.wp_mono (shiftBits_spec hstep r) ?_
    (fun _ _ he => (he.resolve_right (not_not_intro hfit)).1)
  rintro ok s' ⟨rfl, hstep', cs, hcycles, hlen, hshifted⟩
  refine ⟨rfl, hstep'.tracks, cs, hcycles, hlen, ?_, ?_, ?_, ?_⟩
  · rw [hshifted.tms, hlen]
    rfl
  · intro k hk hshift
    have htdi := hshifted.tdi k hk
    rw [Nat.zero_add] at htdi
    exact htdi hshift
  · intro k hk hshift
    have hk' : 8 * r.tdo.off + k - 8 * r.tdo.off = k := by omega
    rw [Mem.bit_view, hshifted.tdo, Nat.add_zero, hk', if_pos ⟨rfl, by omega, by omega, hshift⟩]
    simp [hk]
  · intro b i hout
    rw [hshifted.tdo, if_neg]
    rintro ⟨rfl, hlo, hhi, hshift⟩
    exact hout rfl (i - 8 * r.tdo.off) (by omega) (by omega) hshift

/-! A chip that was just opened, with a device that holds TDO high. -/

def tdoHigh : Device := ⟨fun _ _ _ => true, fun _ => 0⟩

def ft2232hParams : FtParams where
  device := .ft2232h
  dPins := fun _ => .otherIgnored
  poolAddr := 0x100000
  cmdPoolAddr := 0x200000
  poolAligned := by decide
  cmdPoolAligned := by decide

def poweredUp : Sys Usb where
  gFtdi :=
    { chipBufferBytes := 0
      highSpeedCapable := false
      jtagSplitter := ⟨.testLogicReset⟩
      lastTdi := false
      pool := txvcMempoolInit 0 0
      cmdBuffer := ftBufferInit 0 0 }
  mem := fun _ _ => 0
  bitExtras := fun _ => ⟨0, ⟨.resp, 0⟩, 0, 0⟩
  byteExtras := fun _ => ⟨⟨.resp, 0⟩, 0⟩
  usb := ⟨⟨.opcode, false, []⟩, []⟩
  calls := []
  queued := []
  flushes := []

theorem poweredUp_poweredUp : PoweredUp poweredUp := ⟨rfl, rfl, rfl, rfl⟩

theorem exists_activated :
    ∃ s, activate (link tdoHigh) ft2232hParams poweredUp = .ok (true, s) := by
  obtain ⟨ok, s, hrun, hok⟩ := Exec.exists_ok_of_test (x := activate (link tdoHigh) ft2232hParams)
    (s := poweredUp) (fun ok _ => ok) (by decide +kernel)
  exact ⟨s, by rw [hrun, hok]⟩

/-- Four clocks to Shift-DR and four in it, the last of which leaves it. -/
def scanFour : SplitRequest := ⟨8, fun _ => 0x82, fun _ => 0xa5, ⟨.vector 0, 0⟩⟩

theorem scanFour_le {p : FtParams} {s₀ s : Sys Usb} (h₀ : PoweredUp s₀)
    (h : Reachable tdoHigh p s₀ s) : scanFour.numBits ≤ maxVectorBits s.gFtdi := by
  have hchip := (h.inStep h₀ .testLogicReset).linked.chip_bounds
  have hbits : scanFour.numBits = 8 := rfl
  rw [hbits, maxVectorBits]
  omega

theorem exists_scanned_four :
    ∃ s s', activate (link tdoHigh) ft2232hParams poweredUp = .ok (true, s) ∧
      shiftBits (link tdoHigh) scanFour s = .ok (true, s') := by
  obtain ⟨ok, s, hactivate, htest⟩ := Exec.exists_ok_of_test
    (x := activate (link tdoHigh) ft2232hParams) (s := poweredUp)
    (fun ok s => ok && Exec.passes (shiftBits (link tdoHigh) scanFour) s fun ok _ => ok)
    (by decide +kernel)
  rw [Bool.and_eq_true] at htest
  obtain ⟨rfl, hshifted⟩ := htest
  obtain ⟨ok, s', hshift, rfl⟩ := Exec.exists_ok_of_test _ hshifted
  exact ⟨s, s', hactivate, hshift⟩

/-- The first call after `activate`. -/
theorem shift_bits_contract_first :
    ∃ s s', activate (link tdoHigh) ft2232hParams poweredUp = .ok (true, s) ∧
      shiftBits (link tdoHigh) scanFour s = .ok (true, s') ∧
      s'.gFtdi.jtagSplitter.state.tap = s'.tap .testLogicReset ∧
      ∃ cs : List Cycle,
        s'.usb.engine.cycles = s.usb.engine.cycles ++ cs ∧ cs.length = 8 ∧
        cs.map Cycle.tms = [false, true, false, false, false, false, false, true] ∧
        (∀ k (hk : k < cs.length), (scanFour.tapAt (s.tap .testLogicReset) k).IsShift →
          cs[k].tdi = scanFour.tdi.bit k) ∧
        (∀ k (hk : k < cs.length), (scanFour.tapAt (s.tap .testLogicReset) k).IsShift →
          (s'.mem.view scanFour.tdo).bit k = cs[k].tdo) ∧
        ∀ b i, (b = scanFour.tdo.block → ∀ k < 8, i = 8 * scanFour.tdo.off + k →
          ¬ (scanFour.tapAt (s.tap .testLogicReset) k).IsShift) →
            (s'.mem b).bit i = (s.mem b).bit i := by
  obtain ⟨s, s', hactivate, hshift⟩ := exists_scanned_four
  have hreach : Reachable tdoHigh ft2232hParams poweredUp s := .activate hactivate
  have hmax := scanFour_le poweredUp_poweredUp hreach
  have htms : scanFour.tmsBits = [false, true, false, false, false, false, false, true] := by
    decide
  obtain ⟨-, htap, hcycles⟩ := Exec.wp_ok (shift_bits_contract tdoHigh ft2232hParams
    .testLogicReset poweredUp_poweredUp hreach hmax) hshift
  rw [htms] at hcycles
  exact ⟨s, s', hactivate, hshift, htap, hcycles⟩

end TinyXvc
