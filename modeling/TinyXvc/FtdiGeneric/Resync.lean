import TinyXvc.FtdiGeneric.Recovery

/-!
# The splitter and the chip over a transport that loses writes

A write that is lost as a whole is repeated, so what is queued is only deferred
even if writes fail.  What the splitter records is then the state of the TAP once
everything queued is executed.
-/

namespace TinyXvc

open Mpsse Resend Jtag

section Vectors

variable {dev : Device} {r : SplitRequest} {st : JtagState}

theorem feed_requests (e : Engine) (m : Mem) (qs : List Request) :
    e.feed dev (queuedBytes (qs.map Request.data)) = (qs.foldl (Request.exec dev) (e, m)).1 := by
  induction qs generalizing e m with
  | nil => rfl
  | cons q qs ih =>
      rw [List.map_cons, queuedBytes, List.flatMap_cons, Engine.feed_append]
      exact ih _ _

variable (dev) in
/-- The queued data clock `n` bits of a vector from bit `a` on, whatever engine
executes them. -/
def Clocks (r : SplitRequest) (st : JtagState) (a n : ℕ) (qs : List QueuedData) : Prop :=
  ∀ e : Engine, e.awaiting = .opcode → ((r.stateAt st a).isShift = true → e.tmsLevel = false) →
    ∃ ls : List (Bool × Bool), ls.map Prod.fst = r.tms.bits a n ∧
      e.feed dev (queuedBytes qs) = e.clocked dev ls

/-- An engine that clocked a vector up to a shift state holds TMS low. -/
theorem low_clocked {a n : ℕ} {e : Engine} {ls : List (Bool × Bool)}
    (hls : ls.map Prod.fst = r.tms.bits a n)
    (hlow : (r.stateAt st a).isShift = true → e.tmsLevel = false)
    (hshift : (r.stateAt st (a + n)).isShift = true) : (e.clocked dev ls).tmsLevel = false := by
  cases n with
  | zero =>
      obtain rfl := List.map_eq_nil_iff.mp hls
      exact hlow hshift
  | succ n =>
      have hlast : (ls.map Prod.fst).getLast? = some (r.tms.bit (a + n)) := by
        rw [hls, Octets.bits_add, Octets.bits_succ]
        simp
      rw [← Nat.add_assoc, SplitRequest.stateAt_succ] at hshift
      rw [Engine.clocked, ← List.getLast?_map, hlast]
      exact nextState_isShift_low hshift

theorem Clocks.append {a m n : ℕ} {qs rs : List QueuedData} (h : Clocks dev r st a m qs)
    (h' : Clocks dev r st (a + m) n rs) : Clocks dev r st a (m + n) (qs ++ rs) := by
  intro e he hlow
  obtain ⟨ls, hls, hfeed⟩ := h e he hlow
  obtain ⟨ls', hls', hfeed'⟩ := h' (e.clocked dev ls) rfl (low_clocked hls hlow)
  refine ⟨ls ++ ls', ?_, ?_⟩
  · rw [List.map_append, hls, hls', Octets.bits_add]
  · rw [queuedBytes_append, Engine.feed_append, hfeed, hfeed', Engine.clocked_append]

/-- The requests that the event of a range queues. -/
def SplitRange.requests (r : SplitRequest) (lastTdi : Bool) (chip : ℕ) (x : SplitRange) :
    List Request :=
  match x.kind with
  | .tms => tmsRequests r.tms lastTdi x.fromBitIdx x.toBitIdx
  | .tdi incomplete =>
      TdiShift.requests ⟨r.tdi, r.tdo, x.fromBitIdx, x.toBitIdx, !incomplete⟩ chip

theorem SplitRange.Decodes.clocks {x : SplitRange} (hdec : x.Decodes r st)
    (lastTdi : Bool) {chip : ℕ}
    (hchip : 0 < chip) (hmax : chip ≤ 65536) :
    Clocks dev r st x.fromBitIdx (x.toBitIdx - x.fromBitIdx)
      ((x.requests r lastTdi chip).map Request.data) := by
  have hne := x.nonempty
  intro e he hlow
  rw [feed_requests e fun _ _ => 0]
  unfold SplitRange.requests
  cases hkind : x.kind with
  | tms =>
      obtain ⟨-, hexec⟩ := exec_tmsRequests dev he r.tms lastTdi x.fromBitIdx x.toBitIdx
        fun _ _ => 0
      refine ⟨_, ?_, congrArg Prod.fst hexec⟩
      rw [levels, List.map_map]
      rfl
  | tdi incomplete =>
      have hbits : ∀ k, x.fromBitIdx ≤ k → k < x.toBitIdx → (r.stateAt st k).isShift = true ∧
          r.tms.bit k = (decide (k + 1 = x.toBitIdx) && !incomplete) := by
        intro k hlo hhi
        have hstate := hdec k hlo hhi
        rw [hkind] at hstate
        exact hstate
      obtain ⟨-, hengine, -⟩ := TdiShift.segment dev
        ⟨r.tdi, r.tdo, x.fromBitIdx, x.toBitIdx, !incomplete⟩ hne hchip hmax he
        (hlow (hbits _ le_rfl hne).1) fun _ _ => 0
      refine ⟨_, ?_, hengine⟩
      -- TMS stays low up to the last bit of the range
      rw [levels, List.map_map]
      apply List.map_congr_left
      intro i hi
      rw [List.mem_range] at hi
      dsimp only at hi
      rw [(hbits (x.fromBitIdx + i) (Nat.le_add_right _ _) (by omega)).2]
      by_cases hend : x.fromBitIdx + i + 1 = x.toBitIdx
      · simp [TdiShift.level, hend]
      · simp [TdiShift.level, hend]

end Vectors

section Driver

variable {τ : Type} {io : D2xx τ} {dev : Device} {engine : τ → Engine}

/-- The size of the chip's buffers as an invariant. -/
theorem kept_chip (io : D2xx τ) {chip : ℕ} (hchip : 0 < chip) :
    Kept io fun s => s.gFtdi.chipBufferBytes = chip where
  chip _ h := h ▸ hchip
  pools := ⟨fun _ _ h => h, fun _ _ h => h, fun _ _ h => h, fun _ _ h => h⟩
  lastTdi _ _ h := h
  splitter _ _ h := h
  flush := ftBufferFlush_preserves io (fun _ _ h => h) (fun _ _ _ _ _ h => h)
  append := ftBufferAppend_preserves (fun _ _ _ _ => trivial) (fun _ _ h => h) (fun _ _ h => h)

theorem range_queues (r : SplitRequest) (x : SplitRange) {s : Sys τ}
    (hchip : 0 < s.gFtdi.chipBufferBytes) :
    Exec.wp (jtagSplitterCallback io (x.event r))
      (fun ok t => ok = true → t.queued = s.queued ++
        (x.requests r s.gFtdi.lastTdi s.gFtdi.chipBufferBytes).map Request.data)
      (fun _ _ => True) s := by
  have hne := x.nonempty
  unfold SplitRange.event SplitRange.requests
  cases x.kind with
  | tms =>
      have heq : jtagSplitterCallback io (.shiftTms r.tms x.fromBitIdx x.toBitIdx) s =
          (tmsRequests r.tms s.gFtdi.lastTdi x.fromBitIdx x.toBitIdx).allM (Request.queue io) s :=
        appendTmsShift_eq io r.tms hne s
      rw [Exec.wp, heq]
      exact queueAll_history io _ s
  | tdi incomplete =>
      have heq : jtagSplitterCallback io
          (.shiftTdi r.tdi r.tdo x.fromBitIdx x.toBitIdx incomplete) s = _ :=
        appendTdiShift_eq io (t := ⟨r.tdi, r.tdo, x.fromBitIdx, x.toBitIdx, !incomplete⟩) hne s
          hchip
      rw [Exec.wp, heq]
      change Exec.wp (_ >>= _) _ _ s
      rw [Exec.wp_bind]
      refine Exec.wp_mono (queueAll_history io _ s) ?_ (fun _ _ _ => trivial)
      intro ok t ht
      cases ok with
      | false => exact fun hfalse => absurd hfalse Bool.false_ne_true
      | true => exact fun _ => ht rfl

variable (dev) in
/-- The ranges of a vector queue what clocks its bits. -/
theorem ranges_queue {r : SplitRequest} {st : JtagState} {xs : List SplitRange} {a b : ℕ}
    (htile : Tiles a b xs) (hdec : ∀ x ∈ xs, x.Decodes r st) {s : Sys τ}
    (hchip : 0 < s.gFtdi.chipBufferBytes) (hmax : s.gFtdi.chipBufferBytes ≤ 65536) :
    Exec.wp ((xs.map (SplitRange.event r)).allM (jtagSplitterCallback io))
      (fun ok t => ok = true → ∃ qs n, a + n = b ∧ t.queued = s.queued ++ qs ∧
        Clocks dev r st a n qs)
      (fun _ _ => True) s := by
  induction xs generalizing s a with
  | nil =>
      intro _
      refine ⟨[], 0, htile, (List.append_nil _).symm, fun e he _ => ⟨[], rfl, ?_⟩⟩
      exact (Engine.clocked_nil dev he).symm
  | cons x xs ih =>
      obtain ⟨rfl, htail⟩ := htile
      have hne := x.nonempty
      rw [List.map_cons, List.allM_cons, Exec.wp_bind]
      refine Exec.wp_mono (Exec.wp_and (range_queues r x hchip)
        ((kept_chip io hchip).callback (x.event r) s rfl)) ?_ (fun _ _ _ => trivial)
      rintro ok t ⟨hqueued, hchip'⟩
      cases ok with
      | false => exact fun hfalse => absurd hfalse Bool.false_ne_true
      | true =>
          refine Exec.wp_mono (ih htail (fun y hy => hdec y (List.mem_cons_of_mem x hy))
            (hchip' ▸ hchip) (hchip' ▸ hmax)) ?_ (fun _ _ _ => trivial)
          intro ok u hu hok
          obtain ⟨qs, n, hend, hqueued', hclocks⟩ := hu hok
          refine ⟨_ ++ qs, (x.toBitIdx - x.fromBitIdx) + n, by omega,
            hqueued'.trans ?_,
            ((hdec x List.mem_cons_self).clocks s.gFtdi.lastTdi hchip hmax).append ?_⟩
          · rw [hqueued rfl, List.append_assoc]
          · rw [show x.fromBitIdx + (x.toBitIdx - x.fromBitIdx) = x.toBitIdx by omega]
            exact hclocks

/-- A flush by the splitter queues nothing. -/
theorem flushAll_queues_nothing (s : Sys τ) :
    Exec.wp (jtagSplitterCallback io .flushAll) (fun _ t => t.queued = s.queued)
      (fun _ _ => True) s := by
  have hflush : Exec.Preserves (fun t : Sys τ => t.queued = s.queued) (fun _ _ => True)
      (jtagSplitterCallback io .flushAll) := by
    refine Exec.Preserves.bind ?_ fun ok => ?_
    · exact ftBufferFlush_preserves io (fun _ _ ht => ht) (fun _ _ _ _ _ ht => ht)
    · exact Exec.Preserves.bind (Exec.Preserves.modifyGet fun _ ht => ht) fun _ =>
        Exec.Preserves.pure _
  exact hflush s rfl

variable (io dev) in
theorem deliver_queues (r : SplitRequest) (splitter : JtagSplitter) {s : Sys τ}
    (hchip : 0 < s.gFtdi.chipBufferBytes) (hmax : s.gFtdi.chipBufferBytes ≤ 65536) :
    Exec.wp (deliver (jtagSplitterCallback io) r splitter)
      (fun o t => ∀ st, o = some st → st = splitter.state.run r.tmsBits ∧
        ∃ qs, t.queued = s.queued ++ qs ∧ Clocks dev r splitter.state 0 r.numBits qs)
      (fun _ _ => True) s := by
  rw [deliver, Exec.wp_bind, SplitRequest.events, Exec.allM_append, Exec.wp_bind]
  refine Exec.wp_mono (ranges_queue dev (r.ranges_tile splitter.state)
    (r.ranges_decode splitter.state) hchip hmax) ?_ (fun _ _ _ => trivial)
  intro ok t ht
  cases ok with
  | false => exact fun _ hnone => absurd hnone (by simp)
  | true =>
      obtain ⟨qs, n, hn, hqueued, hclocks⟩ := ht rfl
      rw [Nat.zero_add] at hn
      subst hn
      rw [if_pos rfl, List.allM_cons, Exec.wp_bind]
      refine Exec.wp_mono (flushAll_queues_nothing t) ?_ (fun _ _ _ => trivial)
      intro ok u hu
      cases ok with
      | false => exact fun _ hnone => absurd hnone (by simp)
      | true => exact fun st hst => ⟨(Option.some.inj hst).symm, qs, hu.trans hqueued, hclocks⟩

variable (dev) in
/-- What a call of `shift_bits` queues and records. -/
theorem shiftBits_queues (r : SplitRequest) {s : Sys τ} (hchip : 0 < s.gFtdi.chipBufferBytes)
    (hmax : s.gFtdi.chipBufferBytes ≤ 65536) :
    Exec.wp (shiftBits io r)
      (fun ok t => if ok then
          t.gFtdi.jtagSplitter.state = s.gFtdi.jtagSplitter.state.run r.tmsBits ∧
            ∃ qs, t.queued = s.queued ++ qs ∧
              Clocks dev r s.gFtdi.jtagSplitter.state 0 r.numBits qs
        else t.gFtdi.jtagSplitter.state = .testLogicReset)
      (fun _ _ => True) s := by
  unfold shiftBits
  rw [Exec.wp_bind, Exec.wp_get, Exec.wp_bind, Exec.wp]
  rcases process_eq_or (jtagSplitterCallback io) r s.gFtdi.jtagSplitter s with
    hprocess | ⟨-, s', herror⟩
  · rw [hprocess]
    change Exec.wp (deliver _ r _ >>= settle _ _) _ _ s
    rw [Exec.wp_bind]
    refine Exec.wp_mono (deliver_queues io dev r s.gFtdi.jtagSplitter hchip hmax) ?_
      (fun _ _ _ => trivial)
    intro o t ht
    cases o with
    | some st =>
        obtain ⟨rfl, hqueued⟩ := ht st rfl
        exact ⟨rfl, hqueued⟩
    | none =>
        rw [settle, Exec.wp_bind]
        exact Exec.wp_always (fun _ _ => rfl) (fun _ _ => trivial)
  · rw [herror]
    trivial

/-! ## Commands that move no pin -/

/-- A request that is refused queued nothing. -/
theorem queue_history_eq (q : Request) (hq : ∀ cmd e, q ≠ .readBits cmd e) (s : Sys τ) :
    Exec.wp (q.queue io) (fun ok t => t.queued = s.queued ++ if ok then [q.data] else [])
      (fun _ _ => True) s := by
  have hrefused : Exec.wp (q.queue io) (fun ok t => ok = false → t.queued = s.queued)
      (fun _ _ => True) s := by
    have happend : ∀ txData observer n, ∀ t : Sys τ,
        Exec.wp (ftBufferAppend txData observer n) (fun ok u => ok = false → u.queued = s.queued)
          (fun _ _ => True) t := by
      intro txData observer n t
      unfold ftBufferAppend
      rw [Exec.wp_bind]
      refine Exec.wp_always (fun _ u => ?_) (fun _ _ => trivial)
      rw [Exec.wp_bind]
      exact Exec.wp_always (fun _ _ => fun hfalse => absurd hfalse (by decide)) (fun _ _ => trivial)
    cases q with
    | readBits cmd e => exact absurd rfl (hq cmd e)
    | write cmd =>
        refine (Exec.wp_bind ..).mpr (Exec.wp_mono (ensure_history io cmd.length 0 s) ?_
          (fun _ _ _ => trivial))
        intro ok t ht
        cases ok with
        | false => exact fun _ => ht
        | true => exact happend _ _ _ t
    | readBytes txData rxData n =>
        refine (Exec.wp_bind ..).mpr (Exec.wp_mono (ensure_history io txData.length n s) ?_
          (fun _ _ _ => trivial))
        intro ok t ht
        cases ok with
        | false => exact fun _ => ht
        | true =>
            refine (Exec.wp_bind ..).mpr (Exec.wp_always (fun p u => ?_) (fun _ _ => trivial))
            refine (Exec.wp_bind ..).mpr (Exec.wp_always (fun p v => ?_) (fun _ _ => trivial))
            exact happend _ _ _ _
  refine Exec.wp_mono (Exec.wp_and (q.queue_history io s) hrefused) ?_ (fun _ _ _ => trivial)
  rintro (_ | _) t ⟨haccepted, hfalse⟩
  · exact (hfalse rfl).trans (List.append_nil _).symm
  · exact haccepted rfl

variable (dev) in
/-- Data that leave a waiting engine as it is. -/
def Quiet (qs : List QueuedData) : Prop :=
  ∀ e : Engine, e.awaiting = .opcode → e.feed dev (queuedBytes qs) = e

theorem Quiet.append {qs rs : List QueuedData} (h : Quiet dev qs) (h' : Quiet dev rs) :
    Quiet dev (qs ++ rs) := by
  intro e he
  rw [queuedBytes_append, Engine.feed_append, h e he, h' e he]

theorem quiet_sync (ok : Bool) : Quiet dev (if ok then [(⟨[0xab], 2⟩ : QueuedData)] else []) := by
  intro e he
  cases ok with
  | false => rfl
  | true => exact (feed_badOpcode dev he).1

variable (dev) in
theorem quiet_divisor (divider : ℕ) (fast ok : Bool) :
    Quiet dev (if ok then [(⟨tckDivisorCmd divider fast, 0⟩ : QueuedData)] else []) := by
  intro e he
  cases ok with
  | false => rfl
  | true =>
      have hbytes : queuedBytes [⟨tckDivisorCmd divider fast, 0⟩] = tckDivisorCmd divider fast :=
        List.append_nil _
      rw [if_pos rfl, hbytes]
      exact (feed_tckDivisorCmd dev he divider fast).1

variable (io dev) in
theorem checkDeviceInSync_quiet (s : Sys τ) :
    Exec.wp (checkDeviceInSync io)
      (fun _ t => t.settings = s.settings ∧ ∃ qs, t.queued = s.queued ++ qs ∧ Quiet dev qs)
      (fun _ _ => True) s := by
  have hflush : ∀ t : Sys τ, Exec.wp (ftBufferFlush io)
      (fun _ u => u.queued = t.queued ∧ u.settings = t.settings) (fun _ _ => True) t := fun t =>
    ftBufferFlush_preserves (J := fun u => u.queued = t.queued ∧ u.settings = t.settings) io
      (fun _ _ h => h) (fun _ _ _ _ _ h => h) t ⟨rfl, rfl⟩
  unfold checkDeviceInSync
  dsimp only
  rw [Exec.wp_bind]
  refine Exec.wp_mono (Exec.wp_and
    (queue_history_eq (.readBytes [0xab] ⟨.resp, 0⟩ 2) (fun _ _ h => by cases h) s)
    ((Request.queue_keeps io (.readBytes [0xab] ⟨.resp, 0⟩ 2)).wp s)) ?_ (fun _ _ _ => trivial)
  rintro (_ | _) t ⟨hqueued, hsettings⟩
  · exact ⟨hsettings, _, hqueued, quiet_sync false⟩
  · rw [if_pos rfl, Exec.wp_bind]
    refine Exec.wp_mono (hflush t) ?_ (fun _ _ _ => trivial)
    rintro (_ | _) u ⟨hsame, hkeep⟩
    · exact ⟨hkeep.trans hsettings, _, hsame.trans hqueued, quiet_sync true⟩
    · exact ⟨hkeep.trans hsettings, _, hsame.trans hqueued, quiet_sync true⟩

variable (io dev) in
/-- A command and the sync check after it. -/
theorem command_sync_queues (cmd : List UInt8) (s : Sys τ) :
    Exec.wp (ftBufferAddWriteToChip io cmd <&&> checkDeviceInSync io)
      (fun ok t => t.settings = s.settings ∧ ∃ first qs,
        t.queued = s.queued ++ ((if first then [⟨cmd, 0⟩] else []) ++ qs) ∧ Quiet dev qs ∧
          (ok = true → first = true))
      (fun _ _ => True) s := by
  unfold andM
  rw [Exec.wp_bind]
  refine Exec.wp_mono (Exec.wp_and (queue_history_eq (.write cmd) (fun _ _ h => by cases h) s)
    ((Request.queue_keeps io (.write cmd)).wp s)) ?_ (fun _ _ _ => trivial)
  rintro (_ | _) t ⟨hqueued, hsettings⟩
  · refine ⟨hsettings, false, [], hqueued, fun _ _ => rfl, ?_⟩
    exact fun hfalse => absurd hfalse (by decide)
  · refine Exec.wp_mono (checkDeviceInSync_quiet io dev t) ?_ (fun _ _ _ => trivial)
    rintro ok u ⟨hsettings', qs, hqueued', hquiet⟩
    refine ⟨hsettings'.trans hsettings, true, qs, ?_, hquiet, fun _ => rfl⟩
    rw [hqueued', hqueued, List.append_assoc]
    rfl

variable (io dev) in
theorem setTckPeriod_queues (tckPeriodNs : ℤ) (s : Sys τ) :
    Exec.wp (setTckPeriod io tckPeriodNs)
      (fun _ t => t.settings = s.settings ∧ ∃ qs, t.queued = s.queued ++ qs ∧ Quiet dev qs)
      (fun _ _ => True) s := by
  unfold setTckPeriod
  rw [Exec.wp_bind, Exec.wp_get, Exec.wp_bind]
  refine wp_tckSetting (fun setting => ?_) (fun _ _ => trivial)
  rw [Exec.wp_bind]
  refine Exec.wp_mono (command_sync_queues io dev _ s) ?_ (fun _ _ _ => trivial)
  rintro ok t ⟨hsettings, first, qs, hqueued, hquiet, -⟩
  have hall := (quiet_divisor dev setting.1.toNat s.gFtdi.highSpeedCapable first).append
    hquiet
  cases ok <;> exact ⟨hsettings, _, hqueued, hall⟩

/-! ## The settled engine -/

variable (dev engine) in
/-- The engine once it has executed everything queued. -/
def Sys.settledOn (s : Sys τ) : Engine := (engine s.usb).feed dev s.buffer.txData

/-- On the way from `s` to `t` no write got through in part. -/
def NothingTorn (s t : Sys τ) : Prop := AllOrNothing (attempts (t.calls.drop s.calls.length))

instance (s t : Sys τ) : Decidable (NothingTorn s t) :=
  inferInstanceAs (Decidable (AllOrNothing _))

/-- If no write got through in part, queueing is executing. -/
theorem settledOn_eq {s t : Sys τ} (h : Tracked dev engine s t) (hall : NothingTorn s t)
    {qs : List QueuedData} (hqueued : t.queued = s.queued ++ qs) :
    t.settledOn dev engine = (s.settledOn dev engine).feed dev (queuedBytes qs) := by
  obtain ⟨cs, rs, hhist, hledger, hengine⟩ := h.history
  obtain rfl := List.append_cancel_left (hhist.queued.symm.trans hqueued)
  rw [NothingTorn, hhist.calls, List.drop_left] at hall
  have harrived := arrived_eq_settled (fun a => honest_of_mem_attempts) hall
  rw [Sys.settledOn, Sys.settledOn, hengine, harrived, ← Engine.feed_append, ← Engine.feed_append,
    ← hledger.stream_eq]

variable (dev engine) in
/-- What is queued brings the TAP where the splitter believes it. -/
structure InTrack (tap₀ : Tap) (s : Sys τ) : Prop where
  chip : 0 < s.gFtdi.chipBufferBytes
  chipMax : s.gFtdi.chipBufferBytes ≤ 65536
  awaiting : (s.settledOn dev engine).awaiting = .opcode
  tracks : tapOf tap₀ (s.settledOn dev engine) = s.gFtdi.jtagSplitter.state.tap
  low : s.gFtdi.jtagSplitter.state.isShift = true → (s.settledOn dev engine).tmsLevel = false

/-- The reset after a failed vector was queued, behind whole commands. -/
def ResetQueued (s t : Sys τ) : Prop :=
  ∃ vector lastTdi, t.queued = s.queued ++ (vector ++ [⟨tapResetCmd lastTdi, 0⟩]) ∧
    (frames (queuedBytes vector)).2 = []

theorem tapOf_clocked (tap₀ : Tap) (e : Engine) (ls : List (Bool × Bool)) :
    tapOf tap₀ (e.clocked dev ls) = (tapOf tap₀ e).run (ls.map Prod.fst) := by
  rw [tapOf, Engine.clocked, List.map_append, Tap.run_append, tms_clock]
  rfl

theorem tracked_shiftBits (hio : Carries io dev engine) {s t : Sys τ}
    (hchip : 0 < s.gFtdi.chipBufferBytes) {r : SplitRequest} {ok : Bool}
    (hrun : shiftBits io r s = .ok (ok, t)) :
    Tracked dev engine s t ∧ t.gFtdi.chipBufferBytes = s.gFtdi.chipBufferBytes := by
  have hspec := Exec.wp_ok (Exec.wp_and
    ((kept_tracked hio s).shiftBits r s (Tracked.refl hchip))
    ((kept_chip io hchip).shiftBits r s rfl)) hrun
  exact hspec

theorem InTrack.shifted {tap₀ : Tap} {s t : Sys τ} (h : InTrack dev engine tap₀ s)
    (hio : Carries io dev engine) {r : SplitRequest} (hrun : shiftBits io r s = .ok (true, t))
    (hall : NothingTorn s t) : InTrack dev engine tap₀ t := by
  obtain ⟨htracked, hchip⟩ := tracked_shiftBits hio h.chip hrun
  obtain ⟨hstate, qs, hqueued, hclocks⟩ :=
    Exec.wp_ok (shiftBits_queues dev r h.chip h.chipMax) hrun
  obtain ⟨ls, hls, hfeed⟩ := hclocks _ h.awaiting h.low
  have hsettled := (settledOn_eq htracked hall hqueued).trans hfeed
  refine ⟨hchip ▸ h.chip, hchip ▸ h.chipMax, ?_, ?_, ?_⟩
  · rw [hsettled]
    rfl
  · rw [hsettled, tapOf_clocked, hls, hstate, JtagState.tap_run, h.tracks]
    rfl
  · intro hshift
    rw [hsettled]
    refine low_clocked hls h.low ?_
    rw [hstate] at hshift
    rw [Nat.zero_add]
    exact hshift

theorem InTrack.recovered {tap₀ : Tap} {s t : Sys τ} (h : InTrack dev engine tap₀ s)
    (hio : Carries io dev engine) {r : SplitRequest} (hrun : shiftBits io r s = .ok (false, t))
    (hall : NothingTorn s t) (hreset : ResetQueued s t) : InTrack dev engine tap₀ t := by
  obtain ⟨htracked, hchip⟩ := tracked_shiftBits hio h.chip hrun
  have hstate := Exec.wp_ok (shiftBits_queues dev r h.chip h.chipMax) hrun
  rw [if_neg Bool.false_ne_true] at hstate
  obtain ⟨vector, lastTdi, hqueued, hwhole⟩ := hreset
  have hsettled := settledOn_eq htracked hall hqueued
  have hbytes : queuedBytes (vector ++ [⟨tapResetCmd lastTdi, 0⟩]) =
      queuedBytes vector ++ tapResetCmd lastTdi := by
    simp [queuedBytes]
  rw [hbytes, Engine.feed_append] at hsettled
  have hidle : ((s.settledOn dev engine).feed dev (queuedBytes vector)).awaiting = .opcode := by
    rw [Engine.awaiting_feed, h.awaiting]
    exact awaiting_of_frames hwhole
  refine ⟨hchip ▸ h.chip, hchip ▸ h.chipMax, ?_, ?_, ?_⟩
  · rw [hsettled, feed_tapResetCmd dev hidle]
    rfl
  · rw [hsettled, tapOf_reset dev tap₀ hidle, hstate]
    rfl
  · rw [hstate]
    exact fun hshift => absurd hshift (by decide)

theorem InTrack.period {tap₀ : Tap} {s t : Sys τ} (h : InTrack dev engine tap₀ s)
    (hio : Carries io dev engine) {tckPeriodNs ns : ℤ}
    (hrun : setTckPeriod io tckPeriodNs s = .ok (ns, t)) (hall : NothingTorn s t) :
    InTrack dev engine tap₀ t := by
  have htracked :=
    Exec.wp_ok ((kept_tracked hio s).setTckPeriod tckPeriodNs s (Tracked.refl h.chip)) hrun
  obtain ⟨hsettings, qs, hqueued, hquiet⟩ :=
    Exec.wp_ok (setTckPeriod_queues io dev tckPeriodNs s) hrun
  have hchip : t.gFtdi.chipBufferBytes = s.gFtdi.chipBufferBytes :=
    congrArg (fun p => p.1) hsettings
  have hsplitter : t.gFtdi.jtagSplitter = s.gFtdi.jtagSplitter :=
    congrArg (fun p => p.2.2.1) hsettings
  have hsettled := (settledOn_eq htracked hall hqueued).trans (hquiet _ h.awaiting)
  refine ⟨hchip ▸ h.chip, hchip ▸ h.chipMax, ?_, ?_, ?_⟩
  · rw [hsettled]
    exact h.awaiting
  · rw [hsettled, hsplitter]
    exact h.tracks
  · rw [hsettled, hsplitter]
    exact h.low

/-! ## Runs -/

/-- What the driver and the chip are known to agree on is kept by every call whose
writes get through whole or not at all, if a vector that fails is followed by
its reset at the end of a command. -/
inductive CleanRun (io : D2xx τ) : Sys τ → Sys τ → Prop
  | start (s : Sys τ) : CleanRun io s s
  | shifted {s t u : Sys τ} (r : SplitRequest) : CleanRun io s t →
      shiftBits io r t = .ok (true, u) → NothingTorn t u → CleanRun io s u
  | failed {s t u : Sys τ} (r : SplitRequest) : CleanRun io s t →
      shiftBits io r t = .ok (false, u) → NothingTorn t u → ResetQueued t u → CleanRun io s u
  | period {s t u : Sys τ} (tckPeriodNs ns : ℤ) : CleanRun io s t →
      setTckPeriod io tckPeriodNs t = .ok (ns, u) → NothingTorn t u → CleanRun io s u

theorem CleanRun.inTrack (hio : Carries io dev engine) {tap₀ : Tap} {s t : Sys τ}
    (h : CleanRun io s t) (hs : InTrack dev engine tap₀ s) : InTrack dev engine tap₀ t := by
  induction h with
  | start => exact hs
  | shifted r _ hrun hall ih => exact ih.shifted hio hrun hall
  | failed r _ hrun hall hreset ih => exact ih.recovered hio hrun hall hreset
  | period ns res _ hrun hall ih => exact ih.period hio hrun hall

theorem Accepted.nothingTorn {s t : Sys τ} (h : Accepted s t) : NothingTorn s t := by
  obtain ⟨-, cs, hcalls, hfull, -⟩ := h
  rw [NothingTorn, hcalls, List.drop_left]
  intro a ha hack
  obtain ⟨c, hc, hattempt⟩ := List.mem_filterMap.mp ha
  cases c with
  | read n reply => cases hattempt
  | write data reply =>
      obtain rfl := Option.some.inj hattempt
      have hin := hfull _ hc
      dsimp only at hack
      rw [hin] at hack
      cases hack

theorem sync_accepted {s : Sys τ} (hs : Sound s) :
    Exec.wp (checkDeviceInSync io) (fun ok t => ok = true → Accepted s t) (fun _ _ => True) s := by
  unfold checkDeviceInSync
  dsimp only
  rw [Exec.wp_bind]
  refine Exec.wp_mono (Request.queue_faithful (.readBytes [0xab] ⟨.resp, 0⟩ 2) s hs) ?_
    (fun _ _ _ => trivial)
  rintro (_ | _) t ht
  · exact fun hfalse => absurd hfalse (by decide)
  · rw [if_pos rfl, Exec.wp_bind]
    refine Exec.wp_mono (flush_spec ht.1) ?_ (fun _ _ _ => trivial)
    rintro (_ | _) u hu
    · exact fun hfalse => absurd hfalse (by decide)
    · exact fun _ => Accepted.trans ht hu.1

variable (dev) in
/-- A successful activation: everything was transferred, the reset last. -/
theorem activate_queues (hio : Carries io dev engine) (p : FtParams) (s : Sys τ) :
    Exec.wp (activate io p)
      (fun ok t => ok = true →
        ∃ s₁ : Sys τ, s₁ = { s with gFtdi := activateDriver p s.gFtdi } ∧
          t.gFtdi.jtagSplitter.state = .testLogicReset ∧
          t.gFtdi.chipBufferBytes = p.device.chipBufferBytes ∧
          Tracked dev engine s₁ t ∧ Accepted s₁ t ∧
          ∃ qs lastTdi, Quiet dev qs ∧ t.queued = s₁.queued ++
            (⟨setupCmds p.dPins, 0⟩ :: qs ++ [⟨tapResetCmd lastTdi, 0⟩]))
      (fun _ _ => True) s := by
  unfold activate
  rw [Exec.wp_bind, Exec.wp_modify, Exec.wp_bind]
  generalize hs₁ : ({ s with gFtdi := activateDriver p s.gFtdi } : Sys τ) = s₁
  have hsound : Sound s₁ := by
    rw [← hs₁]
    exact Initialised.sound ⟨p.device, p.cmdPoolAddr, rfl, rfl⟩
  have hchip : s₁.gFtdi.chipBufferBytes = p.device.chipBufferBytes := by rw [← hs₁]; rfl
  have hkept : Kept io (Tracked dev engine s₁) := kept_tracked hio s₁
  have hcommand : Exec.wp (ftBufferAddWriteToChip io (setupCmds p.dPins) <&&> checkDeviceInSync io)
      (fun ok t => ok = true → Accepted s₁ t) (fun _ _ => True) s₁ := by
    unfold andM
    rw [Exec.wp_bind]
    refine Exec.wp_mono (Request.queue_faithful (.write (setupCmds p.dPins)) s₁ hsound) ?_
      (fun _ _ _ => trivial)
    rintro (_ | _) t ht
    · exact fun hfalse => absurd hfalse (by decide)
    · refine Exec.wp_mono (sync_accepted ht.1) ?_ (fun _ _ _ => trivial)
      exact fun ok u hu hok => Accepted.trans ht (hu hok)
  have htracked := (hkept.request (.write (setupCmds p.dPins))).andM hkept.checkDeviceInSync s₁
    (Tracked.refl hsound.chip)
  refine Exec.wp_mono (Exec.wp_and hcommand
    (Exec.wp_and htracked (command_sync_queues io dev (setupCmds p.dPins) s₁))) ?_
    (fun _ _ _ => trivial)
  rintro (_ | _) t ⟨haccepted, htracked', hsettings, first, qs, hqueued, hquiet, hfirst⟩
  · exact fun hfalse => absurd hfalse (by decide)
  · obtain rfl := hfirst rfl
    have hchip' : t.gFtdi.chipBufferBytes = s₁.gFtdi.chipBufferBytes :=
      congrArg (fun p => p.1) hsettings
    have hreset : Exec.Preserves
        (fun u => Tracked dev engine s₁ u ∧ u.gFtdi.chipBufferBytes = s₁.gFtdi.chipBufferBytes)
        (fun _ _ => True) (tapReset (jtagSplitterCallback io)) := by
      intro u hu
      refine Exec.wp_mono (Exec.wp_and ((hkept.callback _).andM (hkept.callback _) u hu.1)
        (((kept_chip io hsound.chip).callback _).andM ((kept_chip io hsound.chip).callback _)
          u hu.2)) ?_ (fun _ _ _ => trivial)
      exact fun _ _ h => h
    rw [if_pos rfl, Exec.wp_bind, Exec.wp_get, Exec.wp_bind, txvcJtagSplitterInit, Exec.wp_bind]
    refine Exec.wp_mono (Exec.wp_and (tapReset_outcome (haccepted rfl).1)
      (Exec.wp_and (tapReset_history t) (hreset t ⟨htracked', hchip'⟩))) ?_ (fun _ _ _ => trivial)
    rintro (_ | _) u ⟨houtcome, hqueued', htracked'', hchip''⟩
    · exact fun hfalse => absurd hfalse (by decide)
    · have hall := Accepted.trans (haccepted rfl) houtcome.1
      refine fun _ => ⟨s₁, rfl, rfl, hchip''.trans hchip, hkept.splitter u _ htracked'',
        ⟨{ hall.1 with }, hall.2⟩, qs, t.gFtdi.lastTdi, hquiet, ?_⟩
      refine (hqueued' rfl).trans ?_
      rw [hqueued, List.append_assoc]
      rfl

/-- A driver that was activated has reset the TAP. -/
theorem activate_inTrack (hio : Carries io dev engine) (tap₀ : Tap) (p : FtParams) {s t : Sys τ}
    (hidle : (engine s.usb).awaiting = .opcode) (hrun : activate io p s = .ok (true, t)) :
    InTrack dev engine tap₀ t := by
  obtain ⟨s₁, rfl, hstate, hchip, htracked, haccepted, qs, lastTdi, hquiet, hqueued⟩ :=
    Exec.wp_ok (activate_queues dev hio p s) hrun rfl
  have hsettled := settledOn_eq htracked haccepted.nothingTorn hqueued
  have hstart : Sys.settledOn dev engine { s with gFtdi := activateDriver p s.gFtdi } =
      engine s.usb := rfl
  have hsetup := (silent_setupCmds dev hidle p.dPins).2.1
  have hbytes : queuedBytes (⟨setupCmds p.dPins, 0⟩ :: qs ++ [⟨tapResetCmd lastTdi, 0⟩]) =
      setupCmds p.dPins ++ (queuedBytes qs ++ tapResetCmd lastTdi) := by
    simp [queuedBytes]
  rw [hstart, hbytes, Engine.feed_append, Engine.feed_append, hquiet _ hsetup] at hsettled
  have hbounds : 0 < p.device.chipBufferBytes ∧ p.device.chipBufferBytes ≤ 65536 := by
    cases p.device <;> decide
  refine ⟨hchip ▸ hbounds.1, hchip ▸ hbounds.2, ?_, ?_, ?_⟩
  · rw [hsettled, feed_tapResetCmd dev hsetup]
    rfl
  · rw [hsettled, tapOf_reset dev tap₀ hsetup, hstate]
    rfl
  · rw [hstate]
    exact fun hshift => absurd hshift (by decide)

/-- Over a transport that may fail, in every run after a successful `activate`
in which writes get through whole or not at all and every vector that fails is
followed by its reset at the end of a command: the splitter's state is the one
that the TAP takes once everything queued is executed, and so the TAP's state
whenever nothing is queued. -/
theorem splitter_tracks_chip (hio : Carries io dev engine) (tap₀ : Tap) (p : FtParams)
    {s₀ s t : Sys τ} (hidle : (engine s₀.usb).awaiting = .opcode)
    (hactivate : activate io p s₀ = .ok (true, s)) (hrun : CleanRun io s t) :
    tapOf tap₀ (t.settledOn dev engine) = t.gFtdi.jtagSplitter.state.tap ∧
      (t.buffer.txData = [] → tapOf tap₀ (engine t.usb) = t.gFtdi.jtagSplitter.state.tap) := by
  have htrack := (hrun.inTrack hio (activate_inTrack hio tap₀ p hidle hactivate)).tracks
  refine ⟨htrack, fun hnil => ?_⟩
  rw [Sys.settledOn, hnil, Engine.feed_nil] at htrack
  exact htrack

end Driver

/-- An activation, and a vector whose first write is lost. -/
theorem exists_cleanRun :
    ∃ s t, activate (lossy tdoHigh (writeLost 2)) ft2232hParams plugged = .ok (true, s) ∧
      CleanRun (lossy tdoHigh (writeLost 2)) s t ∧ t.buffer.txData = [] := by
  obtain ⟨⟨ok, s, ok'⟩, t, hrun, htest⟩ := Exec.exists_ok_of_test
    (x := (do
      let ok ← activate (lossy tdoHigh (writeLost 2)) ft2232hParams
      let s ← get
      let ok' ← shiftBits (lossy tdoHigh (writeLost 2)) idleBit
      pure (ok, s, ok') : Prog LossyUsb (Bool × Sys LossyUsb × Bool))) (s := plugged)
    (fun p t => p.1 && p.2.2 == false && t.buffer.txData == [] &&
      decide (NothingTorn p.2.1 t) &&
      t.queued == p.2.1.queued ++ ([⟨tmsShiftCmd (fun _ => 0) false 0 1, 0⟩] ++
        [⟨tapResetCmd false, 0⟩])) (by decide +kernel)
  obtain ⟨ok, s₁, hactivate, hrest⟩ := Exec.bind_eq_ok hrun
  obtain ⟨s₂, _, hget, hrest⟩ := Exec.bind_eq_ok hrest
  cases hget
  obtain ⟨ok', t₁, hshift, hpure⟩ := Exec.bind_eq_ok hrest
  cases hpure
  simp only [Bool.and_eq_true, beq_iff_eq, decide_eq_true_eq] at htest
  obtain ⟨⟨⟨⟨rfl, rfl⟩, hnil⟩, hall⟩, hqueued⟩ := htest
  exact ⟨_, _, hactivate, .failed idleBit (.start _) hshift hall ⟨_, false, hqueued, by decide⟩,
    hnil⟩

theorem splitter_tracks_chip_lost_write :
    ∃ s t, activate (lossy tdoHigh (writeLost 2)) ft2232hParams plugged = .ok (true, s) ∧
      CleanRun (lossy tdoHigh (writeLost 2)) s t ∧
      tapOf .testLogicReset (t.settledOn tdoHigh LossyUsb.engine) =
        t.gFtdi.jtagSplitter.state.tap ∧
      (t.buffer.txData = [] →
        tapOf .testLogicReset t.usb.engine = t.gFtdi.jtagSplitter.state.tap) := by
  obtain ⟨s, t, hactivate, hrun, -⟩ := exists_cleanRun
  exact ⟨s, t, hactivate, hrun, splitter_tracks_chip (carries_lossy tdoHigh (writeLost 2))
    .testLogicReset ft2232hParams rfl hactivate hrun⟩

end TinyXvc
