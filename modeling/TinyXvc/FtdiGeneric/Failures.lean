import TinyXvc.FtdiGeneric.Residue
import TinyXvc.FtdiGeneric.TckPeriod

/-!
# Runs over a transport that may fail

Every operation ends in one of two ways: with an empty buffer, its last D2XX
call having transferred everything, or with data still queued, its last call
having failed.
-/

namespace TinyXvc

variable {τ : Type} {io : D2xx τ}

/-- The two endings of an operation. -/
def Outcome (s s' : Sys τ) : Prop :=
  Sound s' ∧ ∃ cs : List D2xxCall, s'.calls = s.calls ++ cs ∧
    (s'.buffer.Empty ∧ (∀ c ∈ cs.getLast?, c.inFull = true) ∨
      Pending s' ∧ ∃ c ∈ cs.getLast?, c.inFull = false)

/-- The last D2XX call on the way from `s` to `s'`, if there is one, succeeded
and transferred everything. -/
def LastCallInFull (s s' : Sys τ) : Prop :=
  ∀ c ∈ (s'.calls.drop s.calls.length).getLast?, c.inFull = true

theorem Accepted.outcome {s s' : Sys τ} (h : Accepted s s') (hempty : s'.buffer.Empty) :
    Outcome s s' := by
  obtain ⟨hsound, cs, hcalls, hfull, -⟩ := h
  exact ⟨hsound, cs, hcalls, Or.inl ⟨hempty, fun c hc => hfull c (List.mem_of_getLast? hc)⟩⟩

theorem Refused.outcome {s s' : Sys τ} (h : Refused s s') : Outcome s s' := by
  obtain ⟨hsound, hpending, cs, c, hcalls, -, hc, -⟩ := h
  exact ⟨hsound, _, hcalls, Or.inr ⟨hpending, c, by simp, hc⟩⟩

theorem Accepted.trans_outcome {s t u : Sys τ} (h : Accepted s t) (h' : Outcome t u) :
    Outcome s u := by
  obtain ⟨-, cs, hcalls, hfull, -⟩ := h
  obtain ⟨hsound, cs', hcalls', hcases⟩ := h'
  refine ⟨hsound, cs ++ cs', by rw [hcalls', hcalls, List.append_assoc], ?_⟩
  rcases hcases with ⟨hempty, hlast⟩ | ⟨hpending, c, hlast, hc⟩
  · refine Or.inl ⟨hempty, fun c hc => ?_⟩
    rw [List.getLast?_append] at hc
    cases hcs : cs'.getLast? with
    | none =>
        rw [hcs] at hc
        exact hfull c (List.mem_of_getLast? hc)
    | some d =>
        rw [hcs] at hc
        exact hlast c (hcs ▸ hc)
  · refine Or.inr ⟨hpending, c, ?_, hc⟩
    rw [List.getLast?_append, Option.mem_def.mp hlast]
    rfl

/-- After a refusal, emptying the buffer takes a call that transfers. -/
theorem Refused.trans_accepted {s t u : Sys τ} (h : Refused s t) (h' : Accepted t u)
    (hempty : u.buffer.Empty) : Outcome s u := by
  obtain ⟨-, hpending, cs, c, hcalls, -⟩ := h
  obtain ⟨hsound, cs', hcalls', hfull, hkeep⟩ := h'
  refine ⟨hsound, cs ++ [c] ++ cs', by rw [hcalls', hcalls, List.append_assoc], Or.inl ⟨hempty, ?_⟩⟩
  intro d hd
  rw [List.getLast?_append] at hd
  cases hcs : cs'.getLast? with
  | none =>
      have hnil := List.getLast?_eq_none_iff.mp hcs
      exact absurd (hkeep hnil hpending) (not_pending_of_empty hempty)
  | some d' =>
      rw [hcs] at hd
      exact hfull d (List.mem_of_getLast? (hcs.trans hd))

theorem Refused.trans_refused {s t u : Sys τ} (h : Refused s t) (h' : Refused t u) :
    Outcome s u := by
  obtain ⟨-, -, cs, c, hcalls, -⟩ := h
  obtain ⟨hsound, hpending, cs', c', hcalls', -, hc', -⟩ := h'
  refine ⟨hsound, cs ++ [c] ++ cs' ++ [c'], ?_,
    Or.inr ⟨hpending, c', List.getLast?_concat, hc'⟩⟩
  rw [hcalls', hcalls]
  simp only [List.append_assoc]

theorem Outcome.store {s t : Sys τ} (h : Outcome s t) (splitter : JtagSplitter) :
    Outcome s { t with gFtdi := { t.gFtdi with jtagSplitter := splitter } } := by
  obtain ⟨hsound, cs, hcalls, hcases⟩ := h
  exact ⟨{ hsound with }, cs, hcalls, hcases.imp_left fun h => ⟨{ h.1 with }, h.2⟩⟩

theorem Outcome.empty_iff {s s' : Sys τ} (h : Outcome s s') :
    s'.buffer.Empty ↔ LastCallInFull s s' := by
  obtain ⟨-, cs, hcalls, hcases⟩ := h
  rw [LastCallInFull, hcalls, List.drop_left]
  rcases hcases with ⟨hempty, hlast⟩ | ⟨hpending, c, hc, hfailed⟩
  · exact ⟨fun _ => hlast, fun _ => hempty⟩
  · constructor
    · exact fun hempty => absurd hpending (not_pending_of_empty hempty)
    · intro hlast
      rw [hlast c hc] at hfailed
      cases hfailed

/-! ## The operations -/

theorem callback_flush_spec {s : Sys τ} (hs : Sound s) :
    Exec.wp (jtagSplitterCallback io .flushAll)
      (fun ok s' => if ok then Accepted s s' ∧ s'.buffer.Empty else Refused s s')
      (fun _ _ => True) s := by
  unfold jtagSplitterCallback
  dsimp only
  rw [Exec.wp_bind]
  refine Exec.wp_mono (flush_spec hs) ?_ (fun _ _ _ => trivial)
  intro ok t ht
  cases ok with
  | false => exact ⟨{ ht.1 with }, ht.2⟩
  | true => exact ⟨⟨{ ht.1.1 with }, ht.1.2⟩, { ht.2 with }⟩

variable (io) in
theorem callback_faithful (e : JtagSplitEvent) : Faithful (jtagSplitterCallback io e) := by
  intro s hs
  cases e with
  | shiftTms tms a b =>
      by_cases hab : a < b
      · have heq : jtagSplitterCallback io (.shiftTms tms a b) s =
            (tmsRequests tms s.gFtdi.lastTdi a b).allM (Request.queue io) s :=
          appendTmsShift_eq io tms hab s
        rw [Exec.wp, heq]
        exact Faithful.allM Request.queue_faithful _ s hs
      · unfold jtagSplitterCallback appendTmsShiftToTransaction
        dsimp only
        rw [decide_eq_false hab]
        trivial
  | shiftTdi tdi tdo a b incomplete =>
      by_cases hab : a < b
      · have heq : jtagSplitterCallback io (.shiftTdi tdi tdo a b incomplete) s = _ :=
          appendTdiShift_eq io (t := ⟨tdi, tdo, a, b, !incomplete⟩) hab s hs.chip
        rw [Exec.wp, heq]
        refine Faithful.bind (Faithful.allM Request.queue_faithful _) (fun _ => rfl) ?_ s hs
        exact fun t ht =>
          ⟨{ ht with }, [], (List.append_nil _).symm, List.forall_mem_nil _, fun _ hp => hp⟩
      · unfold jtagSplitterCallback appendTdiShiftToTransaction
        dsimp only
        rw [decide_eq_false hab]
        trivial
  | flushAll =>
      refine Exec.wp_mono (callback_flush_spec hs) ?_ (fun _ _ _ => trivial)
      intro ok t ht
      cases ok with
      | false => exact ht
      | true => exact ht.1

theorem tapReset_outcome {s : Sys τ} (hs : Sound s) :
    Exec.wp (tapReset (jtagSplitterCallback io))
      (fun ok s' => if ok then Accepted s s' ∧ s'.buffer.Empty else Refused s s')
      (fun _ _ => True) s := by
  unfold tapReset andM
  rw [Exec.wp_bind]
  refine Exec.wp_mono (callback_faithful io _ s hs) ?_ (fun _ _ _ => trivial)
  intro ok t ht
  cases ok with
  | false => exact ht
  | true =>
      refine Exec.wp_mono (callback_flush_spec ht.1) ?_ (fun _ _ _ => trivial)
      intro ok u hu
      cases ok with
      | false => exact Accepted.trans_refused ht hu
      | true => exact ⟨Accepted.trans ht hu.1, hu.2⟩

theorem deliver_outcome (r : SplitRequest) (splitter : JtagSplitter) {s : Sys τ} (hs : Sound s) :
    Exec.wp (deliver (jtagSplitterCallback io) r splitter)
      (fun o s' => if o.isSome then Accepted s s' ∧ s'.buffer.Empty else Refused s s')
      (fun _ _ => True) s := by
  rw [deliver, Exec.wp_bind, SplitRequest.events, Exec.allM_append, Exec.wp_bind]
  refine Exec.wp_mono (Faithful.allM (callback_faithful io) _ s hs) ?_ (fun _ _ _ => trivial)
  intro ok t ht
  cases ok with
  | false => exact ht
  | true =>
      rw [if_pos rfl, List.allM_cons, Exec.wp_bind]
      refine Exec.wp_mono (callback_flush_spec ht.1) ?_ (fun _ _ _ => trivial)
      intro ok u hu
      cases ok with
      | false => exact Accepted.trans_refused ht hu
      | true => exact ⟨Accepted.trans ht hu.1, hu.2⟩

theorem shiftBits_outcome (r : SplitRequest) {s : Sys τ} (hs : Sound s) :
    Exec.wp (shiftBits io r) (fun _ s' => Outcome s s') (fun _ _ => True) s := by
  unfold shiftBits
  rw [Exec.wp_bind, Exec.wp_get, Exec.wp_bind, Exec.wp]
  rcases process_eq_or (jtagSplitterCallback io) r s.gFtdi.jtagSplitter s with
    hdeliver | ⟨-, s', herror⟩
  · rw [hdeliver]
    change Exec.wp (deliver _ r _ >>= settle _ _) _ _ s
    rw [Exec.wp_bind]
    refine Exec.wp_mono (deliver_outcome r _ hs) ?_ (fun _ _ _ => trivial)
    intro o t ht
    cases o with
    | some st => exact (ht.1.outcome ht.2).store _
    | none =>
        -- the TAP reset starts with data of the vector still queued
        have hrefused : Refused s t := ht
        rw [settle, Exec.wp_bind]
        refine Exec.wp_mono (tapReset_outcome hrefused.1) ?_ (fun _ _ _ => trivial)
        intro ok u hu
        cases ok with
        | false => exact (hrefused.trans_refused hu).store _
        | true => exact (hrefused.trans_accepted hu.1 hu.2).store _
  · rw [herror]
    trivial

theorem checkDeviceInSync_outcome {s : Sys τ} (hs : Sound s) :
    Exec.wp (checkDeviceInSync io) (fun _ s' => Outcome s s') (fun _ _ => True) s := by
  unfold checkDeviceInSync
  dsimp only
  rw [Exec.wp_bind]
  refine Exec.wp_mono (Request.queue_faithful (.readBytes [0xab] ⟨.resp, 0⟩ 2) s hs) ?_
    (fun _ _ _ => trivial)
  intro ok t ht
  cases ok with
  | false => exact ht.outcome
  | true =>
      rw [if_pos rfl, Exec.wp_bind]
      refine Exec.wp_mono (flush_spec ht.1) ?_ (fun _ _ _ => trivial)
      intro ok u hu
      cases ok with
      | false => exact (Accepted.trans_refused ht hu).outcome
      | true => exact (Accepted.trans ht hu.1).outcome hu.2

theorem setTckPeriod_outcome (tckPeriodNs : ℤ) {s : Sys τ} (hs : Sound s) :
    Exec.wp (setTckPeriod io tckPeriodNs) (fun _ s' => Outcome s s') (fun _ _ => True) s := by
  unfold setTckPeriod
  rw [Exec.wp_bind, Exec.wp_get, Exec.wp_bind]
  refine wp_tckSetting (fun setting => ?_) (fun _ _ => trivial)
  unfold andM
  rw [Exec.wp_bind, Exec.wp_bind]
  refine Exec.wp_mono (Request.queue_faithful (.write _) s hs) ?_ (fun _ _ _ => trivial)
  intro ok t ht
  cases ok with
  | false => exact ht.outcome
  | true =>
      refine Exec.wp_mono (checkDeviceInSync_outcome ht.1) ?_ (fun _ _ _ => trivial)
      intro ok u hu
      cases ok <;> exact Accepted.trans_outcome ht hu

/-! ## Runs -/

/-- The operations that use the command buffer. -/
inductive BufferOp where
  | checkDeviceInSync
  | setTckPeriod (tckPeriodNs : ℤ)
  | shiftBits (r : SplitRequest)

def BufferOp.perform (io : D2xx τ) : BufferOp → Prog τ Unit
  | .checkDeviceInSync => do let _ ← TinyXvc.checkDeviceInSync io
  | .setTckPeriod tckPeriodNs => do let _ ← TinyXvc.setTckPeriod io tckPeriodNs
  | .shiftBits r => do let _ ← TinyXvc.shiftBits io r

theorem BufferOp.outcome (op : BufferOp) {s s' : Sys τ} (hs : Sound s)
    (hrun : op.perform io s = .ok ((), s')) : Outcome s s' := by
  cases op with
  | checkDeviceInSync =>
      obtain ⟨_, _, hrun', hpure⟩ := Exec.bind_eq_ok hrun
      cases hpure
      exact Exec.wp_ok (Q := fun _ => Outcome s) (checkDeviceInSync_outcome hs) hrun'
  | setTckPeriod ns =>
      obtain ⟨_, _, hrun', hpure⟩ := Exec.bind_eq_ok hrun
      cases hpure
      exact Exec.wp_ok (Q := fun _ => Outcome s) (setTckPeriod_outcome ns hs) hrun'
  | shiftBits r =>
      obtain ⟨_, _, hrun', hpure⟩ := Exec.bind_eq_ok hrun
      cases hpure
      exact Exec.wp_ok (Q := fun _ => Outcome s) (shiftBits_outcome r hs) hrun'

/-- The states after each of a sequence of operations. -/
inductive OpRun (io : D2xx τ) : Sys τ → List (Sys τ) → Prop
  | nil (s : Sys τ) : OpRun io s []
  | cons {s t : Sys τ} {ts : List (Sys τ)} (op : BufferOp) : op.perform io s = .ok ((), t) →
      OpRun io t ts → OpRun io s (t :: ts)

/-- The buffers of the driver are those of a chip just initialised. -/
def Initialised (s : Sys τ) : Prop :=
  ∃ (d : FtDevice) (addr : ℕ), s.gFtdi.chipBufferBytes = d.chipBufferBytes ∧
    s.buffer = ftBufferInit addr d.chipBufferBytes

theorem Initialised.sound {s : Sys τ} (h : Initialised s) : Sound s := by
  obtain ⟨d, addr, hchip, hbuffer⟩ := h
  have hpos : 0 < d.chipBufferBytes := by cases d <;> decide
  refine ⟨?_, ?_, ?_, ?_, ?_, ?_, ?_, hchip ▸ hpos⟩
  all_goals rw [hbuffer]
  · exact fun _ => rfl
  · exact fun _ => ⟨rfl, rfl⟩
  · rfl
  · exact Nat.le_add_right _ _
  · exact Nat.le_add_right _ _
  · exact Nat.mul_pos (by decide) hpos
  · exact hpos

theorem OpRun.empty_iff {s : Sys τ} {ts : List (Sys τ)} (h : OpRun io s ts) (hs : Sound s) :
    (∀ t ∈ ts, t.buffer.Empty) ↔ List.IsChain LastCallInFull (s :: ts) := by
  induction h with
  | nil s => exact ⟨fun _ => .singleton s, fun _ _ ht => nomatch ht⟩
  | cons op hrun _ ih =>
      have hout := op.outcome hs hrun
      rw [List.forall_mem_cons, List.isChain_cons_cons, hout.empty_iff, ih hout.1]

/-- In any run over any transport, the buffer is empty after every operation
exactly if the last D2XX call of every operation transferred everything. -/
theorem operations_leave_no_residue (io : D2xx τ) {s : Sys τ} {ts : List (Sys τ)}
    (hinit : Initialised s) (hrun : OpRun io s ts) :
    (∀ t ∈ ts, t.buffer.Empty) ↔ List.IsChain LastCallInFull (s :: ts) :=
  hrun.empty_iff hinit.sound

/-- A transport whose calls all fail, and a driver just initialised. -/
def deadLink : D2xx Unit where
  ftWrite _ u := (⟨false, 0⟩, u)
  ftRead _ u := (⟨false, []⟩, u)

def unplugged : Sys Unit where
  gFtdi :=
    { chipBufferBytes := 4096
      highSpeedCapable := true
      jtagSplitter := ⟨.testLogicReset⟩
      lastTdi := false
      pool := txvcMempoolInit 0x100000 (64 * 1024)
      cmdBuffer := ftBufferInit 0x200000 4096 }
  mem := fun _ _ => 0
  bitExtras := fun _ => ⟨0, ⟨.resp, 0⟩, 0, 0⟩
  byteExtras := fun _ => ⟨⟨.resp, 0⟩, 0⟩
  usb := ()
  calls := []
  queued := []
  flushes := []

theorem initialised_unplugged : Initialised unplugged := ⟨.ft2232h, 0x200000, rfl, rfl⟩

/-- The sync check fails, and its command and its observer stay queued. -/
theorem exists_failed_sync :
    ∃ t, OpRun deadLink unplugged [t] ∧ t.buffer.txData = [0xab] ∧ t.buffer.rxNumBytes = 2 ∧
      t.buffer.rxObservers.length = 1 := by
  obtain ⟨_, t, hrun, htest⟩ := Exec.exists_ok_of_test
    (x := BufferOp.checkDeviceInSync.perform deadLink) (s := unplugged)
    (fun _ t => t.buffer.txData == [0xab] && t.buffer.rxNumBytes == 2 &&
      t.buffer.rxObservers.length == 1) (by decide +kernel)
  simp only [Bool.and_eq_true, beq_iff_eq] at htest
  exact ⟨t, .cons _ hrun (.nil t), htest.1.1, htest.1.2, htest.2⟩

theorem operations_leave_no_residue_sync :
    ∃ t, OpRun deadLink unplugged [t] ∧
      ((∀ u ∈ [t], u.buffer.Empty) ↔ List.IsChain LastCallInFull [unplugged, t]) := by
  obtain ⟨t, hrun, -⟩ := exists_failed_sync
  exact ⟨t, hrun, operations_leave_no_residue deadLink initialised_unplugged hrun⟩

theorem failed_sync_leaves_residue :
    Initialised unplugged ∧
      ∃ ts, OpRun deadLink unplugged ts ∧ ¬ ∀ t ∈ ts, t.buffer.Empty := by
  obtain ⟨t, hrun, htx, -⟩ := exists_failed_sync
  refine ⟨initialised_unplugged, [t], hrun, fun hempty => ?_⟩
  have hnil := (hempty t List.mem_cons_self).txData
  rw [htx] at hnil
  cases hnil

end TinyXvc
