import TinyXvc.FtdiGeneric.Failures
import TinyXvc.Lib.Resend

/-!
# What reaches the other side

`ft_buffer_flush` clears the TX buffer only after an `FT_Write` that transferred
everything.  So every write, on any transport and in any run, offers what was
queued since the last such write: bytes that were not acknowledged are offered
again, in their order and before the bytes that were queued later.
-/

namespace TinyXvc

open Resend

/-- A write as an attempt to send; `written` is what the other side got of it. -/
def D2xxCall.attempt : D2xxCall → Option (Attempt UInt8)
  | .write data reply =>
      some ⟨data, data.take reply.written, (D2xxCall.write data reply).inFull⟩
  | .read _ _ => none

def attempts (cs : List D2xxCall) : List (Attempt UInt8) := cs.filterMap D2xxCall.attempt

theorem attempts_append (cs ds : List D2xxCall) :
    attempts (cs ++ ds) = attempts cs ++ attempts ds :=
  List.filterMap_append

theorem honest_of_mem_attempts {cs : List D2xxCall} {a : Attempt UInt8} (h : a ∈ attempts cs) :
    a.Honest := by
  obtain ⟨c, -, hc⟩ := List.mem_filterMap.mp h
  cases c with
  | read n reply => cases hc
  | write data reply =>
      obtain rfl := Option.some.inj hc
      intro hfull
      simp only [D2xxCall.inFull, Bool.and_eq_true, beq_iff_eq] at hfull
      simp [hfull.2]

/-- The bytes of a history of appends. -/
def queuedBytes (qs : List QueuedData) : List UInt8 := qs.flatMap QueuedData.txData

@[simp] theorem queuedBytes_append (qs rs : List QueuedData) :
    queuedBytes (qs ++ rs) = queuedBytes qs ++ queuedBytes rs := List.flatMap_append

variable {τ : Type}

/-- What happened on the way from `s` to `t`. -/
structure History (s t : Sys τ) (cs : List D2xxCall) (qs : List QueuedData) : Prop where
  calls : t.calls = s.calls ++ cs
  queued : t.queued = s.queued ++ qs

/-- The books of the way from `s` to `t` balance. -/
def Booked (s t : Sys τ) : Prop :=
  ∃ cs qs, History s t cs qs ∧
    Ledger (s.buffer.txData ++ queuedBytes qs) (attempts cs) t.buffer.txData

theorem Booked.refl (s : Sys τ) : Booked s s :=
  ⟨[], [], ⟨(List.append_nil _).symm, (List.append_nil _).symm⟩,
    (List.append_nil s.buffer.txData).symm ▸ Ledger.start s.buffer.txData⟩

/-- The books are about nothing but the two histories and what is queued. -/
theorem Booked.congr {s₀ s t : Sys τ} (h : Booked s₀ s) (hcalls : t.calls = s.calls)
    (hqueued : t.queued = s.queued) (htx : t.buffer.txData = s.buffer.txData) : Booked s₀ t := by
  obtain ⟨cs, qs, hhist, hledger⟩ := h
  exact ⟨cs, qs, ⟨hcalls.trans hhist.calls, hqueued.trans hhist.queued⟩, htx ▸ hledger⟩

/-! ## What the operations preserve -/

/-- What flushes and appends preserve, if it depends on nothing else of the
driver than its chip. -/
structure Kept (io : D2xx τ) (J : Sys τ → Prop) : Prop where
  chip : ∀ s, J s → 0 < s.gFtdi.chipBufferBytes
  pools : PoolBlind J
  lastTdi : ∀ s b, J s → J { s with gFtdi := { s.gFtdi with lastTdi := b } }
  splitter : ∀ s j, J s → J { s with gFtdi := { s.gFtdi with jtagSplitter := j } }
  flush : Exec.Preserves J (fun _ _ => True) (ftBufferFlush io)
  append : ∀ txData observer n,
    Exec.Preserves J (fun _ _ => True) (ftBufferAppend txData observer n)

namespace Kept

variable {io : D2xx τ} {J : Sys τ → Prop}

theorem request (h : Kept io J) (q : Request) :
    Exec.Preserves J (fun _ _ => True) (q.queue io) :=
  q.queue_preserves (fun _ _ _ _ => trivial) io h.pools h.flush h.append

theorem callback (h : Kept io J) (e : JtagSplitEvent) :
    Exec.Preserves J (fun _ _ => True) (jtagSplitterCallback io e) := by
  intro s hs
  cases e with
  | shiftTms tms a b =>
      by_cases hab : a < b
      · have heq : jtagSplitterCallback io (.shiftTms tms a b) s =
            (tmsRequests tms s.gFtdi.lastTdi a b).allM (Request.queue io) s :=
          appendTmsShift_eq io tms hab s
        rw [Exec.wp, heq]
        exact Exec.Preserves.allM h.request _ s hs
      · unfold jtagSplitterCallback appendTmsShiftToTransaction
        dsimp only
        rw [decide_eq_false hab]
        trivial
  | shiftTdi tdi tdo a b incomplete =>
      by_cases hab : a < b
      · have heq : jtagSplitterCallback io (.shiftTdi tdi tdo a b incomplete) s = _ :=
          appendTdiShift_eq io (t := ⟨tdi, tdo, a, b, !incomplete⟩) hab s (h.chip s hs)
        rw [Exec.wp, heq]
        refine Exec.Preserves.bind (Exec.Preserves.allM h.request _) (fun ok => ?_) s hs
        refine Exec.Preserves.ite ?_ (Exec.Preserves.pure _)
        refine Exec.Preserves.bind (Exec.Preserves.modifyGet fun t => ?_) fun _ =>
          Exec.Preserves.pure _
        exact h.lastTdi t _
      · unfold jtagSplitterCallback appendTdiShiftToTransaction
        dsimp only
        rw [decide_eq_false hab]
        trivial
  | flushAll =>
      refine Exec.Preserves.bind h.flush (fun ok => ?_) s hs
      refine Exec.Preserves.bind (Exec.Preserves.modifyGet fun t => ?_) fun _ =>
        Exec.Preserves.pure _
      exact h.pools.driver t _

theorem shiftBits (h : Kept io J) (r : SplitRequest) :
    Exec.Preserves J (fun _ _ => True) (shiftBits io r) := by
  refine Exec.Preserves.get.bind fun s => Exec.Preserves.bind ?_ fun p => ?_
  · exact process_preserves _ r h.callback (fun _ _ _ => trivial) _
  · refine Exec.Preserves.bind (Exec.Preserves.modifyGet fun t => ?_) fun _ => Exec.Preserves.pure _
    exact h.splitter t _

theorem checkDeviceInSync (h : Kept io J) :
    Exec.Preserves J (fun _ _ => True) (checkDeviceInSync io) := by
  refine Exec.Preserves.bind (h.request (.readBytes [0xab] ⟨.resp, 0⟩ 2)) fun ok => ?_
  refine Exec.Preserves.ite (h.flush.bind fun ok => ?_) (Exec.Preserves.pure _)
  exact Exec.Preserves.ite (Exec.Preserves.get.bind fun _ => Exec.Preserves.pure _)
    (Exec.Preserves.pure _)

theorem setTckPeriod (h : Kept io J) (tckPeriodNs : ℤ) :
    Exec.Preserves J (fun _ _ => True) (setTckPeriod io tckPeriodNs) := by
  refine Exec.Preserves.get.bind fun s => Exec.Preserves.bind ?_ fun setting => ?_
  · exact fun t ht => wp_tckSetting (fun _ => ht) fun _ _ => trivial
  · refine Exec.Preserves.bind (Exec.Preserves.andM (h.request (.write _)) h.checkDeviceInSync)
      fun ok => ?_
    exact Exec.Preserves.ite (Exec.Preserves.pure _) (Exec.Preserves.pure _)

theorem perform (h : Kept io J) (op : BufferOp) :
    Exec.Preserves J (fun _ _ => True) (op.perform io) := by
  cases op with
  | checkDeviceInSync => exact h.checkDeviceInSync.bind fun _ => Exec.Preserves.pure _
  | setTckPeriod ns => exact (h.setTckPeriod ns).bind fun _ => Exec.Preserves.pure _
  | shiftBits r => exact (h.shiftBits r).bind fun _ => Exec.Preserves.pure _

theorem run (h : Kept io J) {s : Sys τ} {ts : List (Sys τ)} (hrun : OpRun io s ts) (hs : J s) :
    ∀ t ∈ ts, J t := by
  induction hrun with
  | nil s => exact List.forall_mem_nil _
  | cons op hop _ ih =>
      have ht := Exec.wp_ok (h.perform op _ hs) hop
      exact List.forall_mem_cons.mpr ⟨ht, ih ht⟩

end Kept

/-! ## The parts of a flush -/

/-- What the parts of a flush preserve; a write that transferred everything
clears the TX buffer. -/
structure FlushParts (io : D2xx τ) (J : Sys τ → Prop) : Prop where
  entered : ∀ s, J s → J s.entered
  failed : ∀ s, J s → ¬(D2xxCall.write s.buffer.txData (s.writeReply io)).inFull = true →
    J (s.afterWrite io)
  sent : ∀ s, J s → (D2xxCall.write s.buffer.txData (s.writeReply io)).inFull = true →
    J (s.afterWrite io).txCleared
  read : ∀ s, J s → J (s.afterRead io)
  observed : ∀ s rx, J s → J (s.rxObserved rx)
  rxCleared : ∀ s, J s → J s.rxCleared
  reclaimed : ∀ s, J s → J s.reclaimed

theorem FlushParts.flush {io : D2xx τ} {J : Sys τ → Prop} (h : FlushParts io J) :
    Exec.Preserves J (fun _ _ => True) (ftBufferFlush io) := by
  have htx : ∀ s, J s → ∃ ok t, ftBufferFlushTx io s = .ok (ok, t) ∧ J t := by
    intro s hs
    cases htx : s.buffer.txBuffer with
    | none => exact ⟨true, s, flushTx_none htx, hs⟩
    | some p =>
        have hrun : ftBufferFlushTx io s = _ := flushTx_some (by rw [htx]; rfl)
        by_cases hfull : (D2xxCall.write s.buffer.txData (s.writeReply io)).inFull = true
        · rw [if_pos hfull] at hrun
          exact ⟨_, _, hrun, h.sent s hs hfull⟩
        · rw [if_neg hfull] at hrun
          exact ⟨_, _, hrun, h.failed s hs hfull⟩
  have hrx : ∀ s, J s → ∃ ok t, ftBufferFlushRx io s = .ok (ok, t) ∧ J t := by
    intro s hs
    cases hrx : s.buffer.rxBuffer with
    | none => exact ⟨true, s, flushRx_none hrx, hs⟩
    | some p =>
        have hrun := flushRx_some io (s := s) (by rw [hrx]; rfl)
        split at hrun
        · exact ⟨_, _, hrun, h.rxCleared _ (h.observed _ _ (h.read s hs))⟩
        · exact ⟨_, _, hrun, h.read s hs⟩
  intro s hs
  obtain ⟨ok, t, hrunTx, ht⟩ := htx s.entered (h.entered s hs)
  cases ok with
  | false => exact Exec.wp_of_ok (flush_of_tx_failed hrunTx) ht
  | true =>
      obtain ⟨ok, u, hrunRx, hu⟩ := hrx t ht
      refine Exec.wp_of_ok (flush_of_tx_ok hrunTx hrunRx) ?_
      cases ok with
      | false => exact hu
      | true => exact h.reclaimed u hu

/-! ## The books balance -/

section Books

variable {io : D2xx τ} {s₀ s : Sys τ}

/-- The two ends of a write. -/
theorem Booked.afterWrite (h : Booked s₀ s)
    (hfailed : ¬(D2xxCall.write s.buffer.txData (s.writeReply io)).inFull = true) :
    Booked s₀ (s.afterWrite io) := by
  obtain ⟨cs, qs, ⟨hcalls, hqueued⟩, hledger⟩ := h
  refine ⟨cs ++ [.write s.buffer.txData (s.writeReply io)], qs, ⟨?_, hqueued⟩, ?_⟩
  · change s.calls ++ [_] = _
    rw [hcalls, List.append_assoc]
  · rw [attempts_append]
    exact hledger.fail rfl (Bool.eq_false_of_not_eq_true hfailed)

theorem Booked.txCleared (h : Booked s₀ s)
    (hfull : (D2xxCall.write s.buffer.txData (s.writeReply io)).inFull = true) :
    Booked s₀ (s.afterWrite io).txCleared := by
  obtain ⟨cs, qs, ⟨hcalls, hqueued⟩, hledger⟩ := h
  refine ⟨cs ++ [.write s.buffer.txData (s.writeReply io)], qs, ⟨?_, hqueued⟩, ?_⟩
  · change s.calls ++ [_] = _
    rw [hcalls, List.append_assoc]
  · rw [attempts_append]
    exact hledger.settle rfl hfull

theorem Booked.afterRead (h : Booked s₀ s) : Booked s₀ (s.afterRead io) := by
  obtain ⟨cs, qs, ⟨hcalls, hqueued⟩, hledger⟩ := h
  refine ⟨cs ++ [.read s.buffer.rxNumBytes (s.readReply io)], qs, ⟨?_, hqueued⟩, ?_⟩
  · change s.calls ++ [_] = _
    rw [hcalls, List.append_assoc]
  · rw [attempts_append]
    exact (List.append_nil (attempts cs)).symm ▸ hledger

variable (io s₀) in
theorem booked_flush :
    Exec.Preserves (Booked s₀) (fun _ _ => True) (ftBufferFlush io) :=
  FlushParts.flush
    { entered := fun _ h => h.congr rfl rfl rfl
      failed := fun _ => Booked.afterWrite
      sent := fun _ => Booked.txCleared
      read := fun _ => Booked.afterRead
      observed := fun _ _ h => h.congr rfl rfl rfl
      rxCleared := fun _ h => h.congr rfl rfl rfl
      reclaimed := fun _ h => h.congr rfl rfl rfl }

end Books

/-! ## Appends -/

section Appends

/-- What the allocations of an append do not touch. -/
def Sys.traffic (s : Sys τ) : List UInt8 × List D2xxCall × List QueuedData × τ :=
  (s.buffer.txData, s.calls, s.queued, s.usb)

theorem allocCmd_traffic {alloc : TxvcMempool → Prog τ (Option ℕ × TxvcMempool)}
    (h : ∀ pool, Exec.Keeps Sys.traffic (alloc pool)) :
    Exec.Keeps Sys.traffic (allocCmd alloc) := by
  refine (Exec.Keeps.get.bind fun _ => Exec.Keeps.pure _).bind fun b => (h b.pool).bind fun p => ?_
  exact Exec.Keeps.bind (Exec.Keeps.modifyGet fun _ => rfl) fun _ => Exec.Keeps.pure _

theorem keeps_compositional :
    Exec.Compositional fun α (x : Prog τ α) => Exec.Keeps Sys.traffic x where
  pure := Exec.Keeps.pure
  bind := Exec.Keeps.bind

theorem appendTx_txData (txData : List UInt8) (s : Sys τ) :
    Exec.wp (ftBufferAppendTx txData)
      (fun _ t => t.traffic = (s.buffer.txData ++ txData, s.calls, s.queued, s.usb))
      (fun _ _ => True) s := by
  have hdata : ∀ t : Sys τ, t.traffic = s.traffic →
      Exec.wp (modifyCmdBuffer fun b => { b with txData := b.txData ++ txData })
        (fun _ t => t.traffic = (s.buffer.txData ++ txData, s.calls, s.queued, s.usb))
        (fun _ _ => True) t := by
    intro t ht
    simp only [Sys.traffic, Prod.mk.injEq] at ht
    obtain ⟨htx, hcalls, hqueued, husb⟩ := ht
    change (t.buffer.txData ++ txData, t.calls, t.queued, t.usb) = _
    rw [htx, hcalls, hqueued, husb]
  unfold ftBufferAppendTx
  by_cases hlen : txData.length > 0
  · rw [if_pos hlen, cmdBuffer, bind_assoc, Exec.wp_bind, Exec.wp_get, pure_bind]
    split
    · rw [Exec.wp_bind]
      refine Exec.wp_mono ((allocCmd_traffic fun pool => ?_).wp s) ?_ (fun _ _ _ => trivial)
      · exact allocUnaligned_compositional keeps_compositional (fun _ _ => Exec.Keeps.abort _) _ _
      · intro p t ht
        rw [Exec.wp_bind]
        exact hdata _ ht
    · exact hdata s rfl
  · have hnil : txData = [] := List.length_eq_zero_iff.mp (by omega)
    rw [if_neg hlen, hnil]
    change s.traffic = _
    rw [List.append_nil]
    rfl

theorem appendRx_traffic (observer : Option (RxObserverFn × ℕ)) (n : ℕ) :
    Exec.Keeps Sys.traffic (ftBufferAppendRx observer n : Prog τ Unit) := by
  have hbuffer : Exec.Keeps Sys.traffic (cmdBuffer : Prog τ FtBuffer) :=
    Exec.Keeps.get.bind fun _ => Exec.Keeps.pure _
  have hnode : Exec.Keeps Sys.traffic (ftBufferAddObserver observer : Prog τ Unit) := by
    cases observer with
    | none => exact Exec.Keeps.pure _
    | some o =>
        refine (allocCmd_traffic fun pool => ?_).bind fun p => Exec.Keeps.bind ?_ fun _ =>
          Exec.Keeps.modifyGet fun _ => rfl
        · exact allocAligned_compositional keeps_compositional (fun _ _ => Exec.Keeps.abort _) _ _ _
        · exact deref_compositional keeps_compositional (fun _ _ => Exec.Keeps.abort _) p
  have hrest : Exec.Keeps Sys.traffic (do
      ftBufferAddObserver observer
      modifyCmdBuffer fun b => { b with rxNumBytes := b.rxNumBytes + n } : Prog τ Unit) :=
    hnode.bind fun _ => Exec.Keeps.modifyGet fun _ => rfl
  refine Exec.Keeps.ite (hbuffer.bind fun b => Exec.Keeps.ite ?_ hrest) (Exec.Keeps.pure _)
  refine (allocCmd_traffic fun pool => ?_).bind fun p => ?_
  · exact allocUnaligned_compositional keeps_compositional (fun _ _ => Exec.Keeps.abort _) _ _
  · exact Exec.Keeps.bind (Exec.Keeps.modifyGet fun _ => rfl) fun _ => hrest

/-- An append queues its data, whatever becomes of its allocations. -/
theorem append_traffic (txData : List UInt8) (observer : Option (RxObserverFn × ℕ)) (n : ℕ)
    (s : Sys τ) :
    Exec.wp (ftBufferAppend txData observer n)
      (fun _ t => t.traffic =
        (s.buffer.txData ++ txData, s.calls, s.queued ++ [⟨txData, n⟩], s.usb))
      (fun _ _ => True) s := by
  unfold ftBufferAppend
  rw [Exec.wp_bind]
  refine Exec.wp_mono (appendTx_txData txData s) ?_ (fun _ _ _ => trivial)
  intro _ t ht
  rw [Exec.wp_bind]
  refine Exec.wp_mono ((appendRx_traffic observer n).wp t) ?_ (fun _ _ _ => trivial)
  intro _ u hu
  have hu' := hu.trans ht
  simp only [Sys.traffic, Prod.mk.injEq] at hu'
  obtain ⟨htx, hcalls, hqueued, husb⟩ := hu'
  change (u.buffer.txData, u.calls, u.queued ++ [⟨txData, n⟩], u.usb) = _
  rw [htx, hcalls, hqueued, husb]

end Appends

theorem booked_append (s₀ : Sys τ) (txData : List UInt8) (observer : Option (RxObserverFn × ℕ))
    (n : ℕ) :
    Exec.Preserves (Booked s₀) (fun _ _ => True) (ftBufferAppend txData observer n) := by
  intro s hs
  refine Exec.wp_mono (append_traffic txData observer n s) ?_ (fun _ _ _ => trivial)
  intro _ t ht
  simp only [Sys.traffic, Prod.mk.injEq] at ht
  obtain ⟨htx, hcalls, hqueued, -⟩ := ht
  obtain ⟨cs, qs, hhist, hledger⟩ := hs
  refine ⟨cs, qs ++ [⟨txData, n⟩], ⟨hcalls.trans hhist.calls, ?_⟩, ?_⟩
  · rw [hqueued, hhist.queued, List.append_assoc]
  · have hmore := hledger.queue txData
    rw [htx, queuedBytes_append, ← List.append_assoc]
    simpa [queuedBytes] using hmore

/-- The books as an invariant of the driver. -/
theorem kept_booked (io : D2xx τ) (s₀ : Sys τ) :
    Kept io fun s => 0 < s.gFtdi.chipBufferBytes ∧ Booked s₀ s where
  chip _ h := h.1
  pools :=
    { driver := fun _ _ h => ⟨h.1, h.2.congr rfl rfl rfl⟩
      cmd := fun _ _ h => ⟨h.1, h.2.congr rfl rfl rfl⟩
      bitExtras := fun _ _ h => ⟨h.1, h.2.congr rfl rfl rfl⟩
      byteExtras := fun _ _ h => ⟨h.1, h.2.congr rfl rfl rfl⟩ }
  lastTdi _ _ h := ⟨h.1, h.2.congr rfl rfl rfl⟩
  splitter _ _ h := ⟨h.1, h.2.congr rfl rfl rfl⟩
  flush s hs := by
    have hchip : Exec.Preserves (fun t : Sys τ => 0 < t.gFtdi.chipBufferBytes) (fun _ _ => True)
        (ftBufferFlush io) := ftBufferFlush_preserves io (fun _ _ h => h) (fun _ _ _ _ _ h => h)
    exact Exec.wp_mono (Exec.wp_and (hchip s hs.1) (booked_flush io s₀ s hs.2)) (fun _ _ h => h)
      (fun _ _ _ => trivial)
  append txData observer n s hs := by
    have hchip : Exec.Preserves (fun t : Sys τ => 0 < t.gFtdi.chipBufferBytes) (fun _ _ => True)
        (ftBufferAppend txData observer n) :=
      ftBufferAppend_preserves (fun _ _ _ _ => trivial) (fun _ _ h => h) (fun _ _ h => h) _ _ _
    exact Exec.wp_mono (Exec.wp_and (hchip s hs.1) (booked_append s₀ txData observer n s hs.2))
      (fun _ _ h => h) (fun _ _ _ => trivial)

/-- In any run over any transport, every write offers what follows the bytes that
earlier writes transferred in full, and what no such write has transferred is
still queued. -/
theorem writes_resume_where_acknowledged (io : D2xx τ) {s : Sys τ} {ts : List (Sys τ)}
    (hinit : Initialised s) (hrun : OpRun io s ts) :
    ∀ t ∈ ts, ∃ cs qs, History s t cs qs ∧
      Ledger (queuedBytes qs) (attempts cs) t.buffer.txData := by
  have hsound := hinit.sound
  obtain ⟨d, addr, -, hbuffer⟩ := hinit
  have hnil : s.buffer.txData = [] := by rw [hbuffer]; rfl
  intro t ht
  obtain ⟨-, cs, qs, hhist, hledger⟩ :=
    (kept_booked io s).run hrun ⟨hsound.chip, Booked.refl s⟩ t ht
  rw [hnil, List.nil_append] at hledger
  exact ⟨cs, qs, hhist, hledger⟩

/-- The first write gets through, and no later one; the chip is in sync. -/
def dyingLink : D2xx ℕ where
  ftWrite data n := (if n = 0 then ⟨true, data.length⟩ else ⟨false, 0⟩, n + 1)
  ftRead _ n := (⟨true, [0xfa, 0xab]⟩, n)

/-- A driver just initialised. -/
def dying : Sys ℕ where
  gFtdi := unplugged.gFtdi
  mem := unplugged.mem
  bitExtras := unplugged.bitExtras
  byteExtras := unplugged.byteExtras
  usb := 0
  calls := []
  queued := []
  flushes := []

/-- The sync check, and then a vector that is given up. -/
theorem exists_dying_run :
    ∃ t u, OpRun dyingLink dying [t, u] ∧
      (attempts u.calls).map Attempt.acknowledged = [true, false, false] := by
  obtain ⟨t, u, hrun, htest⟩ := Exec.exists_ok_of_test
    (x := (do
      BufferOp.checkDeviceInSync.perform dyingLink
      let t ← get
      (BufferOp.shiftBits ⟨1, fun _ => 0, fun _ => 0, ⟨.vector 0, 0⟩⟩).perform dyingLink
      pure t : Prog ℕ (Sys ℕ))) (s := dying)
    (fun _ u => (attempts u.calls).map Attempt.acknowledged == [true, false, false])
    (by decide +kernel)
  obtain ⟨_, t₁, hsync, hrest⟩ := Exec.bind_eq_ok hrun
  obtain ⟨t₂, _, hget, hrest⟩ := Exec.bind_eq_ok hrest
  cases hget
  obtain ⟨_, u₁, hshift, hpure⟩ := Exec.bind_eq_ok hrest
  cases hpure
  exact ⟨_, _, .cons _ hsync (.cons _ hshift (.nil _)), beq_iff_eq.mp htest⟩

theorem writes_resume_where_acknowledged_dying :
    ∃ t u, OpRun dyingLink dying [t, u] ∧
      (attempts u.calls).map Attempt.acknowledged = [true, false, false] ∧
      ∀ v ∈ [t, u], ∃ cs qs, History dying v cs qs ∧
        Ledger (queuedBytes qs) (attempts cs) v.buffer.txData := by
  obtain ⟨t, u, hrun, hattempts⟩ := exists_dying_run
  have hinit : Initialised dying := ⟨.ft2232h, 0x200000, rfl, rfl⟩
  exact ⟨t, u, hrun, hattempts, writes_resume_where_acknowledged dyingLink hinit hrun⟩

end TinyXvc
