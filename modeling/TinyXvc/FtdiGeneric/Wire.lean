import TinyXvc.FtdiGeneric.Append
import TinyXvc.Lib.Transducer

/-!
# Flushes over a wire

A wire transfers everything; at its other end is any machine that answers
bytes with bytes.  A flush sends what is queued, and runs every queued observer
on the replies from its own data pointer on.
-/

namespace TinyXvc

/-- A chip and the replies that have not been read. -/
structure Wire (ι : Type) where
  chip : ι
  unread : List UInt8

def wire {ι : Type} (T : Transducer ι UInt8 UInt8) : D2xx (Wire ι) where
  ftWrite data u := (⟨true, data.length⟩, ⟨T.feed u.chip data, u.unread ++ T.replies u.chip data⟩)
  ftRead numBytes u := (⟨true, u.unread.take numBytes⟩, { u with unread := u.unread.drop numBytes })

/-- An observer with its record, and the data from its data pointer on. -/
abbrev ObserverRun := RxCopy × List UInt8

def ObserverRun.apply (m : Mem) (r : ObserverRun) : Mem := r.1.run (Octets.ofList r.2) m

/-- The runs of the observers in the flush of a state. -/
def Sys.flushRuns {τ : Type} (io : D2xx τ) (s : Sys τ) : List ObserverRun :=
  if s.buffer.rxBuffer.isSome then
    let usb := if s.buffer.txBuffer.isSome then (io.ftWrite s.buffer.txData s.usb).2 else s.usb
    let reply := (io.ftRead s.buffer.rxNumBytes usb).1
    s.buffer.rxObservers.map fun o => (o.copy s, reply.data.drop o.data)
  else []

section Flush

variable {ι : Type} (T : Transducer ι UInt8 UInt8) (s : Sys (Wire ι))

namespace Sys

/-- The replies to the queued bytes. -/
def wireReplies : List UInt8 := T.replies s.usb.chip s.buffer.txData

/-- The chip after the queued bytes. -/
def wireChip : ι := T.feed s.usb.chip s.buffer.txData

/-- The queued observers, on the replies to come. -/
def pendingRuns : List ObserverRun :=
  s.buffer.rxObservers.map fun o => (o.copy s, (s.wireReplies T).drop o.data)

end Sys

/-- Nothing is under way, the buffers exist when they are needed, and the chip
owes as many bytes as are expected. -/
structure Expecting : Prop where
  unread : s.usb.unread = []
  tx_isSome : s.buffer.txBuffer.isSome = true ↔ s.buffer.txData ≠ []
  rx_isSome : s.buffer.rxBuffer.isSome = true ↔ 0 < s.buffer.rxNumBytes
  observers_nil : s.buffer.rxNumBytes = 0 → s.buffer.rxObservers = []
  replies : (s.wireReplies T).length = s.buffer.rxNumBytes

/-- The state after a flush. -/
structure Flushed (s t : Sys (Wire ι)) : Prop where
  chip : t.usb.chip = s.wireChip T
  unread : t.usb.unread = []
  buffer : t.buffer = { s.buffer with
    pool := txvcMempoolReclaimAll s.buffer.pool
    txBuffer := none
    txData := []
    rxBuffer := none
    rxNumBytes := 0
    rxObservers := [] }
  sent : t.sent = s.sent ++ s.buffer.txData
  mem : t.mem = (s.pendingRuns T).foldl ObserverRun.apply s.mem
  bitExtras : t.bitExtras = s.bitExtras
  byteExtras : t.byteExtras = s.byteExtras
  flushes : t.flushes = s.flushes ++ [(s.buffer, s.usb)]

variable {T s}

theorem Expecting.flushTx (h : Expecting T s) :
    ∃ t, ftBufferFlushTx (wire T) s.entered = .ok (true, t) ∧
      t.usb = ⟨s.wireChip T, s.wireReplies T⟩ ∧
      t.buffer = { s.buffer with txBuffer := none, txData := [] } ∧
      t.sent = s.sent ++ s.buffer.txData ∧ t.mem = s.mem ∧ t.bitExtras = s.bitExtras ∧
      t.byteExtras = s.byteExtras ∧ t.flushes = s.flushes ++ [(s.buffer, s.usb)] := by
  cases hb : s.buffer.txBuffer with
  | none =>
      have hnil : s.buffer.txData = [] := by
        by_contra hne
        have hsome := h.tx_isSome.mpr hne
        rw [hb] at hsome
        cases hsome
      refine ⟨s.entered, flushTx_none hb, ?_, ?_, ?_, rfl, rfl, rfl, rfl⟩
      · rw [Sys.wireChip, Sys.wireReplies, hnil, T.feed_nil, T.replies_nil, ← h.unread]
        rfl
      · rw [← hb, ← hnil]
        rfl
      · rw [hnil, List.append_nil]
        rfl
  | some addr =>
      have hsome : s.entered.buffer.txBuffer.isSome = true := h.tx_isSome.mpr (by
        intro hnil
        have hnot := mt h.tx_isSome.mp (not_not_intro hnil)
        exact hnot (by rw [hb]; rfl))
      have hfull : (D2xxCall.write s.entered.buffer.txData
          (s.entered.writeReply (wire T))).inFull = true := by
        simp [D2xxCall.inFull, Sys.writeReply, wire]
      refine ⟨(s.entered.afterWrite (wire T)).txCleared, ?_, ?_, rfl, ?_, rfl, rfl, rfl, rfl⟩
      · rw [flushTx_some hsome, if_pos hfull]
      · change (⟨T.feed s.usb.chip s.buffer.txData,
          s.usb.unread ++ T.replies s.usb.chip s.buffer.txData⟩ : Wire ι) = _
        rw [h.unread]
        rfl
      · change (s.calls ++ [D2xxCall.write s.buffer.txData _]).flatMap D2xxCall.sent = _
        rw [List.flatMap_append]
        simp [D2xxCall.sent, Sys.sent]

theorem Expecting.flush (h : Expecting T s) :
    ∃ t, ftBufferFlush (wire T) s = .ok (true, t) ∧ Flushed T s t := by
  obtain ⟨t, htx, husb, hbuffer, hsent, hmem, hbit, hbyte, hflushes⟩ := h.flushTx
  have hrxBuffer : t.buffer.rxBuffer = s.buffer.rxBuffer := by rw [hbuffer]
  have hruns : t.buffer.rxObservers.foldl (RxObserverNode.run t (s.wireReplies T)) t.mem =
      (s.pendingRuns T).foldl ObserverRun.apply s.mem := by
    rw [Sys.pendingRuns, List.foldl_map, hbuffer, hmem]
    apply List.foldl_ext
    intro m o _
    unfold RxObserverNode.run ObserverRun.apply RxObserverNode.copy
    rw [hbit, hbyte]
  cases hb : s.buffer.rxBuffer with
  | none =>
      have hzero : s.buffer.rxNumBytes = 0 := by
        by_contra hne
        have hsome := h.rx_isSome.mpr (Nat.pos_of_ne_zero hne)
        rw [hb] at hsome
        cases hsome
      have hreplies : s.wireReplies T = [] := List.length_eq_zero_iff.mp (h.replies.trans hzero)
      have hobs := h.observers_nil hzero
      refine ⟨_, flush_of_tx_ok htx (flushRx_none (hrxBuffer.trans hb)), ?_, ?_, ?_, hsent, ?_,
        hbit, hbyte, hflushes⟩
      · exact congrArg Wire.chip husb
      · exact (congrArg Wire.unread husb).trans hreplies
      · change { t.buffer with pool := txvcMempoolReclaimAll t.buffer.pool } = _
        rw [hbuffer]
        simp only [hb, hzero, hobs]
      · rw [Sys.pendingRuns, hobs]
        exact hmem
  | some addr =>
      have hsome : t.buffer.rxBuffer.isSome = true := by
        rw [hrxBuffer, hb]
        rfl
      have hreply : t.readReply (wire T) = ⟨true, s.wireReplies T⟩ := by
        unfold Sys.readReply
        rw [husb, hbuffer, ← h.replies]
        exact congrArg (FtReadReply.mk true) (List.take_length)
      have hfull : (D2xxCall.read t.buffer.rxNumBytes (t.readReply (wire T))).inFull = true := by
        rw [D2xxCall.inFull, hreply, hbuffer]
        exact beq_iff_eq.mpr h.replies
      have hread := flushRx_some (wire T) hsome
      rw [if_pos hfull, hreply] at hread
      refine ⟨_, flush_of_tx_ok htx hread, ?_, ?_, ?_, ?_, ?_, hbit, hbyte, hflushes⟩
      · exact congrArg Wire.chip husb
      · change t.usb.unread.drop t.buffer.rxNumBytes = []
        rw [husb, hbuffer, ← h.replies]
        exact List.drop_length
      · change { t.buffer with
          pool := txvcMempoolReclaimAll t.buffer.pool
          rxObservers := []
          rxBuffer := none
          rxNumBytes := 0 } = _
        rw [hbuffer]
      · change (t.calls ++ [D2xxCall.read _ _]).flatMap D2xxCall.sent = _
        rw [List.flatMap_append]
        exact (List.append_nil _).trans hsent
      · exact hruns

/-- The runs of a flush are the pending ones. -/
theorem Expecting.flushRuns_eq (h : Expecting T s) : s.flushRuns (wire T) = s.pendingRuns T := by
  unfold Sys.flushRuns
  split
  · have hdata : (s.usb.unread ++ T.replies s.usb.chip s.buffer.txData).take s.buffer.rxNumBytes =
        s.wireReplies T := by
      rw [h.unread, List.nil_append, ← h.replies]
      exact List.take_length
    by_cases htx : s.buffer.txBuffer.isSome = true
    · rw [if_pos htx]
      change s.buffer.rxObservers.map (fun o => (o.copy s, ((s.usb.unread ++
        T.replies s.usb.chip s.buffer.txData).take s.buffer.rxNumBytes).drop o.data)) = _
      rw [hdata]
      rfl
    · have hnil : s.buffer.txData = [] := not_not.mp (mt h.tx_isSome.mpr htx)
      rw [hnil, T.replies_nil, List.append_nil] at hdata
      rw [if_neg htx]
      change s.buffer.rxObservers.map (fun o =>
        (o.copy s, (s.usb.unread.take s.buffer.rxNumBytes).drop o.data)) = _
      rw [hdata]
      rfl
  · rename_i hnone
    have hzero : s.buffer.rxNumBytes = 0 := Nat.eq_zero_of_not_pos (mt h.rx_isSome.mpr hnone)
    rw [Sys.pendingRuns, h.observers_nil hzero]
    rfl

end Flush

end TinyXvc
