import TinyXvc.FtdiGeneric.Requests

/-!
# The outcomes of a flush

`ft_buffer_flush` writes, if there is something to write, and then reads, if
there is something to read.  Either half stops the flush when its D2XX call
does not transfer everything.
-/

namespace TinyXvc

/-- What the call passed to `FT_Write`. -/
def D2xxCall.sent : D2xxCall → List UInt8
  | .write data _ => data
  | .read _ _ => []

namespace Sys

/-- Everything passed to `FT_Write` so far. -/
def sent {τ : Type} (s : Sys τ) : List UInt8 := s.calls.flatMap D2xxCall.sent

variable {τ : Type} (io : D2xx τ) (s : Sys τ)

abbrev buffer (s : Sys τ) : FtBuffer := s.gFtdi.cmdBuffer

/-- What was sent and what is still to be sent. -/
def issued (s : Sys τ) : List UInt8 := s.sent ++ s.buffer.txData

def entered : Sys τ := { s with flushes := s.flushes ++ [(s.buffer, s.usb)] }

def writeReply : FtWriteReply := (io.ftWrite s.buffer.txData s.usb).1

def readReply : FtReadReply := (io.ftRead s.buffer.rxNumBytes s.usb).1

def afterWrite : Sys τ :=
  { s with
    usb := (io.ftWrite s.buffer.txData s.usb).2
    calls := s.calls ++ [.write s.buffer.txData (s.writeReply io)] }

def afterRead : Sys τ :=
  { s with
    usb := (io.ftRead s.buffer.rxNumBytes s.usb).2
    calls := s.calls ++ [.read s.buffer.rxNumBytes (s.readReply io)] }

def txCleared : Sys τ := s.setBuffer { s.buffer with txBuffer := none, txData := [] }

def rxObserved (rx : List UInt8) : Sys τ :=
  { s with mem := s.buffer.rxObservers.foldl (RxObserverNode.run s rx) s.mem }

def rxCleared : Sys τ :=
  s.setBuffer { s.buffer with rxObservers := [], rxBuffer := none, rxNumBytes := 0 }

def reclaimed : Sys τ := s.setBuffer { s.buffer with pool := txvcMempoolReclaimAll s.buffer.pool }

end Sys

variable {τ : Type} {io : D2xx τ} {s : Sys τ}

theorem flushTx_none (h : s.buffer.txBuffer = none) : ftBufferFlushTx io s = .ok (true, s) := by
  have hnot : ¬ s.buffer.txBuffer.isSome = true := by simp [h]
  unfold ftBufferFlushTx cmdBuffer
  rw [bind_assoc, Exec.get_bind, pure_bind, if_neg hnot]
  rfl

theorem flushTx_some (h : s.buffer.txBuffer.isSome = true) :
    ftBufferFlushTx io s =
      if (D2xxCall.write s.buffer.txData (s.writeReply io)).inFull then
        .ok (true, (s.afterWrite io).txCleared)
      else .ok (false, s.afterWrite io) := by
  have hwrite : ftWrite io s.buffer.txData s = .ok (s.writeReply io, s.afterWrite io) := rfl
  unfold ftBufferFlushTx cmdBuffer
  rw [bind_assoc, Exec.get_bind, pure_bind, if_pos h, Exec.bind_ok hwrite]
  simp only [D2xxCall.inFull]
  by_cases hok : (s.writeReply io).success = true
  · by_cases hlen : (s.writeReply io).written = s.buffer.txData.length
    · simp [hok, hlen]
      rfl
    · simp [hok, hlen]
      rfl
  · simp [hok]
    rfl

theorem flushRx_none (h : s.buffer.rxBuffer = none) : ftBufferFlushRx io s = .ok (true, s) := by
  have hnot : ¬ s.buffer.rxBuffer.isSome = true := by simp [h]
  unfold ftBufferFlushRx cmdBuffer
  rw [bind_assoc, Exec.get_bind, pure_bind, if_neg hnot]
  rfl

variable (io) in
theorem flushRx_some (h : s.buffer.rxBuffer.isSome = true) :
    ftBufferFlushRx io s =
      if (D2xxCall.read s.buffer.rxNumBytes (s.readReply io)).inFull then
        .ok (true, ((s.afterRead io).rxObserved (s.readReply io).data).rxCleared)
      else .ok (false, s.afterRead io) := by
  have hread : ftRead io s.buffer.rxNumBytes s = .ok (s.readReply io, s.afterRead io) := rfl
  unfold ftBufferFlushRx cmdBuffer
  rw [bind_assoc, Exec.get_bind, pure_bind, if_pos h, Exec.bind_ok hread]
  simp only [D2xxCall.inFull]
  by_cases hok : (s.readReply io).success = true
  · by_cases hlen : (s.readReply io).data.length = s.buffer.rxNumBytes
    · simp [hok, hlen]
      rfl
    · simp [hok, hlen]
      rfl
  · simp [hok]
    rfl

/-- The halves of a flush. -/
theorem flush_of_tx_failed {t : Sys τ} (h : ftBufferFlushTx io s.entered = .ok (false, t)) :
    ftBufferFlush io s = .ok (false, t) := by
  have henter : (modify fun s : Sys τ =>
      { s with flushes := s.flushes ++ [(s.gFtdi.cmdBuffer, s.usb)] } : Prog τ PUnit) s =
      .ok (⟨⟩, s.entered) := rfl
  unfold ftBufferFlush
  rw [Exec.bind_ok henter, Exec.bind_ok h]
  rfl

theorem flush_of_tx_ok {t u : Sys τ} {ok : Bool} (h : ftBufferFlushTx io s.entered = .ok (true, t))
    (hrx : ftBufferFlushRx io t = .ok (ok, u)) :
    ftBufferFlush io s = .ok (ok, if ok then u.reclaimed else u) := by
  have henter : (modify fun s : Sys τ =>
      { s with flushes := s.flushes ++ [(s.gFtdi.cmdBuffer, s.usb)] } : Prog τ PUnit) s =
      .ok (⟨⟩, s.entered) := rfl
  unfold ftBufferFlush
  rw [Exec.bind_ok henter, Exec.bind_ok h, if_pos rfl, Exec.bind_ok hrx]
  cases ok <;> rfl

end TinyXvc
