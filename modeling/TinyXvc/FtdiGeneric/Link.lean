import TinyXvc.FtdiGeneric.Append
import TinyXvc.Lib.Mpsse

/-!
# The driver on a healthy link

A healthy link transfers everything, and the engine of the chip executes what
it receives.  What is queued in the command buffer is only deferred: the
settled view of a state has executed it already.  A flush leaves the settled
view as it is, and queueing a request executes it there.
-/

namespace TinyXvc

open Mpsse

/-- The chip and the replies that have not been read. -/
structure Usb where
  engine : Engine
  unread : List UInt8
  deriving DecidableEq, Repr

def Usb.write (dev : Device) (u : Usb) (data : List UInt8) : Usb :=
  ⟨u.engine.feed dev data, u.unread ++ u.engine.replies dev data⟩

def link (dev : Device) : D2xx Usb where
  ftWrite data u := (⟨true, data.length⟩, u.write dev data)
  ftRead numBytes u := (⟨true, u.unread.take numBytes⟩, { u with unread := u.unread.drop numBytes })

/-- What a flush must find: no more bytes to write than the chip is ready for,
exactly the expected replies, and no more of them than its buffer holds. -/
def FlushSafe (dev : Device) (chipBufferBytes : ℕ) (f : FtBuffer × Usb) : Prop :=
  f.1.txData.length ≤ 3 * chipBufferBytes ∧
  (f.2.write dev f.1.txData).unread.length = f.1.rxNumBytes ∧
  f.1.rxNumBytes ≤ chipBufferBytes

namespace Sys

variable (dev : Device) (s : Sys Usb)

/-- The replies to the queued commands. -/
def pendingReplies : List UInt8 := s.usb.engine.replies dev s.buffer.txData

/-- The engine and the memory once everything queued is executed. -/
def settledEngine : Engine := s.usb.engine.feed dev s.buffer.txData

def settledMem : Mem :=
  s.buffer.rxObservers.foldl (RxObserverNode.run s (s.pendingReplies dev)) s.mem

/-- The state between the two halves of a flush, and after it. -/
def written : Sys Usb :=
  { s.entered.txCleared with
    usb := ⟨s.settledEngine dev, s.pendingReplies dev⟩
    calls := s.calls ++
      if s.buffer.txBuffer.isSome then
        [.write s.buffer.txData ⟨true, s.buffer.txData.length⟩]
      else [] }

def flushed : Sys Usb :=
  { (s.written dev).rxCleared.reclaimed with
    mem := s.settledMem dev
    usb := ⟨s.settledEngine dev, []⟩
    calls := (s.written dev).calls ++
      if s.buffer.rxBuffer.isSome then [.read s.buffer.rxNumBytes ⟨true, s.pendingReplies dev⟩]
      else [] }

end Sys

/-- Whose record an observer uses. -/
def RxObserverNode.extraBelow {τ : Type} (s : Sys τ) (o : RxObserverNode) : Prop :=
  match o.fn with
  | .bitCopier => o.extra < s.gFtdi.pool.head
  | .byteCopier => o.extra < s.buffer.pool.head

/-- The invariant of a driver on a healthy link. -/
structure Linked (dev : Device) (s : Sys Usb) : Prop where
  unread : s.usb.unread = []
  tx_isSome : s.buffer.txBuffer.isSome = true ↔ s.buffer.txData ≠ []
  rx_isSome : s.buffer.rxBuffer.isSome = true ↔ 0 < s.buffer.rxNumBytes
  replies : (s.pendingReplies dev).length = s.buffer.rxNumBytes
  tx_le : s.buffer.txData.length ≤ s.buffer.maxTxBufferBytes
  rx_le : s.buffer.rxNumBytes ≤ s.buffer.maxRxBufferBytes
  maxTx : s.buffer.maxTxBufferBytes = 3 * s.gFtdi.chipBufferBytes
  maxRx : s.buffer.maxRxBufferBytes = s.gFtdi.chipBufferBytes
  observers_nil : s.buffer.rxNumBytes = 0 → s.buffer.rxObservers = []
  observers : ∀ o ∈ s.buffer.rxObservers, o.data + (o.copy s).span ≤ s.buffer.rxNumBytes
  extras : ∀ o ∈ s.buffer.rxObservers, o.extraBelow s
  fatal : s.gFtdi.pool.fatalOom = true ∧ s.buffer.pool.fatalOom = true
  heads : s.gFtdi.pool.head ≤ s.gFtdi.pool.limit ∧ s.buffer.pool.head ≤ s.buffer.pool.limit
  driverStart : s.gFtdi.pool.start ≤ s.gFtdi.pool.limit
  cmdStart : s.buffer.pool.start ≤ s.buffer.pool.limit
  device : ∃ d : FtDevice, s.gFtdi.chipBufferBytes = d.chipBufferBytes
  flushes : ∀ f ∈ s.flushes, FlushSafe dev s.gFtdi.chipBufferBytes f
  calls : ∀ c ∈ s.calls, c.inFull = true

section Flush

variable {dev : Device} {s : Sys Usb}

theorem Linked.chip_bounds (h : Linked dev s) :
    1024 ≤ s.gFtdi.chipBufferBytes ∧ s.gFtdi.chipBufferBytes ≤ 4096 := by
  obtain ⟨d, hd⟩ := h.device
  cases d <;> simp [hd, FtDevice.chipBufferBytes]

theorem Linked.flushSafe (h : Linked dev s) :
    FlushSafe dev s.gFtdi.chipBufferBytes (s.buffer, s.usb) := by
  refine ⟨?_, ?_, ?_⟩
  · rw [← h.maxTx]
    exact h.tx_le
  · rw [Usb.write, h.unread]
    exact h.replies
  · rw [← h.maxRx]
    exact h.rx_le

theorem Linked.txData_eq_nil (h : Linked dev s) (hnone : s.buffer.txBuffer = none) :
    s.buffer.txData = [] := by
  by_contra hne
  have hsome := h.tx_isSome.mpr hne
  rw [hnone] at hsome
  cases hsome

theorem Linked.rxNumBytes_eq_zero (h : Linked dev s) (hnone : s.buffer.rxBuffer = none) :
    s.buffer.rxNumBytes = 0 := by
  by_contra hne
  have hsome := h.rx_isSome.mpr (Nat.pos_of_ne_zero hne)
  rw [hnone] at hsome
  cases hsome

theorem flushTx_link (h : Linked dev s) :
    ftBufferFlushTx (link dev) s.entered = .ok (true, s.written dev) := by
  cases hb : s.buffer.txBuffer with
  | none =>
      have hnil := h.txData_eq_nil hb
      have hsame : s.written dev = s.entered := by
        have hunread := h.unread
        obtain ⟨⟨_, _, _, _, _, ⟨_, _, _, _, _, _, _, _⟩⟩, _, _, _, ⟨_, _⟩, _, _, _⟩ := s
        dsimp only [Sys.buffer] at hb hnil hunread
        subst hb hnil hunread
        simp [Sys.written, Sys.entered, Sys.txCleared, Sys.setBuffer, Sys.settledEngine,
          Sys.pendingReplies]
      rw [hsame]
      exact flushTx_none hb
  | some p =>
      have hsome : s.entered.buffer.txBuffer.isSome = true := by
        change s.buffer.txBuffer.isSome = true
        rw [hb]
        rfl
      rw [flushTx_some hsome]
      have hfull : (D2xxCall.write s.entered.buffer.txData
          (s.entered.writeReply (link dev))).inFull = true := by
        simp [D2xxCall.inFull, Sys.writeReply, link]
      have hsame : (s.entered.afterWrite (link dev)).txCleared = s.written dev := by
        have hunread := h.unread
        obtain ⟨⟨_, _, _, _, _, ⟨_, _, _, _, _, _, _, _⟩⟩, _, _, _, ⟨_, _⟩, _, _, _⟩ := s
        dsimp only [Sys.buffer] at hb hunread
        subst hb hunread
        rfl
      rw [if_pos hfull, hsame]

theorem flushRx_link (h : Linked dev s) :
    ∃ t, ftBufferFlushRx (link dev) (s.written dev) = .ok (true, t) ∧
      t.reclaimed = s.flushed dev := by
  cases hb : s.buffer.rxBuffer with
  | none =>
      have hzero := h.rxNumBytes_eq_zero hb
      have hobs := h.observers_nil hzero
      have hreplies : s.pendingReplies dev = [] := by
        rw [← List.length_eq_zero_iff, h.replies, hzero]
      refine ⟨s.written dev, flushRx_none hb, ?_⟩
      rw [Sys.flushed, Sys.settledMem, hobs, hb]
      rw [Sys.written, hreplies]
      obtain ⟨⟨_, _, _, _, _, ⟨_, _, _, _, _, _, _, _⟩⟩, _, _, _, ⟨_, _⟩, _, _, _⟩ := s
      dsimp only [Sys.buffer] at hb hzero hobs
      subst hb hzero hobs
      simp [Sys.entered, Sys.txCleared, Sys.setBuffer, Sys.rxCleared, Sys.reclaimed]
  | some p =>
      have hsome : (s.written dev).buffer.rxBuffer.isSome = true := by
        change s.buffer.rxBuffer.isSome = true
        rw [hb]
        rfl
      have hread : (link dev).ftRead s.buffer.rxNumBytes (s.written dev).usb =
          (⟨true, s.pendingReplies dev⟩, ⟨s.settledEngine dev, []⟩) := by
        rw [← h.replies]
        simp [link, Sys.written]
      have hreply : (s.written dev).readReply (link dev) = ⟨true, s.pendingReplies dev⟩ :=
        congrArg Prod.fst hread
      have hfull : (D2xxCall.read (s.written dev).buffer.rxNumBytes
          ((s.written dev).readReply (link dev))).inFull = true := by
        rw [D2xxCall.inFull, hreply, h.replies]
        exact beq_self_eq_true _
      have hafter : (s.written dev).afterRead (link dev) =
          { s.written dev with
            usb := ⟨s.settledEngine dev, []⟩
            calls := (s.written dev).calls ++
              [.read s.buffer.rxNumBytes ⟨true, s.pendingReplies dev⟩] } := by
        rw [Sys.afterRead, hreply]
        exact congrArg (fun u => { s.written dev with
          usb := u
          calls := (s.written dev).calls ++
            [D2xxCall.read s.buffer.rxNumBytes ⟨true, s.pendingReplies dev⟩] })
          (congrArg Prod.snd hread)
      refine ⟨(((s.written dev).afterRead (link dev)).rxObserved (s.pendingReplies dev)).rxCleared,
        ?_, ?_⟩
      · rw [flushRx_some _ hsome, if_pos hfull, hreply]
      · rw [hafter, Sys.flushed, hb]
        rfl

theorem ftBufferFlush_eq (h : Linked dev s) :
    ftBufferFlush (link dev) s = .ok (true, s.flushed dev) := by
  obtain ⟨t, hrx, ht⟩ := flushRx_link h
  rw [flush_of_tx_ok (flushTx_link h) hrx, if_pos rfl, ht]

theorem Linked.flushed (h : Linked dev s) : Linked dev (s.flushed dev) where
  unread := rfl
  tx_isSome := by simp [Sys.flushed, Sys.reclaimed, Sys.rxCleared, Sys.written, Sys.txCleared,
    Sys.entered, Sys.setBuffer]
  rx_isSome := by simp [Sys.flushed, Sys.reclaimed, Sys.rxCleared, Sys.setBuffer]
  replies := rfl
  tx_le := Nat.zero_le _
  rx_le := Nat.zero_le _
  maxTx := h.maxTx
  maxRx := h.maxRx
  observers_nil := fun _ => rfl
  observers := fun _ ho => nomatch ho
  extras := fun _ ho => nomatch ho
  fatal := h.fatal
  heads := ⟨h.heads.1, h.cmdStart⟩
  driverStart := h.driverStart
  cmdStart := h.cmdStart
  device := h.device
  flushes := by
    intro f hf
    rcases List.mem_append.mp hf with hf | hf
    · exact h.flushes f hf
    · rw [List.mem_singleton.mp hf]
      exact h.flushSafe
  calls := by
    intro c hc
    simp only [Sys.flushed, Sys.written, List.mem_append] at hc
    rcases hc with (hc | hc) | hc
    · exact h.calls c hc
    · split at hc
      · rw [List.mem_singleton.mp hc]
        simp [D2xxCall.inFull]
      · cases hc
    · split at hc
      · rw [List.mem_singleton.mp hc]
        simp [D2xxCall.inFull, h.replies]
      · cases hc

end Flush

/-! ## Queueing a request -/

section Queue

variable {dev : Device} {s : Sys Usb}

namespace Sys

variable (dev) (s)

/-- The state after `ft_buffer_ensure_can_append`. -/
def ensured (m n : ℕ) : Sys Usb :=
  if s.buffer.txData.length + m > s.buffer.maxTxBufferBytes
      ∨ s.buffer.rxNumBytes + n > s.buffer.maxRxBufferBytes then s.flushed dev
  else s

end Sys

theorem ensured_eq (h : Linked dev s) {m n : ℕ} (hm : m ≤ s.gFtdi.chipBufferBytes)
    (hn : n ≤ s.gFtdi.chipBufferBytes) :
    ftBufferEnsureCanAppend (link dev) m n s = .ok (true, s.ensured dev m n) := by
  have hassert : (decide (m ≤ s.buffer.maxRxBufferBytes) &&
      decide (n ≤ s.buffer.maxRxBufferBytes)) = true := by
    rw [h.maxRx]
    simp [hm, hn]
  unfold ftBufferEnsureCanAppend cmdBuffer
  rw [bind_assoc, Exec.get_bind, pure_bind, hassert, alwaysAssert_true, pure_bind]
  unfold Sys.ensured
  by_cases hfull : s.buffer.txData.length + m > s.buffer.maxTxBufferBytes
      ∨ s.buffer.rxNumBytes + n > s.buffer.maxRxBufferBytes
  · rw [if_pos hfull, if_pos (by simpa using hfull), ftBufferFlush_eq h]
  · rw [if_neg hfull, if_neg (by simpa using hfull)]
    rfl

theorem Linked.ensured (h : Linked dev s) (m n : ℕ) : Linked dev (s.ensured dev m n) := by
  unfold Sys.ensured
  split
  · exact h.flushed
  · exact h

/-- After `ft_buffer_ensure_can_append` there is room. -/
theorem Linked.ensured_room (h : Linked dev s) {m n : ℕ} (hm : m ≤ s.gFtdi.chipBufferBytes)
    (hn : n ≤ s.gFtdi.chipBufferBytes) :
    (s.ensured dev m n).buffer.txData.length + m ≤ (s.ensured dev m n).buffer.maxTxBufferBytes ∧
    (s.ensured dev m n).buffer.rxNumBytes + n ≤ (s.ensured dev m n).buffer.maxRxBufferBytes := by
  unfold Sys.ensured
  split
  · have hmax := h.flushed.maxTx
    have hmax' := h.flushed.maxRx
    have hchip : (s.flushed dev).gFtdi.chipBufferBytes = s.gFtdi.chipBufferBytes := rfl
    rw [hmax, hmax', hchip]
    refine ⟨?_, ?_⟩
    · change 0 + m ≤ _
      omega
    · change 0 + n ≤ _
      omega
  · omega

variable (dev) in
/-- A flush leaves the settled view as it is. -/
theorem settled_ensured (m n : ℕ) :
    (s.ensured dev m n).settledEngine dev = s.settledEngine dev ∧
      (s.ensured dev m n).settledMem dev = s.settledMem dev := by
  unfold Sys.ensured
  split
  · exact ⟨rfl, rfl⟩
  · exact ⟨rfl, rfl⟩

theorem settledMem_congr {t : Sys Usb} (hobs : t.buffer.rxObservers = s.buffer.rxObservers)
    (hcopy : ∀ o ∈ s.buffer.rxObservers, o.copy t = o.copy s)
    (hreplies : t.pendingReplies dev = s.pendingReplies dev) (hmem : t.mem = s.mem) :
    t.settledMem dev = s.settledMem dev := by
  unfold Sys.settledMem
  rw [hobs, hreplies, hmem]
  apply List.foldl_ext
  intro m o ho
  rw [RxObserverNode.run, RxObserverNode.run, hcopy o ho]

/-- What an observer needs to be added with `n` replies. -/
def ObserverFits (s : Sys Usb) (n : ℕ) (observer : Option (RxObserverFn × ℕ)) : Prop :=
  ∀ fn extra, observer = some (fn, extra) →
    (RxObserverNode.copy s ⟨0, fn, 0, extra⟩).span ≤ n ∧
      RxObserverNode.extraBelow s ⟨0, fn, 0, extra⟩

/-- The memory after the observer of an append has seen the replies `rx`. -/
def observe (s : Sys Usb) (observer : Option (RxObserverFn × ℕ)) (n : ℕ) (rx : List UInt8)
    (m : Mem) : Mem :=
  if n > 0 then
    match observer with
    | none => m
    | some (fn, extra) => (RxObserverNode.copy s ⟨0, fn, 0, extra⟩).run (Octets.ofList rx) m
  else m

theorem pendingReplies_appended (txData : List UInt8)
    (observer : Option (RxObserverFn × ℕ)) (n : ℕ) :
    (s.appended txData observer n).pendingReplies dev =
      s.pendingReplies dev ++ (s.settledEngine dev).replies dev txData := by
  unfold Sys.pendingReplies
  rw [txData_appended, Engine.replies_append]
  rfl

theorem settledEngine_appended (txData : List UInt8) (observer : Option (RxObserverFn × ℕ))
    (n : ℕ) :
    (s.appended txData observer n).settledEngine dev = (s.settledEngine dev).feed dev txData := by
  unfold Sys.settledEngine
  rw [txData_appended, Engine.feed_append]
  rfl

/-- Replies that come later do not change what an observer sees. -/
theorem run_append {o : RxObserverNode} {rx : List UInt8}
    (ho : o.data + (o.copy s).span ≤ rx.length)
    (rx' : List UInt8) (m : Mem) :
    RxObserverNode.run s (rx ++ rx') m o = RxObserverNode.run s rx m o := by
  refine RxCopy.run_congr (fun j hj => ?_) m
  have hlt : o.data + j < rx.length := by omega
  simp [Octets.ofList, List.getD_eq_getElem?_getD, List.getElem?_append_left hlt]

/-- Queueing data is the same as sending it at once. -/
theorem Linked.settledMem_appended (h : Linked dev s) (txData : List UInt8)
    (observer : Option (RxObserverFn × ℕ)) (n : ℕ) :
    (s.appended txData observer n).settledMem dev =
      observe s observer n ((s.settledEngine dev).replies dev txData) (s.settledMem dev) := by
  unfold Sys.settledMem
  rw [observers_appended, pendingReplies_appended, List.foldl_append]
  have hold : s.buffer.rxObservers.foldl
      (RxObserverNode.run (s.appended txData observer n)
        (s.pendingReplies dev ++ (s.settledEngine dev).replies dev txData))
      (s.appended txData observer n).mem = s.settledMem dev := by
    unfold Sys.settledMem
    apply List.foldl_ext
    intro m o ho
    have hspan := h.observers o ho
    rw [← h.replies] at hspan
    exact run_append hspan _ m
  rw [hold]
  unfold FtBuffer.newObservers observe
  split
  · cases observer with
    | none => rfl
    | some p =>
        have hdata : (s.pendingReplies dev ++ (s.settledEngine dev).replies dev txData).drop
            (s.buffer.appendTx txData).rxNumBytes = (s.settledEngine dev).replies dev txData := by
          rw [(FtBuffer.rx_appendTx _ _).1, ← h.replies, List.drop_left]
        simp only [Option.map_some, Option.toList_some, List.foldl_cons, List.foldl_nil,
          RxObserverNode.run, hdata]
        rfl
  · rfl

theorem Linked.appended (h : Linked dev s) {txData : List UInt8}
    {observer : Option (RxObserverFn × ℕ)} {n : ℕ}
    (htx : s.buffer.txData.length + txData.length ≤ s.buffer.maxTxBufferBytes)
    (hrx : s.buffer.rxNumBytes + n ≤ s.buffer.maxRxBufferBytes)
    (hreplies : ((s.settledEngine dev).replies dev txData).length = n)
    (hobs : ObserverFits s n observer)
    (hfits : (s.appended txData observer n).buffer.pool.head ≤ s.buffer.pool.limit) :
    Linked dev (s.appended txData observer n) := by
  have hframe := frame_appended (s := s) txData observer n
  simp only [FtBuffer.frame, Prod.mk.injEq] at hframe
  obtain ⟨hstart, hlimit, hfatal, hmaxTx, hmaxRx⟩ := hframe
  have hhead := head_le_appended (s := s) txData observer n
  exact
    { unread := h.unread
      tx_isSome := txBuffer_appended txData observer n h.tx_isSome
      rx_isSome := rxBuffer_appended txData observer n h.rx_isSome
      replies := by
        rw [pendingReplies_appended, List.length_append, h.replies, hreplies, rxNumBytes_appended]
      tx_le := by
        rw [txData_appended, List.length_append, hmaxTx]
        exact htx
      rx_le := by
        rw [rxNumBytes_appended, hmaxRx]
        exact hrx
      maxTx := hmaxTx.trans h.maxTx
      maxRx := hmaxRx.trans h.maxRx
      observers_nil := observers_nil_appended txData observer n h.observers_nil
      observers := by
        intro o ho
        rw [rxNumBytes_appended]
        rcases mem_observers_appended ho with ho | ⟨hsome, hdata⟩
        · exact (h.observers o ho).trans (Nat.le_add_right _ _)
        · rw [hdata]
          exact Nat.add_le_add_left (hobs o.fn o.extra hsome).1 _
      extras := by
        intro o ho
        have hbelow : o.extraBelow s := by
          rcases mem_observers_appended ho with ho | ⟨hsome, -⟩
          · exact h.extras o ho
          · exact (hobs o.fn o.extra hsome).2
        unfold RxObserverNode.extraBelow at hbelow ⊢
        split
        · rename_i hfn
          rw [hfn] at hbelow
          exact hbelow
        · rename_i hfn
          rw [hfn] at hbelow
          exact hbelow.trans_le hhead
      fatal := ⟨h.fatal.1, hfatal.trans h.fatal.2⟩
      heads := ⟨h.heads.1, hfits.trans_eq hlimit.symm⟩
      driverStart := h.driverStart
      cmdStart := by
        rw [hstart, hlimit]
        exact h.cmdStart
      device := h.device
      flushes := h.flushes
      calls := h.calls }

/-! Allocating an extra record changes no record that a queued observer uses. -/

theorem copy_withBitExtra (e : BitCopierRxObserverExtra) {o : RxObserverNode}
    (ho : o.extraBelow s) : o.copy (s.withBitExtra e) = o.copy s := by
  unfold RxObserverNode.copy
  unfold RxObserverNode.extraBelow at ho
  split
  · rename_i hfn
    rw [hfn] at ho
    have hne : o.extra ≠ s.gFtdi.pool.adjustedHead alignofRecord :=
      (ho.trans_le (TxvcMempool.head_le_adjustedHead _ _)).ne
    exact congrArg RxCopy.bits (Function.update_of_ne hne _ _)
  · rfl

theorem Linked.withBitExtra (h : Linked dev s) (e : BitCopierRxObserverExtra)
    (hfits : (s.withBitExtra e).gFtdi.pool.head ≤ s.gFtdi.pool.limit) :
    Linked dev (s.withBitExtra e) ∧
      (s.withBitExtra e).settledMem dev = s.settledMem dev := by
  have hcopy : ∀ o ∈ s.buffer.rxObservers, o.copy (s.withBitExtra e) = o.copy s :=
    fun o ho => copy_withBitExtra e (h.extras o ho)
  refine ⟨{ h with observers := ?_, extras := ?_, heads := ⟨hfits, h.heads.2⟩ },
    settledMem_congr rfl hcopy rfl rfl⟩
  · intro o ho
    rw [hcopy o ho]
    exact h.observers o ho
  · intro o ho
    have hbelow := h.extras o ho
    unfold RxObserverNode.extraBelow at hbelow ⊢
    split
    · rename_i hfn
      rw [hfn] at hbelow
      exact hbelow.trans_le ((TxvcMempool.head_le_adjustedHead _ _).trans (Nat.le_add_right _ _))
    · rename_i hfn
      rw [hfn] at hbelow
      exact hbelow

theorem Linked.withByteExtra (h : Linked dev s) (e : ByteCopierRxObserverExtra)
    (hfits : (s.withByteExtra e).buffer.pool.head ≤ s.buffer.pool.limit) :
    Linked dev (s.withByteExtra e) ∧
      (s.withByteExtra e).settledMem dev = s.settledMem dev := by
  have hcopy : ∀ o ∈ s.buffer.rxObservers, o.copy (s.withByteExtra e) = o.copy s :=
    fun o ho => copy_withByteExtra e fun hfn => by
      have hbelow := h.extras o ho
      rw [RxObserverNode.extraBelow, hfn] at hbelow
      exact (hbelow.trans_le (TxvcMempool.head_le_adjustedHead _ _)).ne
  refine ⟨{ h with observers := ?_, extras := ?_, heads := ⟨h.heads.1, hfits⟩ },
    settledMem_congr rfl hcopy rfl rfl⟩
  · intro o ho
    rw [hcopy o ho]
    exact h.observers o ho
  · intro o ho
    have hbelow := h.extras o ho
    unfold RxObserverNode.extraBelow at hbelow ⊢
    split
    · rename_i hfn
      rw [hfn] at hbelow
      exact hbelow
    · rename_i hfn
      rw [hfn] at hbelow
      exact hbelow.trans_le ((TxvcMempool.head_le_adjustedHead _ _).trans (Nat.le_add_right _ _))

/-- The state after a request. -/
def Sys.enqueued (dev : Device) (s : Sys Usb) : Request → Sys Usb
  | .write cmd => (s.ensured dev cmd.length 0).appended cmd none 0
  | .readBits cmd e =>
      ((s.withBitExtra e).ensured dev cmd.length 1).appended cmd
        (some (.bitCopier, s.gFtdi.pool.adjustedHead alignofRecord)) 1
  | .readBytes txData rxData n =>
      ((s.ensured dev txData.length n).withByteExtra ⟨rxData, n⟩).appended txData
        (some (.byteCopier,
          (s.ensured dev txData.length n).buffer.pool.adjustedHead alignofRecord)) n

namespace Request

/-- What a request does on an engine and a memory if it is executed at once. -/
def observe (rx : List UInt8) (m : Mem) : Request → Mem
  | write _ => m
  | readBits _ e => bitCopierRxObserverFn (Octets.ofList rx) e m
  | readBytes _ rxData n => byteCopierRxObserverFn (Octets.ofList rx) ⟨rxData, n⟩ m

def exec (dev : Device) (p : Engine × Mem) (q : Request) : Engine × Mem :=
  (p.1.feed dev q.txData, q.observe (p.1.replies dev q.txData) p.2)

/-- The request fits the buffers, and its observer reads no more than its replies. -/
def Fits (chipBufferBytes : ℕ) (q : Request) : Prop :=
  q.txData.length ≤ chipBufferBytes ∧ q.rxNumBytes ≤ chipBufferBytes ∧
  match q with
  | write _ => True
  | readBits _ e => e.fromBit + e.numBits ≤ 8
  | readBytes _ _ n => 0 < n

end Request

def Sys.settled (dev : Device) (s : Sys Usb) : Engine × Mem :=
  (s.settledEngine dev, s.settledMem dev)

/-- An abort in a state that is on its way to `t`: a pool is too small for it. -/
def PoolOom (dev : Device) (s t : Sys Usb) (e : Abort) (s' : Sys Usb) : Prop :=
  (∀ f ∈ s'.flushes, FlushSafe dev s.gFtdi.chipBufferBytes f) ∧
  (e = .oom (s.gFtdi.pool.limit - s.gFtdi.pool.start) ∧
      s.gFtdi.pool.limit < t.gFtdi.pool.head ∨
    e = .oom (s.buffer.pool.limit - s.buffer.pool.start) ∧
      s.buffer.pool.limit < t.buffer.pool.head)

variable (dev) in
theorem frame_ensured (m n : ℕ) : (s.ensured dev m n).buffer.frame = s.buffer.frame := by
  unfold Sys.ensured
  split <;> rfl

variable (dev) in
theorem driver_ensured (m n : ℕ) :
    (s.ensured dev m n).gFtdi.pool = s.gFtdi.pool ∧
      (s.ensured dev m n).gFtdi.chipBufferBytes = s.gFtdi.chipBufferBytes ∧
      (s.ensured dev m n).bitExtras = s.bitExtras := by
  unfold Sys.ensured
  split <;> exact ⟨rfl, rfl, rfl⟩

theorem append_spec (h : Linked dev s) {txData : List UInt8}
    {observer : Option (RxObserverFn × ℕ)} {n : ℕ}
    (htx : s.buffer.txData.length + txData.length ≤ s.buffer.maxTxBufferBytes)
    (hrx : s.buffer.rxNumBytes + n ≤ s.buffer.maxRxBufferBytes)
    (hreplies : ((s.settledEngine dev).replies dev txData).length = n)
    (hobs : ObserverFits s n observer) :
    Exec.wp (ftBufferAppend txData observer n)
      (fun ok s' => ok = true ∧ s' = s.appended txData observer n ∧ Linked dev s' ∧
        s'.settled dev = ((s.settledEngine dev).feed dev txData,
          observe s observer n ((s.settledEngine dev).replies dev txData) (s.settledMem dev)))
      (PoolOom dev s (s.appended txData observer n)) s := by
  have hmaxTx : 0 < s.buffer.maxTxBufferBytes := by
    have := h.chip_bounds
    rw [h.maxTx]
    omega
  have hmaxRx : 0 < s.buffer.maxRxBufferBytes := by
    have := h.chip_bounds
    rw [h.maxRx]
    omega
  refine Exec.wp_mono (ftBufferAppend_spec h.fatal.2 h.heads.2 (fun _ => hmaxTx) observer
    (fun _ => hmaxRx)) ?_ ?_
  · rintro ok s' ⟨rfl, hfits, rfl⟩
    refine ⟨rfl, rfl, h.appended htx hrx hreplies hobs hfits, ?_⟩
    rw [Sys.settled, settledEngine_appended, h.settledMem_appended]
  · rintro e s' ⟨rfl, hlt, hflushes⟩
    refine ⟨?_, Or.inr ⟨rfl, hlt⟩⟩
    rw [hflushes]
    exact h.flushes

theorem addWrite_spec (h : Linked dev s) {txData : List UInt8}
    {observer : Option (RxObserverFn × ℕ)} {n : ℕ} (htx : txData.length ≤ s.gFtdi.chipBufferBytes)
    (hrx : n ≤ s.gFtdi.chipBufferBytes)
    (hreplies : ((s.settledEngine dev).replies dev txData).length = n)
    (hobs : ObserverFits (s.ensured dev txData.length n) n observer) :
    Exec.wp (ftBufferAddWriteToChipWithReadback (link dev) txData observer n)
      (fun ok s' => ok = true ∧ s' = (s.ensured dev txData.length n).appended txData observer n ∧
        Linked dev s' ∧
        s'.settled dev = ((s.settledEngine dev).feed dev txData,
          observe (s.ensured dev txData.length n) observer n
            ((s.settledEngine dev).replies dev txData) (s.settledMem dev)))
      (PoolOom dev s ((s.ensured dev txData.length n).appended txData observer n)) s := by
  obtain ⟨hroomTx, hroomRx⟩ := h.ensured_room htx hrx
  obtain ⟨hengine, hmem⟩ := settled_ensured dev (s := s) txData.length n
  have hframe := frame_ensured dev (s := s) txData.length n
  simp only [FtBuffer.frame, Prod.mk.injEq] at hframe
  obtain ⟨hstart, hlimit, -, -, -⟩ := hframe
  obtain ⟨hpool, hchip, -⟩ := driver_ensured dev (s := s) txData.length n
  have hspec := append_spec (h.ensured txData.length n) hroomTx hroomRx
    (by rw [hengine]; exact hreplies) hobs
  rw [hengine, hmem] at hspec
  unfold ftBufferAddWriteToChipWithReadback andM
  rw [Exec.wp_bind_ok (ensured_eq h htx hrx)]
  refine Exec.wp_mono hspec (fun _ _ hq => hq) ?_
  rintro e s' ⟨hflushes, hoom⟩
  rw [hchip] at hflushes
  rw [hpool, hstart, hlimit] at hoom
  exact ⟨hflushes, hoom⟩

/-- Queueing a request executes it in the settled view, unless a pool is too
small. -/
theorem queue_spec (h : Linked dev s) {q : Request} (hfits : q.Fits s.gFtdi.chipBufferBytes)
    (hreplies : ((s.settledEngine dev).replies dev q.txData).length = q.rxNumBytes) :
    Exec.wp (q.queue (link dev))
      (fun ok s' => ok = true ∧ s' = s.enqueued dev q ∧ Linked dev s' ∧
        s'.settled dev = q.exec dev (s.settled dev))
      (PoolOom dev s (s.enqueued dev q)) s := by
  cases q with
  | write cmd => exact addWrite_spec h hfits.1 hfits.2.1 hreplies (fun _ _ hnone => nomatch hnone)
  | readBits cmd e =>
      obtain ⟨hpool, hchip, hextras⟩ :=
        driver_ensured dev (s := s.withBitExtra e) cmd.length 1
      have hhead : (s.enqueued dev (.readBits cmd e)).gFtdi.pool.head =
          s.gFtdi.pool.adjustedHead alignofRecord + sizeofBitCopierExtra :=
        congrArg TxvcMempool.head hpool
      rw [Request.queue, addBitRead, Exec.wp_bind, wp_driverAligned h.fatal.1 (by decide)]
      split
      · -- the record fits: the rest is a write from a state with one more record
        rename_i hrecord
        obtain ⟨hlinked, hmem⟩ := h.withBitExtra e hrecord
        have hcopy : RxObserverNode.copy ((s.withBitExtra e).ensured dev cmd.length 1)
            ⟨0, .bitCopier, 0, s.gFtdi.pool.adjustedHead alignofRecord⟩ = .bits e := by
          unfold RxObserverNode.copy
          rw [hextras]
          exact congrArg RxCopy.bits (Function.update_self _ _ _)
        have hobs : ObserverFits ((s.withBitExtra e).ensured dev cmd.length 1) 1
            (some (.bitCopier, s.gFtdi.pool.adjustedHead alignofRecord)) := by
          rintro fn extra ⟨rfl, rfl⟩
          refine ⟨?_, ?_⟩
          · rw [hcopy, RxCopy.span]
            have hbits := hfits.2.2
            dsimp only at hbits
            omega
          · unfold RxObserverNode.extraBelow
            rw [hpool]
            exact Nat.lt_add_of_pos_right (by decide)
        refine Exec.wp_mono (addWrite_spec hlinked hfits.1 hfits.2.1 hreplies hobs) ?_ ?_
        · rintro ok s' ⟨rfl, rfl, hlinked', hsettled⟩
          refine ⟨rfl, rfl, hlinked', hsettled.trans ?_⟩
          rw [observe, if_pos (by decide), hcopy, hmem]
          rfl
        · rintro e' s' ⟨hflushes, hoom⟩
          exact ⟨hflushes, hoom⟩
      · refine ⟨h.flushes, Or.inl ⟨rfl, ?_⟩⟩
        rw [hhead]
        exact Nat.lt_of_not_le ‹_›
  | readBytes txData rxData n =>
      obtain ⟨htx, hrx, hn⟩ : txData.length ≤ s.gFtdi.chipBufferBytes ∧
        n ≤ s.gFtdi.chipBufferBytes ∧ 0 < n := hfits
      obtain ⟨hpool, hchip, -⟩ := driver_ensured dev (s := s) txData.length n
      obtain ⟨hroomTx, hroomRx⟩ := h.ensured_room htx hrx
      obtain ⟨hengine, hmem⟩ := settled_ensured dev (s := s) txData.length n
      have hframe := frame_ensured dev (s := s) txData.length n
      simp only [FtBuffer.frame, Prod.mk.injEq] at hframe
      obtain ⟨hstart, hlimit, -, -, -⟩ := hframe
      have hensured := h.ensured txData.length n
      rw [Request.queue, ftBufferAddWriteToChipWithReadbackSimple,
        Exec.wp_bind_ok (ensured_eq h htx hrx), if_pos rfl, Exec.wp_bind,
        wp_cmdAligned hensured.fatal.2 (by decide)]
      rw [Sys.enqueued]
      generalize s.ensured dev txData.length n = t at *
      split
      · -- the record fits: the rest is an append to a buffer with one more record
        rename_i hrecord
        obtain ⟨hlinked, hmem'⟩ := hensured.withByteExtra ⟨rxData, n⟩ hrecord
        have hcopy : RxObserverNode.copy (t.withByteExtra ⟨rxData, n⟩)
            ⟨0, .byteCopier, 0, t.buffer.pool.adjustedHead alignofRecord⟩ = .bytes ⟨rxData, n⟩ :=
          congrArg RxCopy.bytes (Function.update_self _ _ _)
        have hobs : ObserverFits (t.withByteExtra ⟨rxData, n⟩) n
            (some (.byteCopier, t.buffer.pool.adjustedHead alignofRecord)) := by
          rintro fn extra ⟨rfl, rfl⟩
          refine ⟨?_, ?_⟩
          · rw [hcopy]
            exact le_rfl
          · exact Nat.lt_add_of_pos_right (by decide)
        have hreplies' : ((t.settledEngine dev).replies dev txData).length = n := by
          rw [hengine]
          exact hreplies
        refine Exec.wp_mono (append_spec hlinked hroomTx hroomRx hreplies' hobs) ?_ ?_
        · rintro ok s' ⟨rfl, rfl, hlinked', hsettled⟩
          refine ⟨rfl, rfl, hlinked', hsettled.trans ?_⟩
          have hexec : ((t.settledEngine dev).feed dev txData,
              (RxCopy.bytes ⟨rxData, n⟩).run
                (Octets.ofList ((t.settledEngine dev).replies dev txData)) (t.settledMem dev)) =
              Request.exec dev (s.settled dev) (.readBytes txData rxData n) := by
            rw [hengine, hmem]
            rfl
          rw [observe, if_pos hn, hcopy, hmem']
          exact hexec
        · rintro e' s' ⟨hflushes, hoom⟩
          refine ⟨?_, ?_⟩
          · rw [← hchip]
            exact hflushes
          · rw [← hpool, ← hstart, ← hlimit]
            exact hoom
      · refine ⟨?_, Or.inr ⟨?_, ?_⟩⟩
        · rw [← hchip]
          exact hensured.flushes
        · rw [hstart, hlimit]
        · rw [← hlimit]
          have hgrow : (t.withByteExtra ⟨rxData, n⟩).buffer.pool.head ≤
              ((t.withByteExtra ⟨rxData, n⟩).appended txData
                (some (.byteCopier,
                  t.buffer.pool.adjustedHead alignofRecord)) n).buffer.pool.head :=
            (FtBuffer.head_le_appendTx _ txData).trans (FtBuffer.head_le_appendRx _ _ n)
          exact (Nat.lt_of_not_le ‹_›).trans_le hgrow

end Queue

end TinyXvc
