import TinyXvc.FtdiGeneric.Flush

/-!
# What an append does

`ft_buffer_append` cuts its blocks off the pool of the command buffer.  The
pool's head only grows, so an append gets all its blocks exactly when the last
one fits.
-/

namespace TinyXvc

/-- How many octets of its data a copy reads. -/
def RxCopy.span : RxCopy → ℕ
  | bits e => (e.fromBit + e.numBits + 7) / 8
  | bytes e => e.numBytes

theorem RxCopy.run_congr {c : RxCopy} {rx rx' : Octets} (h : ∀ j < c.span, rx j = rx' j) (m : Mem) :
    c.run rx m = c.run rx' m := by
  cases c with
  | bits e =>
      have hbits : copyBits rx e.fromBit (m.view e.dst) e.toBit e.numBits false =
          copyBits rx' e.fromBit (m.view e.dst) e.toBit e.numBits false := by
        refine Octets.ext_bit fun k => ?_
        rw [bit_copyBits, bit_copyBits]
        split
        · rename_i hk
          have hspan : (e.fromBit + (k - e.toBit)) / 8 < (RxCopy.bits e).span := by
            simp only [RxCopy.span]
            omega
          rw [Octets.bit, Octets.bit, h _ hspan]
        · rfl
      simp only [RxCopy.run, bitCopierRxObserverFn, hbits]
  | bytes e =>
      have hbytes : (fun i => if i < e.numBytes then rx i else m.view e.dst i) =
          fun i => if i < e.numBytes then rx' i else m.view e.dst i := by
        apply funext
        intro i
        split
        · exact h i ‹_›
        · rfl
      simp only [RxCopy.run, byteCopierRxObserverFn, hbytes]

namespace FtBuffer

def appendTx (b : FtBuffer) (txData : List UInt8) : FtBuffer :=
  if txData.length > 0 then
    if b.txBuffer.isNone then
      { b with
        pool := b.pool.cut b.pool.head b.maxTxBufferBytes
        txBuffer := some b.pool.head
        txData := b.txData ++ txData }
    else { b with txData := b.txData ++ txData }
  else b

def withRxBuffer (b : FtBuffer) : FtBuffer :=
  if b.rxBuffer.isNone then
    { b with pool := b.pool.cut b.pool.head b.maxRxBufferBytes, rxBuffer := some b.pool.head }
  else b

def addObserver (b : FtBuffer) : Option (RxObserverFn × ℕ) → FtBuffer
  | none => b
  | some (fn, extra) =>
      { b with
        pool := b.pool.cut (b.pool.adjustedHead alignofRecord) sizeofRxObserverNode
        rxObservers := b.rxObservers ++
          [⟨b.pool.adjustedHead alignofRecord, fn, b.rxNumBytes, extra⟩] }

def appendRx (b : FtBuffer) (observer : Option (RxObserverFn × ℕ)) (n : ℕ) : FtBuffer :=
  if n > 0 then
    let b' := b.withRxBuffer.addObserver observer
    { b' with rxNumBytes := b'.rxNumBytes + n }
  else b

/-- The part of a buffer that no append changes. -/
def frame (b : FtBuffer) : ℕ × ℕ × Bool × ℕ × ℕ :=
  (b.pool.start, b.pool.limit, b.pool.fatalOom, b.maxTxBufferBytes, b.maxRxBufferBytes)

variable (b : FtBuffer) (txData : List UInt8) (observer : Option (RxObserverFn × ℕ)) (n : ℕ)

theorem frame_appendTx : (b.appendTx txData).frame = b.frame := by
  unfold appendTx
  split
  · split <;> rfl
  · rfl

theorem frame_withRxBuffer : b.withRxBuffer.frame = b.frame := by
  unfold withRxBuffer
  split <;> rfl

theorem frame_addObserver : (b.addObserver observer).frame = b.frame := by
  cases observer <;> rfl

theorem frame_appendRx : (b.appendRx observer n).frame = b.frame := by
  unfold appendRx
  split
  · exact (frame_addObserver _ observer).trans b.frame_withRxBuffer
  · rfl

theorem head_le_appendTx : b.pool.head ≤ (b.appendTx txData).pool.head := by
  unfold appendTx
  split
  · split
    · exact Nat.le_add_right _ _
    · exact le_rfl
  · exact le_rfl

theorem head_le_withRxBuffer : b.pool.head ≤ b.withRxBuffer.pool.head := by
  unfold withRxBuffer
  split
  · exact Nat.le_add_right _ _
  · exact le_rfl

theorem head_le_addObserver : b.pool.head ≤ (b.addObserver observer).pool.head := by
  cases observer with
  | none => exact le_rfl
  | some o => exact (b.pool.head_le_adjustedHead _).trans (Nat.le_add_right _ _)

theorem head_le_appendRx : b.pool.head ≤ (b.appendRx observer n).pool.head := by
  unfold appendRx
  split
  · exact b.head_le_withRxBuffer.trans (head_le_addObserver _ observer)
  · exact le_rfl

/-- The observer that an append adds, behind the replies expected so far. -/
def newObservers : List RxObserverNode :=
  if n > 0 then
    (observer.map fun (fn, extra) =>
      ⟨b.withRxBuffer.pool.adjustedHead alignofRecord, fn, b.rxNumBytes, extra⟩).toList
  else []

@[simp] theorem txData_appendTx : (b.appendTx txData).txData = b.txData ++ txData := by
  unfold appendTx
  split
  · split <;> rfl
  · have hnil : txData = [] := List.length_eq_zero_iff.mp (by omega)
    rw [hnil, List.append_nil]

@[simp] theorem rx_appendTx : (b.appendTx txData).rxNumBytes = b.rxNumBytes ∧
    (b.appendTx txData).rxObservers = b.rxObservers ∧
    (b.appendTx txData).rxBuffer = b.rxBuffer := by
  unfold appendTx
  split
  · split <;> exact ⟨rfl, rfl, rfl⟩
  · exact ⟨rfl, rfl, rfl⟩

theorem txBuffer_appendTx :
    (b.appendTx txData).txBuffer.isSome = true ↔ b.txBuffer.isSome = true ∨ txData ≠ [] := by
  unfold appendTx
  split
  · have hne : txData ≠ [] := List.ne_nil_of_length_pos ‹_›
    split
    · simp [hne]
    · rename_i hsome
      simp [hne, Option.isNone_iff_eq_none, Option.isSome_iff_ne_none] at hsome ⊢
      exact hsome
  · have hnil : txData = [] := List.length_eq_zero_iff.mp (by omega)
    simp [hnil]

@[simp] theorem tx_appendRx : (b.appendRx observer n).txData = b.txData ∧
    (b.appendRx observer n).txBuffer = b.txBuffer := by
  unfold appendRx withRxBuffer
  split
  · cases observer <;> split <;> exact ⟨rfl, rfl⟩
  · exact ⟨rfl, rfl⟩

@[simp] theorem rxNumBytes_appendRx : (b.appendRx observer n).rxNumBytes = b.rxNumBytes + n := by
  unfold appendRx withRxBuffer
  split
  · cases observer <;> split <;> rfl
  · omega

@[simp] theorem rxObservers_appendRx :
    (b.appendRx observer n).rxObservers = b.rxObservers ++ b.newObservers observer n := by
  unfold appendRx newObservers withRxBuffer
  split
  · cases observer <;> split <;> simp [addObserver]
  · simp

theorem rxBuffer_appendRx :
    (b.appendRx observer n).rxBuffer.isSome = true ↔ b.rxBuffer.isSome = true ∨ 0 < n := by
  unfold appendRx withRxBuffer
  split
  · cases observer <;> split <;> simp_all [addObserver, Option.isSome_iff_ne_none]
  · simp_all

end FtBuffer

theorem mem_newObservers {b : FtBuffer} {observer : Option (RxObserverFn × ℕ)} {n : ℕ}
    {o : RxObserverNode} (ho : o ∈ b.newObservers observer n) :
    0 < n ∧ observer = some (o.fn, o.extra) ∧ o.data = b.rxNumBytes := by
  unfold FtBuffer.newObservers at ho
  split at ho
  · refine ⟨‹_›, ?_⟩
    cases observer with
    | none => cases ho
    | some p =>
        simp only [Option.map_some, Option.toList_some, List.mem_singleton] at ho
        subst ho
        exact ⟨rfl, rfl⟩
  · cases ho

section Specs

variable {τ : Type} {s : Sys τ}

/-- An abort of an append at the pool of the command buffer, which would have
needed `head`. -/
def CmdOom (s : Sys τ) (head : ℕ) (e : Abort) (s' : Sys τ) : Prop :=
  e = .oom (s.buffer.pool.limit - s.buffer.pool.start) ∧ s.buffer.pool.limit < head ∧
    s'.flushes = s.flushes

theorem wp_cmdUnaligned (hfatal : s.buffer.pool.fatalOom = true) {sz : ℕ} (hsz : 0 < sz)
    {Q : Option ℕ → Sys τ → Prop} {E : Abort → Sys τ → Prop} :
    Exec.wp (allocCmd fun pool => txvcMempoolAllocUnaligned pool sz) Q E s ↔
      if s.buffer.pool.head + sz ≤ s.buffer.pool.limit then
        Q (some s.buffer.pool.head)
          (s.setBuffer { s.buffer with pool := s.buffer.pool.cut s.buffer.pool.head sz })
      else E (.oom (s.buffer.pool.limit - s.buffer.pool.start)) s := by
  simp only [allocCmd, cmdBuffer, modifyCmdBuffer, Exec.wp_bind, Exec.wp_get, Exec.wp_pure,
    wp_allocUnaligned hfatal hsz, Exec.wp_modify]

theorem wp_cmdAligned (hfatal : s.buffer.pool.fatalOom = true) {sz : ℕ} (hsz : 0 < sz)
    {Q : Option ℕ → Sys τ → Prop} {E : Abort → Sys τ → Prop} :
    Exec.wp (allocCmd fun pool => txvcMempoolAllocAligned pool sz alignofRecord) Q E s ↔
      if s.buffer.pool.adjustedHead alignofRecord + sz ≤ s.buffer.pool.limit then
        Q (some (s.buffer.pool.adjustedHead alignofRecord))
          (s.setBuffer { s.buffer with
            pool := s.buffer.pool.cut (s.buffer.pool.adjustedHead alignofRecord) sz })
      else E (.oom (s.buffer.pool.limit - s.buffer.pool.start)) s := by
  simp only [allocCmd, cmdBuffer, modifyCmdBuffer, Exec.wp_bind, Exec.wp_get, Exec.wp_pure,
    wp_allocAligned hfatal hsz (by decide : 0 < alignofRecord) (by decide), Exec.wp_modify]

theorem wp_driverAligned (hfatal : s.gFtdi.pool.fatalOom = true) {sz : ℕ} (hsz : 0 < sz)
    {Q : Option ℕ → Sys τ → Prop} {E : Abort → Sys τ → Prop} :
    Exec.wp (allocDriver fun pool => txvcMempoolAllocAligned pool sz alignofRecord) Q E s ↔
      if s.gFtdi.pool.adjustedHead alignofRecord + sz ≤ s.gFtdi.pool.limit then
        Q (some (s.gFtdi.pool.adjustedHead alignofRecord))
          { s with gFtdi := { s.gFtdi with
            pool := s.gFtdi.pool.cut (s.gFtdi.pool.adjustedHead alignofRecord) sz } }
      else E (.oom (s.gFtdi.pool.limit - s.gFtdi.pool.start)) s := by
  simp only [allocDriver, Exec.wp_bind, Exec.wp_get, Exec.wp_pure,
    wp_allocAligned hfatal hsz (by decide : 0 < alignofRecord) (by decide), Exec.wp_modify]

theorem appendTx_spec (hfatal : s.buffer.pool.fatalOom = true)
    (hhead : s.buffer.pool.head ≤ s.buffer.pool.limit) {txData : List UInt8}
    (hmax : 0 < txData.length → 0 < s.buffer.maxTxBufferBytes) :
    Exec.wp (ftBufferAppendTx txData)
      (fun _ s' => (s.buffer.appendTx txData).pool.head ≤ s.buffer.pool.limit ∧
        s' = s.setBuffer (s.buffer.appendTx txData))
      (CmdOom s (s.buffer.appendTx txData).pool.head) s := by
  unfold ftBufferAppendTx FtBuffer.appendTx
  by_cases htx : txData.length > 0
  · rw [if_pos htx, if_pos htx]
    simp only [Exec.wp_bind, cmdBuffer, Exec.wp_get, Exec.wp_pure]
    by_cases hnone : s.buffer.txBuffer.isNone = true
    · rw [if_pos hnone, if_pos hnone, Exec.wp_bind, wp_cmdUnaligned hfatal (hmax htx)]
      split
      · exact ⟨‹_›, rfl⟩
      · exact ⟨rfl, Nat.lt_of_not_le ‹_›, rfl⟩
    · rw [if_neg hnone, if_neg hnone]
      exact ⟨hhead, rfl⟩
  · rw [if_neg htx, if_neg htx]
    exact ⟨hhead, rfl⟩

theorem addObserver_spec (hfatal : s.buffer.pool.fatalOom = true)
    (hhead : s.buffer.pool.head ≤ s.buffer.pool.limit) (observer : Option (RxObserverFn × ℕ)) :
    Exec.wp (ftBufferAddObserver observer)
      (fun _ s' => (s.buffer.addObserver observer).pool.head ≤ s.buffer.pool.limit ∧
        s' = s.setBuffer (s.buffer.addObserver observer))
      (CmdOom s (s.buffer.addObserver observer).pool.head) s := by
  cases observer with
  | none => exact ⟨hhead, rfl⟩
  | some o =>
      obtain ⟨fn, extra⟩ := o
      rw [ftBufferAddObserver, Exec.wp_bind, wp_cmdAligned hfatal (by decide)]
      split
      · exact ⟨‹_›, rfl⟩
      · exact ⟨rfl, Nat.lt_of_not_le ‹_›, rfl⟩

/-- The second half of `ft_buffer_append`, once there is an RX buffer. -/
theorem addReplies_spec (hfatal : s.buffer.pool.fatalOom = true)
    (hhead : s.buffer.pool.head ≤ s.buffer.pool.limit) (observer : Option (RxObserverFn × ℕ))
    (n : ℕ) :
    Exec.wp (do
        ftBufferAddObserver observer
        modifyCmdBuffer fun b => { b with rxNumBytes := b.rxNumBytes + n })
      (fun _ s' => (s.buffer.addObserver observer).pool.head ≤ s.buffer.pool.limit ∧
        s' = s.setBuffer { s.buffer.addObserver observer with
          rxNumBytes := (s.buffer.addObserver observer).rxNumBytes + n })
      (CmdOom s (s.buffer.addObserver observer).pool.head) s := by
  rw [Exec.wp_bind]
  refine Exec.wp_mono (addObserver_spec hfatal hhead observer) ?_ (fun _ _ he => he)
  rintro _ s' ⟨hfits, rfl⟩
  exact ⟨hfits, rfl⟩

theorem appendRx_spec (hfatal : s.buffer.pool.fatalOom = true)
    (hhead : s.buffer.pool.head ≤ s.buffer.pool.limit)
    (observer : Option (RxObserverFn × ℕ)) {n : ℕ}
    (hmax : 0 < n → 0 < s.buffer.maxRxBufferBytes) :
    Exec.wp (ftBufferAppendRx observer n)
      (fun _ s' => (s.buffer.appendRx observer n).pool.head ≤ s.buffer.pool.limit ∧
        s' = s.setBuffer (s.buffer.appendRx observer n))
      (CmdOom s (s.buffer.appendRx observer n).pool.head) s := by
  unfold ftBufferAppendRx FtBuffer.appendRx
  by_cases hn : n > 0
  · rw [if_pos hn, if_pos hn, Exec.wp_bind]
    simp only [cmdBuffer, Exec.wp_bind, Exec.wp_get, Exec.wp_pure]
    unfold FtBuffer.withRxBuffer
    by_cases hnone : s.buffer.rxBuffer.isNone = true
    · rw [if_pos hnone, if_pos hnone, Exec.wp_bind, wp_cmdUnaligned hfatal (hmax hn)]
      split
      · exact addReplies_spec
          (s := s.setBuffer { s.buffer with
            pool := s.buffer.pool.cut s.buffer.pool.head s.buffer.maxRxBufferBytes
            rxBuffer := some s.buffer.pool.head }) hfatal ‹_› observer n
      · refine ⟨rfl, ?_, rfl⟩
        exact (Nat.lt_of_not_le ‹_›).trans_le (FtBuffer.head_le_addObserver
          { s.buffer with
            pool := s.buffer.pool.cut s.buffer.pool.head s.buffer.maxRxBufferBytes
            rxBuffer := some s.buffer.pool.head } observer)
    · rw [if_neg hnone, if_neg hnone]
      exact addReplies_spec hfatal hhead observer n
  · rw [if_neg hn, if_neg hn]
    exact ⟨hhead, rfl⟩

/-- The state after an append. -/
def Sys.appended (s : Sys τ) (txData : List UInt8) (observer : Option (RxObserverFn × ℕ)) (n : ℕ) :
    Sys τ :=
  { s.setBuffer ((s.buffer.appendTx txData).appendRx observer n) with
    queued := s.queued ++ [⟨txData, n⟩] }

theorem ftBufferAppend_spec (hfatal : s.buffer.pool.fatalOom = true)
    (hhead : s.buffer.pool.head ≤ s.buffer.pool.limit) {txData : List UInt8}
    (htx : 0 < txData.length → 0 < s.buffer.maxTxBufferBytes)
    (observer : Option (RxObserverFn × ℕ)) {n : ℕ} (hrx : 0 < n → 0 < s.buffer.maxRxBufferBytes) :
    Exec.wp (ftBufferAppend txData observer n)
      (fun ok s' => ok = true ∧
        (s.appended txData observer n).buffer.pool.head ≤ s.buffer.pool.limit ∧
        s' = s.appended txData observer n)
      (CmdOom s (s.appended txData observer n).buffer.pool.head) s := by
  have hframe := s.buffer.frame_appendTx txData
  simp only [FtBuffer.frame, Prod.mk.injEq] at hframe
  obtain ⟨hstart, hlimit, hfatal', -, hmaxRx⟩ := hframe
  unfold ftBufferAppend
  simp only [Exec.wp_bind, Exec.wp_modify, Exec.wp_pure]
  refine Exec.wp_mono (appendTx_spec hfatal hhead htx) ?_ ?_
  · rintro _ t ⟨hfits, rfl⟩
    have hspec := appendRx_spec (s := s.setBuffer (s.buffer.appendTx txData))
      (hfatal'.trans hfatal) (hfits.trans_eq hlimit.symm) observer
      (fun hn => (hrx hn).trans_eq hmaxRx.symm)
    refine Exec.wp_mono hspec ?_ ?_
    · rintro _ t ⟨hfits', rfl⟩
      exact ⟨trivial, hfits'.trans_eq hlimit, rfl⟩
    · rintro e t ⟨rfl, hlt, hflushes⟩
      refine ⟨?_, hlimit ▸ hlt, hflushes⟩
      exact congrArg Abort.oom (congrArg₂ _ hlimit hstart)
  · rintro e t ⟨rfl, hlt, hflushes⟩
    exact ⟨rfl, hlt.trans_le (FtBuffer.head_le_appendRx _ observer n), hflushes⟩

theorem buffer_appended (txData : List UInt8) (observer : Option (RxObserverFn × ℕ)) (n : ℕ) :
    (s.appended txData observer n).buffer = (s.buffer.appendTx txData).appendRx observer n := rfl

theorem observers_appended (txData : List UInt8) (observer : Option (RxObserverFn × ℕ)) (n : ℕ) :
    (s.appended txData observer n).buffer.rxObservers =
      s.buffer.rxObservers ++ (s.buffer.appendTx txData).newObservers observer n := by
  rw [buffer_appended, FtBuffer.rxObservers_appendRx, (FtBuffer.rx_appendTx _ _).2.1]

theorem txData_appended (txData : List UInt8) (observer : Option (RxObserverFn × ℕ)) (n : ℕ) :
    (s.appended txData observer n).buffer.txData = s.buffer.txData ++ txData := by
  rw [buffer_appended, (FtBuffer.tx_appendRx _ _ _).1, FtBuffer.txData_appendTx]

theorem issued_appended (txData : List UInt8) (observer : Option (RxObserverFn × ℕ)) (n : ℕ) :
    (s.appended txData observer n).issued = s.issued ++ txData := by
  rw [Sys.issued, txData_appended, ← List.append_assoc]
  rfl

/-! What an append keeps: the buffers are there as soon as they are needed. -/

theorem txBuffer_appended (txData : List UInt8) (observer : Option (RxObserverFn × ℕ)) (n : ℕ)
    (h : s.buffer.txBuffer.isSome = true ↔ s.buffer.txData ≠ []) :
    (s.appended txData observer n).buffer.txBuffer.isSome = true ↔
      (s.appended txData observer n).buffer.txData ≠ [] := by
  rw [buffer_appended, (FtBuffer.tx_appendRx _ _ _).1, (FtBuffer.tx_appendRx _ _ _).2,
    FtBuffer.txBuffer_appendTx, h, FtBuffer.txData_appendTx]
  simp only [ne_eq, List.append_eq_nil_iff, not_and_or]

theorem rxNumBytes_appended (txData : List UInt8) (observer : Option (RxObserverFn × ℕ)) (n : ℕ) :
    (s.appended txData observer n).buffer.rxNumBytes = s.buffer.rxNumBytes + n := by
  rw [buffer_appended, FtBuffer.rxNumBytes_appendRx, (FtBuffer.rx_appendTx _ _).1]

theorem rxBuffer_appended (txData : List UInt8) (observer : Option (RxObserverFn × ℕ)) (n : ℕ)
    (h : s.buffer.rxBuffer.isSome = true ↔ 0 < s.buffer.rxNumBytes) :
    (s.appended txData observer n).buffer.rxBuffer.isSome = true ↔
      0 < (s.appended txData observer n).buffer.rxNumBytes := by
  rw [rxNumBytes_appended, buffer_appended, FtBuffer.rxBuffer_appendRx,
    (FtBuffer.rx_appendTx _ _).2.2, h]
  omega

theorem observers_nil_appended (txData : List UInt8) (observer : Option (RxObserverFn × ℕ)) (n : ℕ)
    (h : s.buffer.rxNumBytes = 0 → s.buffer.rxObservers = [])
    (hzero : (s.appended txData observer n).buffer.rxNumBytes = 0) :
    (s.appended txData observer n).buffer.rxObservers = [] := by
  rw [rxNumBytes_appended] at hzero
  have hn : ¬ n > 0 := by omega
  rw [observers_appended, h (by omega), FtBuffer.newObservers, if_neg hn]
  rfl

/-- Every queued observer is an old one, or the one appended with `n` replies. -/
theorem mem_observers_appended {txData : List UInt8} {observer : Option (RxObserverFn × ℕ)} {n : ℕ}
    {o : RxObserverNode} (ho : o ∈ (s.appended txData observer n).buffer.rxObservers) :
    o ∈ s.buffer.rxObservers ∨
      observer = some (o.fn, o.extra) ∧ o.data = s.buffer.rxNumBytes := by
  rw [observers_appended] at ho
  rcases List.mem_append.mp ho with ho | ho
  · exact .inl ho
  · obtain ⟨-, hsome, hdata⟩ := mem_newObservers ho
    exact .inr ⟨hsome, hdata.trans (FtBuffer.rx_appendTx _ _).1⟩

theorem frame_appended (txData : List UInt8) (observer : Option (RxObserverFn × ℕ)) (n : ℕ) :
    (s.appended txData observer n).buffer.frame = s.buffer.frame :=
  ((s.buffer.appendTx txData).frame_appendRx observer n).trans (s.buffer.frame_appendTx txData)

theorem head_le_appended (txData : List UInt8) (observer : Option (RxObserverFn × ℕ)) (n : ℕ) :
    s.buffer.pool.head ≤ (s.appended txData observer n).buffer.pool.head :=
  (s.buffer.head_le_appendTx txData).trans (FtBuffer.head_le_appendRx _ observer n)

/-! The state after the allocation of an extra record. -/

namespace Sys

variable (s : Sys τ)

def withBitExtra (e : BitCopierRxObserverExtra) : Sys τ :=
  { s with
    gFtdi := { s.gFtdi with
      pool := s.gFtdi.pool.cut (s.gFtdi.pool.adjustedHead alignofRecord) sizeofBitCopierExtra }
    bitExtras := Function.update s.bitExtras (s.gFtdi.pool.adjustedHead alignofRecord) e }

def withByteExtra (e : ByteCopierRxObserverExtra) : Sys τ :=
  { s.setBuffer { s.buffer with
      pool :=
        s.buffer.pool.cut (s.buffer.pool.adjustedHead alignofRecord) sizeofByteCopierExtra } with
    byteExtras := Function.update s.byteExtras (s.buffer.pool.adjustedHead alignofRecord) e }

end Sys

theorem copy_withByteExtra (e : ByteCopierRxObserverExtra) {o : RxObserverNode}
    (ho : o.fn = .byteCopier → o.extra ≠ s.buffer.pool.adjustedHead alignofRecord) :
    o.copy (s.withByteExtra e) = o.copy s := by
  unfold RxObserverNode.copy
  split
  · rfl
  · exact congrArg RxCopy.bytes (Function.update_of_ne (ho ‹_›) _ _)

end Specs

end TinyXvc
