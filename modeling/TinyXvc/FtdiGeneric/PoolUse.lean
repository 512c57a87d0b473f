import TinyXvc.FtdiGeneric.Contract

/-!
# What a vector takes from the two pools

The pool of the driver holds one record for every bit-mode read of a vector,
and is emptied when the vector ends.  The pool of the command buffer is emptied
by every flush; between two flushes, what its blocks take beyond the buffers is
paid for by the queued bytes, up to a slack that no command sequence of a
vector drives above 49 bytes.
-/

namespace TinyXvc

open Mpsse

theorem TxvcMempool.adjustedHead_of_aligned {pool : TxvcMempool} (h : alignofRecord ∣ pool.head) :
    pool.adjustedHead alignofRecord = pool.head := by
  have hmod : pool.head &&& (alignofRecord - 1) = 0 := by
    rw [show alignofRecord - 1 = 2 ^ 3 - 1 from rfl, Nat.and_two_pow_sub_one_eq_mod]
    exact Nat.mod_eq_zero_of_dvd h
  simp [TxvcMempool.adjustedHead, hmod]

namespace FtBuffer

variable (b : FtBuffer)

/-- The head of the pool if it held the two buffers only. -/
def base : ℕ :=
  b.pool.start + (if b.txBuffer.isSome then b.maxTxBufferBytes else 0) +
    (if b.rxBuffer.isSome then b.maxRxBufferBytes else 0)

structure Aligned : Prop where
  start : alignofRecord ∣ b.pool.start
  head : alignofRecord ∣ b.pool.head
  maxTx : alignofRecord ∣ b.maxTxBufferBytes
  maxRx : alignofRecord ∣ b.maxRxBufferBytes

variable {b}

theorem appendTx_base (txData : List UInt8) :
    (b.appendTx txData).pool.head + b.base = b.pool.head + (b.appendTx txData).base := by
  unfold appendTx
  split
  · split
    · rename_i hnone
      have hnone' : b.txBuffer = none := Option.isNone_iff_eq_none.mp hnone
      simp only [base, hnone', TxvcMempool.cut, Option.isSome_none, Option.isSome_some]
      simp only [if_true, if_false, Bool.false_eq_true]
      omega
    · rfl
  · rfl

theorem withRxBuffer_base :
    b.withRxBuffer.pool.head + b.base = b.pool.head + b.withRxBuffer.base := by
  unfold withRxBuffer
  split
  · rename_i hnone
    have hnone' : b.rxBuffer = none := Option.isNone_iff_eq_none.mp hnone
    simp only [base, hnone', TxvcMempool.cut, Option.isSome_none, Option.isSome_some]
    simp only [if_true, if_false, Bool.false_eq_true]
    omega
  · rfl

theorem Aligned.appendTx (h : b.Aligned) (txData : List UInt8) : (b.appendTx txData).Aligned := by
  unfold FtBuffer.appendTx
  split
  · split
    · exact ⟨h.start, h.head.add h.maxTx, h.maxTx, h.maxRx⟩
    · exact ⟨h.start, h.head, h.maxTx, h.maxRx⟩
  · exact h

theorem Aligned.withRxBuffer (h : b.Aligned) : b.withRxBuffer.Aligned := by
  unfold FtBuffer.withRxBuffer
  split
  · exact ⟨h.start, h.head.add h.maxRx, h.maxTx, h.maxRx⟩
  · exact h

/-- What an observer takes. -/
def observerBytes (observer : Option (RxObserverFn × ℕ)) (n : ℕ) : ℕ :=
  if 0 < n ∧ observer.isSome = true then sizeofRxObserverNode else 0

theorem Aligned.appendRx (h : b.Aligned) (observer : Option (RxObserverFn × ℕ)) (n : ℕ) :
    (b.appendRx observer n).Aligned ∧
      (b.appendRx observer n).pool.head + b.base =
        b.pool.head + (b.appendRx observer n).base + observerBytes observer n := by
  unfold FtBuffer.appendRx observerBytes
  by_cases hn : n > 0
  · have halign := h.withRxBuffer
    have hbase := b.withRxBuffer_base
    rw [if_pos hn]
    cases observer with
    | none =>
        refine ⟨⟨halign.start, halign.head, halign.maxTx, halign.maxRx⟩, ?_⟩
        simp only [Option.isSome_none, Bool.false_eq_true, and_false, if_false]
        exact hbase
    | some o =>
        have hhead := TxvcMempool.adjustedHead_of_aligned halign.head
        refine ⟨⟨halign.start, ?_, halign.maxTx, halign.maxRx⟩, ?_⟩
        · change alignofRecord ∣
            b.withRxBuffer.pool.adjustedHead alignofRecord + sizeofRxObserverNode
          rw [hhead]
          exact halign.head.add (by decide)
        · rw [if_pos ⟨hn, rfl⟩]
          change b.withRxBuffer.pool.adjustedHead alignofRecord + sizeofRxObserverNode + b.base =
            b.pool.head + b.withRxBuffer.base + sizeofRxObserverNode
          rw [hhead]
          omega
  · rw [if_neg hn, if_neg (fun hc => hn hc.1)]
    exact ⟨h, rfl⟩

end FtBuffer

/-- `k` records lie in the pool of the driver, and the blocks of the command
buffer are paid for up to a slack of `c`. -/
structure PoolUse (k c : ℕ) (s : Sys Usb) : Prop where
  driverStart : alignofRecord ∣ s.gFtdi.pool.start
  driverLimit : s.gFtdi.pool.limit = s.gFtdi.pool.start + 64 * 1024
  records : s.gFtdi.pool.head = s.gFtdi.pool.start + sizeofBitCopierExtra * k
  aligned : s.buffer.Aligned
  cmdLimit : s.buffer.pool.limit = s.buffer.pool.start + 128 * 1024
  slack : s.buffer.pool.head ≤ s.buffer.base + 9 * s.buffer.txData.length + c

namespace Request

/-- How many records a request takes from the pool of the driver. -/
def records : Request → ℕ
  | readBits _ _ => 1
  | _ => 0

/-- What a request takes from the pool of the command buffer, buffers apart. -/
def blocks : Request → ℕ
  | write _ => 0
  | readBits _ _ => sizeofRxObserverNode
  | readBytes _ _ _ => sizeofByteCopierExtra + sizeofRxObserverNode

/-- The slack after a request. -/
def slackAfter (c : ℕ) (q : Request) : ℕ := c + q.blocks - 9 * q.txData.length

end Request

variable {dev : Device} {s : Sys Usb} {k c : ℕ}

namespace PoolUse

variable (dev) in
theorem flushed (h : PoolUse k c s) : PoolUse k 0 (s.flushed dev) where
  driverStart := h.driverStart
  driverLimit := h.driverLimit
  records := h.records
  aligned := ⟨h.aligned.start, h.aligned.start, h.aligned.maxTx, h.aligned.maxRx⟩
  cmdLimit := h.cmdLimit
  slack := (Nat.le_add_right _ _).trans (Nat.le_add_right _ _)

theorem ensured (h : PoolUse k c s) (m n : ℕ) : PoolUse k c (s.ensured dev m n) := by
  unfold Sys.ensured
  split
  · exact { h.flushed dev with slack := (h.flushed dev).slack.trans (by omega) }
  · exact h

theorem appended (h : PoolUse k c s) {c' : ℕ} {txData : List UInt8}
    {observer : Option (RxObserverFn × ℕ)} {n : ℕ}
    (hc : c + FtBuffer.observerBytes observer n ≤ c' + 9 * txData.length) :
    PoolUse k c' (s.appended txData observer n) := by
  have hframe := (FtBuffer.frame_appendRx _ observer n).trans (s.buffer.frame_appendTx txData)
  simp only [FtBuffer.frame, Prod.mk.injEq] at hframe
  have hbase := s.buffer.appendTx_base txData
  obtain ⟨haligned, hbase'⟩ := (h.aligned.appendTx txData).appendRx observer n
  have hslack := h.slack
  refine ⟨h.driverStart, h.driverLimit, h.records, haligned, ?_, ?_⟩
  · rw [buffer_appended, hframe.1, hframe.2.1]
    exact h.cmdLimit
  · have htx : ((s.buffer.appendTx txData).appendRx observer n).txData.length =
        s.buffer.txData.length + txData.length := by simp
    rw [buffer_appended, htx]
    omega

theorem withBitExtra (h : PoolUse k c s) (e : BitCopierRxObserverExtra) :
    PoolUse (k + 1) c (s.withBitExtra e) := by
  have haligned : alignofRecord ∣ s.gFtdi.pool.head := by
    rw [h.records]
    exact h.driverStart.add (Dvd.dvd.mul_right (by decide) k)
  refine { h with records := ?_ }
  change s.gFtdi.pool.adjustedHead alignofRecord + sizeofBitCopierExtra = _
  rw [TxvcMempool.adjustedHead_of_aligned haligned, h.records, Nat.mul_succ, Nat.add_assoc]
  rfl

theorem withByteExtra (h : PoolUse k c s) (e : ByteCopierRxObserverExtra) :
    PoolUse k (c + sizeofByteCopierExtra) (s.withByteExtra e) := by
  have hhead := TxvcMempool.adjustedHead_of_aligned h.aligned.head
  refine { h with aligned := ⟨h.aligned.start, ?_, h.aligned.maxTx, h.aligned.maxRx⟩, slack := ?_ }
  · change alignofRecord ∣ s.buffer.pool.adjustedHead alignofRecord + sizeofByteCopierExtra
    rw [hhead]
    exact h.aligned.head.add (by decide)
  · change s.buffer.pool.adjustedHead alignofRecord + sizeofByteCopierExtra ≤
      s.buffer.base + 9 * s.buffer.txData.length + (c + sizeofByteCopierExtra)
    rw [hhead, ← Nat.add_assoc]
    exact Nat.add_le_add_right h.slack _

variable (dev) in
theorem enqueued (h : PoolUse k c s) {q : Request} {chip : ℕ} (hfits : q.Fits chip) :
    PoolUse (k + q.records) (q.slackAfter c) (s.enqueued dev q) := by
  cases q with
  | write cmd =>
      have hblocks : FtBuffer.observerBytes none 0 = 0 := rfl
      refine (h.ensured cmd.length 0).appended ?_
      rw [hblocks]
      exact le_tsub_add
  | readBits cmd e =>
      have hblocks : ∀ o, FtBuffer.observerBytes (some o) 1 = sizeofRxObserverNode := fun _ => rfl
      refine ((h.withBitExtra e).ensured cmd.length 1).appended ?_
      rw [hblocks]
      exact le_tsub_add
  | readBytes txData rxData n =>
      have hn : 0 < n := hfits.2.2
      have hblocks : ∀ o, FtBuffer.observerBytes (some o) n = sizeofRxObserverNode :=
        fun _ => if_pos ⟨hn, rfl⟩
      refine ((h.ensured txData.length n).withByteExtra ⟨rxData, n⟩).appended ?_
      rw [hblocks, Nat.add_assoc]
      exact le_tsub_add

end PoolUse

theorem PoolUse.mono (h : PoolUse k c s) {c' : ℕ} (hc : c ≤ c') : PoolUse k c' s :=
  { h with slack := h.slack.trans (Nat.add_le_add_left hc _) }

variable (dev) in
theorem frame_enqueued (q : Request) : (s.enqueued dev q).buffer.frame = s.buffer.frame := by
  cases q with
  | write cmd =>
      exact ((FtBuffer.frame_appendRx _ _ _).trans (FtBuffer.frame_appendTx _ _)).trans
        (frame_ensured dev _ _)
  | readBits cmd e =>
      exact ((FtBuffer.frame_appendRx _ _ _).trans (FtBuffer.frame_appendTx _ _)).trans
        (frame_ensured dev (s := s.withBitExtra e) _ _)
  | readBytes txData rxData n =>
      exact ((FtBuffer.frame_appendRx _ _ _).trans (FtBuffer.frame_appendTx _ _)).trans
        (frame_ensured dev (s := s) _ _)

theorem txData_enqueued (q : Request) :
    (s.enqueued dev q).buffer.txData =
      (s.ensured dev q.txData.length q.rxNumBytes).buffer.txData ++ q.txData := by
  have happend : ∀ (t : Sys Usb) txData observer n,
      (t.appended txData observer n).buffer.txData = t.buffer.txData ++ txData := by
    intro t txData observer n
    rw [buffer_appended, (FtBuffer.tx_appendRx _ _ _).1, FtBuffer.txData_appendTx]
  cases q with
  | write cmd => exact happend _ _ _ _
  | readBytes txData rxData n => exact happend _ _ _ _
  | readBits cmd e =>
      refine (happend _ _ _ _).trans ?_
      unfold Sys.ensured
      split
      · rw [if_pos ‹_›]
        rfl
      · rw [if_neg ‹_›]
        rfl

/-- With a slack of 49 bytes, every request fits the pool of the command buffer. -/
theorem PoolUse.cmd_fits (h : Linked dev s) {q : Request} (hfits : q.Fits s.gFtdi.chipBufferBytes)
    (hpool : PoolUse k c (s.enqueued dev q)) (hc : c ≤ 49) :
    (s.enqueued dev q).buffer.pool.head ≤ s.buffer.pool.limit := by
  have hframe := frame_enqueued dev (s := s) q
  simp only [FtBuffer.frame, Prod.mk.injEq] at hframe
  obtain ⟨hstart, hlimit, -, hmaxTx, hmaxRx⟩ := hframe
  have htx : (s.enqueued dev q).buffer.txData.length ≤ 3 * s.gFtdi.chipBufferBytes := by
    have hframe' := frame_ensured dev (s := s) q.txData.length q.rxNumBytes
    simp only [FtBuffer.frame, Prod.mk.injEq] at hframe'
    rw [txData_enqueued, List.length_append, ← h.maxTx, ← hframe'.2.2.2.1]
    exact (h.ensured_room hfits.1 hfits.2.1).1
  have hbase : (s.enqueued dev q).buffer.base ≤
      s.buffer.pool.start + 4 * s.gFtdi.chipBufferBytes := by
    rw [FtBuffer.base, hstart, hmaxTx, hmaxRx, h.maxTx, h.maxRx]
    split <;> split <;> omega
  have hslack := hpool.slack
  have hsize := hpool.cmdLimit
  have hchip := h.chip_bounds
  rw [hlimit, hstart] at hsize
  omega

/-- What one request does to the pools: it aborts exactly when its record does
not fit the 64 KiB of the driver's pool. -/
theorem request_pool (h : Linked dev s) {q : Request} (hfits : q.Fits s.gFtdi.chipBufferBytes)
    (hreplies : ((s.settledEngine dev).replies dev q.txData).length = q.rxNumBytes)
    (hpool : PoolUse k c s) (hc : q.slackAfter c ≤ 49) :
    Exec.wp (q.queue (link dev))
      (fun ok s' => ok = true ∧ Linked dev s' ∧ s'.gFtdi.chipBufferBytes = s.gFtdi.chipBufferBytes ∧
        s'.settledEngine dev = (s.settledEngine dev).feed dev q.txData ∧
        PoolUse (k + q.records) (q.slackAfter c) s' ∧ k + q.records ≤ 2730)
      (fun e _ => e = .oom (64 * 1024) ∧ 2730 < k + q.records) s := by
  have hpool' := hpool.enqueued dev hfits
  have hdriver : (s.enqueued dev q).gFtdi.pool.start = s.gFtdi.pool.start ∧
      (s.enqueued dev q).gFtdi.pool.limit = s.gFtdi.pool.limit := by
    cases q with
    | write cmd =>
        have hpools := (driver_ensured dev (s := s) cmd.length 0).1
        exact ⟨congrArg TxvcMempool.start hpools, congrArg TxvcMempool.limit hpools⟩
    | readBits cmd e =>
        have hpools := (driver_ensured dev (s := s.withBitExtra e) cmd.length 1).1
        exact ⟨(congrArg TxvcMempool.start hpools : _ = (s.withBitExtra e).gFtdi.pool.start),
          (congrArg TxvcMempool.limit hpools : _ = (s.withBitExtra e).gFtdi.pool.limit)⟩
    | readBytes txData rxData n =>
        have hpools := (driver_ensured dev (s := s) txData.length n).1
        exact ⟨congrArg TxvcMempool.start hpools, congrArg TxvcMempool.limit hpools⟩
  have hhead := hpool'.records
  have hlimit := hpool.driverLimit
  rw [hdriver.1, sizeofBitCopierExtra] at hhead
  refine Exec.wp_mono (Exec.wp_and (queue_spec h hfits hreplies)
    ((Request.queue_keeps (link dev) q).wp s)) ?_ ?_
  · rintro ok t ⟨⟨rfl, rfl, hlinked, hsettled⟩, hkeep⟩
    refine ⟨rfl, hlinked, congrArg (fun p => p.1) hkeep, congrArg Prod.fst hsettled, hpool', ?_⟩
    have hfit := hlinked.heads.1
    rw [hdriver.2] at hfit
    omega
  · rintro e t ⟨⟨-, hoom | hoom⟩, -⟩
    · refine ⟨?_, ?_⟩
      · rw [hoom.1, hlimit, Nat.add_sub_cancel_left]
      · have hlt := hoom.2
        omega
    · exact absurd (hpool'.cmd_fits h hfits hc) (Nat.not_le_of_lt hoom.2)

/-! ## The slack of the two shifts -/

/-- From a slack of `c`, no request of the list has more than 49 bytes of slack,
and the last one has at most `c'`. -/
def Affordable : ℕ → List Request → ℕ → Prop
  | c, [], c' => c ≤ c'
  | c, q :: qs, c' => q.slackAfter c ≤ 49 ∧ Affordable (q.slackAfter c) qs c'

def records (qs : List Request) : ℕ := (qs.map Request.records).sum

theorem records_cons (q : Request) (qs : List Request) :
    records (q :: qs) = q.records + records qs := List.sum_cons

theorem records_append (qs qs' : List Request) :
    records (qs ++ qs') = records qs + records qs' := by
  rw [records, records, records, List.map_append, List.sum_append]

theorem Affordable.mono {qs : List Request} {c c' d d' : ℕ} (h : Affordable c qs c') (hd : d ≤ c)
    (hd' : c' ≤ d') : Affordable d qs d' := by
  induction qs generalizing c d with
  | nil => exact hd.trans (le_trans h hd')
  | cons q qs ih =>
      have hle : q.slackAfter d ≤ q.slackAfter c :=
        Nat.sub_le_sub_right (Nat.add_le_add_right hd _) _
      exact ⟨hle.trans h.1, ih h.2 hle⟩

theorem Affordable.append {qs qs' : List Request} {a b c : ℕ} (h : Affordable a qs b)
    (h' : Affordable b qs' c) : Affordable a (qs ++ qs') c := by
  induction qs generalizing a with
  | nil => exact h'.mono h le_rfl
  | cons q qs ih => exact ⟨h.1, ih h.2⟩

theorem requests_pool (h : Linked dev s) {qs : List Request}
    (hfits : ∀ q ∈ qs, q.Fits s.gFtdi.chipBufferBytes)
    (hpair : WellPaired dev (s.settledEngine dev) qs) (hpool : PoolUse k c s) {c' : ℕ}
    (hafford : Affordable c qs c') (hk : k ≤ 2730) :
    Exec.wp (qs.allM (Request.queue (link dev)))
      (fun _ s' => PoolUse (k + records qs) c' s' ∧ k + records qs ≤ 2730)
      (fun e _ => e = .oom (64 * 1024) ∧ 2730 < k + records qs) s := by
  induction qs generalizing s k c with
  | nil => exact ⟨hpool.mono hafford, hk⟩
  | cons q qs ih =>
      obtain ⟨hreplies, hrest⟩ := hpair
      rw [List.allM_cons, Exec.wp_bind, records_cons, ← Nat.add_assoc]
      refine Exec.wp_mono
        (request_pool h (hfits q List.mem_cons_self) hreplies hpool hafford.1) ?_ ?_
      · rintro ok t ⟨rfl, hlinked, hchip, hengine, hpool', hk'⟩
        refine ih hlinked ?_ (by rw [hengine]; exact hrest) hpool' hafford.2 hk'
        rw [hchip]
        exact fun q' hq' => hfits q' (List.mem_cons_of_mem q hq')
      · rintro e t ⟨he, hlt⟩
        exact ⟨he, hlt.trans_le (Nat.le_add_right _ _)⟩

theorem slackAfter_command (cmd : List UInt8) (hcmd : cmd.length = 3) (c : ℕ) :
    Request.slackAfter c (.write cmd) = c - 27 ∧
      ∀ e, Request.slackAfter c (.readBits cmd e) = c + 32 - 27 := by
  refine ⟨?_, fun e => ?_⟩
  · rw [Request.slackAfter, Request.txData, hcmd]
    rfl
  · rw [Request.slackAfter, Request.txData, hcmd]
    rfl

theorem affordable_read {cmd : List UInt8} (hcmd : cmd.length = 3) (e : BitCopierRxObserverExtra)
    {c : ℕ} (hc : c ≤ 44) :
    Affordable c [.readBits cmd e] (c + 5) ∧ records [.readBits cmd e] = 1 := by
  refine ⟨⟨?_, ?_⟩, rfl⟩
  · rw [(slackAfter_command _ hcmd c).2]
    omega
  · change Request.slackAfter c _ ≤ c + 5
    rw [(slackAfter_command _ hcmd c).2]
    omega

theorem affordable_tms (tms : Octets) (lastTdi : Bool) {a b : ℕ} {c : ℕ} (hc : c ≤ 49) :
    Affordable c (tmsRequests tms lastTdi a b) (if a < b then c - 27 else c) ∧
      records (tmsRequests tms lastTdi a b) = 0 := by
  induction hn : b - a using Nat.strong_induction_on generalizing a c with
  | _ n ih =>
      rw [tmsRequests]
      by_cases hab : a < b
      · obtain ⟨hrest, hrecords⟩ := ih _ (by omega) (a := a + min (b - a) 6) (c := c - 27)
          (by omega) rfl
        rw [if_pos hab, if_pos hab]
        dsimp only
        have hslack := (slackAfter_command (tmsShiftCmd tms lastTdi a (min (b - a) 6)) rfl c).1
        refine ⟨⟨?_, ?_⟩, ?_⟩
        · rw [hslack]
          exact (Nat.sub_le c 27).trans hc
        · rw [hslack]
          refine hrest.mono le_rfl ?_
          split <;> omega
        · rw [records_cons, hrecords]
          rfl
      · rw [if_neg hab, if_neg hab]
        exact ⟨le_refl c, rfl⟩

namespace TdiShift

variable (t : TdiShift)

theorem affordable_inner {chip : ℕ} (hchip : 6 ≤ chip) (octet n : ℕ) :
    Affordable 27 (t.innerRequests chip octet n) 39 ∧
      records (t.innerRequests chip octet n) = 0 := by
  induction n using Nat.strong_induction_on generalizing octet with
  | _ n ih =>
      rw [innerRequests]
      by_cases hn : 0 < n ∧ 0 < chip
      · obtain ⟨hrest, hrecords⟩ := ih (n - min n chip) (by omega) (octet + min n chip)
        have hlen : ((List.range (min n chip)).map fun i => t.tdi (octet + i)).length =
            min n chip := by
          simp
        have hslack : Request.slackAfter 0 (.readBytes ((List.range (min n chip)).map fun i =>
            t.tdi (octet + i)) (t.tdo.add octet) (min n chip)) = 48 - 9 * min n chip := by
          rw [Request.slackAfter, Request.txData, hlen]
          rfl
        have hheader := (slackAfter_command (tdiOctetsCmd (min n chip)) rfl 27).1
        rw [if_pos hn]
        dsimp only
        refine ⟨⟨?_, ?_, ?_⟩, ?_⟩
        · rw [hheader]
          decide
        · rw [hheader]
          change Request.slackAfter 0 _ ≤ 49
          rw [hslack]
          omega
        · rw [hheader]
          change Affordable (Request.slackAfter 0 _) _ 39
          rw [hslack]
          by_cases hall : n ≤ chip
          · have hdone : n - min n chip = 0 := by omega
            rw [hdone, innerRequests, if_neg (fun h => Nat.lt_irrefl 0 h.1)]
            change 48 - 9 * min n chip ≤ 39
            omega
          · exact hrest.mono (by omega) le_rfl
        · rw [records_cons, records_cons, hrecords]
          rfl
      · rw [if_neg hn]
        exact ⟨(by decide : 27 ≤ 39), rfl⟩

/-- A TDI shift takes one record for each of its bit-mode reads. -/
theorem affordable {chip : ℕ} (hchip : 6 ≤ chip) :
    Affordable 22 (t.requests chip) 49 ∧
      records (t.requests chip) = (if t.split.numLeadingBits > 0 then 1 else 0) +
        (if t.split.numTrailingBits > 0 then 1 else 0) + 1 := by
  obtain ⟨hinner, hnone⟩ := t.affordable_inner hchip t.innerOctet t.innerOctets
  have hlead : Affordable 22 t.leadingRequests 27 ∧
      records t.leadingRequests = if t.split.numLeadingBits > 0 then 1 else 0 := by
    unfold leadingRequests
    dsimp only
    split
    · exact affordable_read rfl _ (by decide)
    · exact ⟨(by decide : 22 ≤ 27), rfl⟩
  have htrail : Affordable 39 t.trailingRequests 44 ∧
      records t.trailingRequests = if t.split.numTrailingBits > 0 then 1 else 0 := by
    unfold trailingRequests
    dsimp only
    split
    · exact affordable_read rfl _ (by decide)
    · exact ⟨(by decide : 39 ≤ 44), rfl⟩
  have hlast : Affordable 44 [t.lastRequest] 49 := (affordable_read rfl _ (by decide)).1
  refine ⟨(hlead.1.append hinner).append (htrail.1.append hlast), ?_⟩
  rw [requests, records_append, records_append, records_append, hlead.2, hnone, htrail.2,
    Nat.add_zero, Nat.add_assoc]
  rfl

end TdiShift

/-! ## The records of a vector -/

/-- The records of a range: one for its last bit, and one each for the bits
before and after its whole octets. -/
def SplitRange.records (x : SplitRange) : ℕ :=
  if x.kind.isTdi then
    let lastBitIdx := x.toBitIdx - 1
    (if x.fromBitIdx % 8 ≠ 0 ∧ x.fromBitIdx < lastBitIdx then 1 else 0) +
      (if lastBitIdx % 8 ≠ 0 ∧ x.fromBitIdx ≤ lastBitIdx / 8 * 8 then 1 else 0) + 1
  else 0

def SplitRequest.records (r : SplitRequest) (st : JtagState) : ℕ :=
  ((r.ranges st).map SplitRange.records).sum

theorem TdiShift.records_split (t : TdiShift) (h : t.fromBitIdx < t.toBitIdx) :
    (t.split.numLeadingBits > 0 ↔
        t.fromBitIdx % 8 ≠ 0 ∧ t.fromBitIdx < t.toBitIdx - 1) ∧
      (t.split.numTrailingBits > 0 ↔
        (t.toBitIdx - 1) % 8 ≠ 0 ∧ t.fromBitIdx ≤ (t.toBitIdx - 1) / 8 * 8) := by
  simp only [split, tdiSplit, beq_iff_eq]
  constructor
  · split <;> omega
  · split <;> split <;> omega

/-- Ranges of both kinds take turns. -/
def Alternating : Bool → List SplitRange → Prop
  | _, [] => True
  | shift, x :: xs => x.kind.isTdi = shift ∧ Alternating (!shift) xs

theorem splitRanges_alternating (st : JtagState) (first len : ℕ) (bs : List Bool) :
    Alternating st.isShift (splitRanges st first len bs) := by
  induction bs generalizing st first len with
  | nil => trivial
  | cons b bs ih =>
      rw [splitRanges]
      cases hev : bs.isEmpty || st.isShift != (nextState st b).isShift with
      | true =>
          rw [if_pos rfl]
          refine ⟨?_, ?_⟩
          · cases st.isShift <;> rfl
          · cases bs with
            | nil => trivial
            | cons b' bs =>
                have hturn : (nextState st b).isShift = !st.isShift := by
                  rw [List.isEmpty_cons, Bool.false_or, bne_iff_ne] at hev
                  cases hs : st.isShift <;> cases hn : (nextState st b).isShift <;> simp_all
                rw [← hturn]
                exact ih _ _ _
      | false =>
          have hsame : (nextState st b).isShift = st.isShift := by
            have hne := (Bool.or_eq_false_iff.mp hev).2
            exact (by simpa using hne : st.isShift = _).symm
          rw [if_neg Bool.false_ne_true, ← hsame]
          exact ih _ _ _

/-- The slack before a range. -/
def slackBefore (isTdi : Bool) : ℕ := if isTdi then 22 else 49

theorem range_pool (h : Linked dev s) (he : (s.settledEngine dev).awaiting = .opcode)
    (r : SplitRequest) (x : SplitRange) (hpool : PoolUse k (slackBefore x.kind.isTdi) s)
    (hk : k ≤ 2730) :
    Exec.wp (jtagSplitterCallback (link dev) (x.event r))
      (fun _ s' => PoolUse (k + x.records) (slackBefore (!x.kind.isTdi)) s' ∧ k + x.records ≤ 2730)
      (fun e _ => e = .oom (64 * 1024) ∧ 2730 < k + x.records) s := by
  have hne := x.nonempty
  have hchip := h.chip_bounds
  rw [SplitRange.records]
  cases hkind : x.kind with
  | tms =>
      obtain ⟨hafford, hnone⟩ := affordable_tms r.tms s.gFtdi.lastTdi (a := x.fromBitIdx)
        (b := x.toBitIdx) (le_refl 49)
      rw [if_pos hne] at hafford
      rw [hkind] at hpool
      have hspec := requests_pool h (fits_tmsRequests r.tms s.gFtdi.lastTdi x.fromBitIdx x.toBitIdx
        (by omega)) (exec_tmsRequests dev he r.tms s.gFtdi.lastTdi _ _ (s.settledMem dev)).1 hpool
        hafford hk
      rw [hnone] at hspec
      have heq : jtagSplitterCallback (link dev) (x.event r) s =
          (tmsRequests r.tms s.gFtdi.lastTdi x.fromBitIdx x.toBitIdx).allM
            (Request.queue (link dev)) s := by
        rw [SplitRange.event, hkind]
        exact appendTmsShift_eq (link dev) r.tms hne s
      rw [Exec.wp, heq]
      exact hspec
  | tdi incomplete =>
      let t : TdiShift := ⟨r.tdi, r.tdo, x.fromBitIdx, x.toBitIdx, !incomplete⟩
      obtain ⟨hafford, hrecords⟩ := t.affordable (show 6 ≤ s.gFtdi.chipBufferBytes by omega)
      obtain ⟨hlead, htrail⟩ := t.records_split hne
      simp only [hlead, htrail] at hrecords
      rw [hkind] at hpool
      have hspec := requests_pool h (fits_requests t hne (by omega))
        (t.segment dev hne (by omega) (by omega) he rfl (s.settledMem dev)).1 hpool hafford hk
      rw [hrecords] at hspec
      have heq : jtagSplitterCallback (link dev) (x.event r) s =
          ((t.requests s.gFtdi.chipBufferBytes).allM (Request.queue (link dev)) >>=
            t.finish) s := by
        rw [SplitRange.event, hkind]
        exact appendTdiShift_eq (link dev) (t := t) hne s (by omega)
      rw [Exec.wp, heq]
      change Exec.wp _ _ _ _
      rw [Exec.wp_bind]
      refine Exec.wp_mono hspec ?_ (fun _ _ he => he)
      rintro ok s' ⟨hpool', hk'⟩
      cases ok with
      | false => exact ⟨hpool', hk'⟩
      | true => exact ⟨{ hpool' with }, hk'⟩

theorem ranges_pool (h : Linked dev s) (he : (s.settledEngine dev).awaiting = .opcode)
    {r : SplitRequest} {st : JtagState} {xs : List SplitRange} {a b : ℕ} {isTdi : Bool}
    (htile : Tiles a b xs) (hdec : ∀ x ∈ xs, x.Decodes r st)
    (hlow : (r.stateAt st a).isShift = true → (s.settledEngine dev).tmsLevel = false)
    (halt : Alternating isTdi xs) (hpool : PoolUse k (slackBefore isTdi) s) (hk : k ≤ 2730) :
    Exec.wp ((xs.map (SplitRange.event r)).allM (jtagSplitterCallback (link dev)))
      (fun _ s' => PoolUse (k + (xs.map SplitRange.records).sum) 49 s' ∧
        k + (xs.map SplitRange.records).sum ≤ 2730)
      (fun e _ => e = .oom (64 * 1024) ∧ 2730 < k + (xs.map SplitRange.records).sum) s := by
  induction xs generalizing s a k isTdi with
  | nil =>
      refine ⟨hpool.mono ?_, hk⟩
      cases isTdi <;> decide
  | cons x xs ih =>
      obtain ⟨rfl, htail⟩ := htile
      obtain ⟨rfl, halt⟩ := halt
      have hx := hdec x List.mem_cons_self
      rw [List.map_cons, List.allM_cons, Exec.wp_bind, List.map_cons, List.sum_cons,
        ← Nat.add_assoc]
      refine Exec.wp_mono
        (Exec.wp_and (range_spec h he hx hlow) (range_pool h he r x hpool hk)) ?_ ?_
      · rintro ok t ⟨⟨rfl, hlinked, -, hshifts⟩, hpool', hk'⟩
        obtain ⟨he', hlow'⟩ := hshifts.next x.nonempty
        exact ih hlinked he' htail (fun y hy => hdec y (List.mem_cons_of_mem x hy)) hlow' halt
          hpool'
          hk'
      · rintro e t ⟨-, rfl, hlt⟩
        exact ⟨rfl, hlt.trans_le (Nat.le_add_right _ _)⟩

/-! ## Whole calls -/

/-- The pools are as empty as between two calls. -/
def PoolsIdle (s : Sys Usb) : Prop := PoolUse 0 0 s

variable {chip : ℕ} {tap₀ : Jtag.Tap}

variable (dev) in
theorem PoolUse.flushedAll (h : PoolUse k c s) : PoolsIdle (s.flushedAll dev) :=
  { h.flushed dev with records := rfl }

theorem shiftBits_pool (h : InStep dev chip tap₀ s) (hpool : PoolsIdle s) (r : SplitRequest) :
    Exec.wp (shiftBits (link dev) r)
      (fun _ s' => PoolsIdle s' ∧
        (r.FitsInt → r.records s.gFtdi.jtagSplitter.state ≤ 2730))
      (fun e _ => e = .oom (64 * 1024) ∧ 2730 < r.records s.gFtdi.jtagSplitter.state ∨
        e = .signedOverflow ∧ ¬ r.FitsInt) s := by
  obtain ⟨⟨hlinked, hawaiting, rfl⟩, hdrained, -, hlow⟩ := h
  obtain ⟨hengine, -⟩ := hlinked.settled_of_drained hdrained
  have htile := r.ranges_tile s.gFtdi.jtagSplitter.state
  have hdec := r.ranges_decode s.gFtdi.jtagSplitter.state
  have hlow' : (r.stateAt s.gFtdi.jtagSplitter.state 0).isShift = true →
      (s.settledEngine dev).tmsLevel = false := by
    rw [hengine]
    exact hlow
  have hspec := Exec.wp_and (ranges_spec hlinked hawaiting htile hdec hlow')
    (ranges_pool hlinked hawaiting htile hdec hlow'
      (splitRanges_alternating s.gFtdi.jtagSplitter.state 0 0 r.tmsBits)
      (PoolUse.mono hpool (Nat.zero_le _)) (Nat.zero_le _))
  rw [Nat.zero_add] at hspec
  unfold shiftBits
  rw [Exec.wp_bind, Exec.wp_get, Exec.wp_bind, Exec.wp]
  rcases process_eq_or (jtagSplitterCallback (link dev)) r s.gFtdi.jtagSplitter s with
    hdeliver | ⟨hfit, s', herror⟩
  · rw [hdeliver]
    change Exec.wp (deliver _ r _ >>= settle _ _) _ _ s
    rw [Exec.wp_bind, deliver, Exec.wp_bind, SplitRequest.events, Exec.allM_append, Exec.wp_bind]
    refine Exec.wp_mono hspec ?_ (fun _ _ hoom => Or.inl hoom.2)
    rintro ok t ⟨⟨rfl, hlinked', -⟩, hpool', hrecords⟩
    rw [if_pos rfl, List.allM_cons, Exec.wp_bind_ok (callback_flush hlinked')]
    exact ⟨{ hpool'.flushedAll dev with }, fun _ => hrecords⟩
  · rw [herror]
    exact Or.inr ⟨rfl, hfit⟩

/-- A command and the sync check after it leave the pools idle. -/
theorem silent_sync_pool (h : Linked dev s) {cmd : List UInt8} (hlen : cmd.length ≤ 4)
    (hsilent : Silent dev (s.settledEngine dev) cmd) (hpool : PoolsIdle s) :
    Exec.wp (ftBufferAddWriteToChip (link dev) cmd <&&> checkDeviceInSync (link dev))
      (fun _ s' => PoolsIdle s') (fun _ _ => False) s := by
  have hchip := h.chip_bounds
  obtain ⟨hreplies, hawaiting, -⟩ := hsilent
  have hwrite : (Request.write cmd).Fits s.gFtdi.chipBufferBytes := by
    refine ⟨?_, Nat.zero_le _, trivial⟩
    change cmd.length ≤ s.gFtdi.chipBufferBytes
    omega
  have hsync : (Request.readBytes [0xab] ⟨.resp, 0⟩ 2).Fits s.gFtdi.chipBufferBytes := by
    refine ⟨?_, ?_, by decide⟩
    · change 1 ≤ s.gFtdi.chipBufferBytes
      omega
    · change 2 ≤ s.gFtdi.chipBufferBytes
      omega
  have hslack : Request.slackAfter 0 (.write cmd) = 0 := Nat.zero_sub _
  unfold andM
  rw [Exec.wp_bind]
  refine Exec.wp_mono (request_pool h hwrite (congrArg List.length hreplies) hpool
    (by rw [hslack]; decide)) ?_ (fun _ _ hlt => absurd hlt.2 (Nat.not_lt_zero _))
  rintro ok t ⟨rfl, hlinked, hchip', hengine, hpool', -⟩
  rw [hslack] at hpool'
  rw [← hchip'] at hsync
  have hbad := (feed_badOpcode dev (e := t.settledEngine dev)
    (by rw [hengine]; exact hawaiting)).2
  change Exec.wp (checkDeviceInSync (link dev)) _ _ t
  unfold checkDeviceInSync
  dsimp only
  rw [Exec.wp_bind]
  refine Exec.wp_mono (request_pool hlinked hsync (congrArg List.length hbad) hpool' (by decide)) ?_
    (fun _ _ hlt => absurd hlt.2 (Nat.not_lt_zero _))
  rintro ok u ⟨rfl, hlinked', -, -, hpool'', -⟩
  rw [if_pos rfl, Exec.wp_bind_ok (ftBufferFlush_eq hlinked'), if_pos rfl]
  exact hpool''.flushed dev

theorem setTckPeriod_pool (h : Ready dev chip s) (hpool : PoolsIdle s) (tckPeriodNs : ℤ) :
    Exec.wp (setTckPeriod (link dev) tckPeriodNs) (fun _ s' => PoolsIdle s')
      (fun e _ => e.OfSetting) s := by
  unfold setTckPeriod
  rw [Exec.wp_bind, Exec.wp_get, Exec.wp_bind]
  refine wp_tckSetting (fun setting => ?_) (fun _ he => he)
  rw [Exec.wp_bind]
  refine Exec.wp_mono (silent_sync_pool h.linked (List.length_take_le' _ _)
    (silent_tckDivisorCmd dev h.awaiting _ _) hpool) ?_ (fun _ _ hfalse => hfalse.elim)
  rintro ok t hpool'
  cases ok <;> exact hpool'

theorem tapReset_pool (h : Linked dev s) (he : (s.settledEngine dev).awaiting = .opcode)
    (hpool : PoolsIdle s) :
    Exec.wp (tapReset (jtagSplitterCallback (link dev))) (fun _ s' => PoolsIdle s')
      (fun _ _ => False) s := by
  unfold tapReset andM
  rw [Exec.wp_bind]
  refine Exec.wp_mono (Exec.wp_and (callback_tms h he tmsTapResetVector (by decide))
    (range_pool h he ⟨5, tmsTapResetVector, fun _ => 0, ⟨.resp, 0⟩⟩ ⟨.tms, 0, 5, by decide⟩
      (PoolUse.mono hpool (Nat.zero_le _)) (Nat.zero_le _))) ?_
    (fun _ _ hlt => absurd hlt.2.2 (by decide))
  rintro ok t ⟨⟨rfl, hlinked, -⟩, hpool', -⟩
  exact Exec.wp_of_ok (callback_flush hlinked) (hpool'.flushedAll dev)

theorem activate_pool (p : FtParams) (h : PoweredUp s) :
    Exec.wp (activate (link dev) p) (fun _ s' => PoolsIdle s') (fun _ _ => False) s := by
  obtain ⟨hlinked, hengine⟩ := linked_activateDriver dev p h
  have hawaiting : (Sys.settledEngine dev { s with gFtdi := activateDriver p s.gFtdi }).awaiting =
      .opcode := by
    rw [hengine]
    exact h.awaiting
  have hidle : PoolsIdle { s with gFtdi := activateDriver p s.gFtdi } := by
    have hchip : alignofRecord ∣ p.device.chipBufferBytes := by
      cases p.device <;> decide
    exact ⟨p.poolAligned, rfl, rfl, ⟨p.cmdPoolAligned, p.cmdPoolAligned, hchip.mul_left 3, hchip⟩,
      rfl, le_rfl⟩
  have hlen : (setupCmds p.dPins).length ≤ 4 := le_of_eq_of_le (rfl : _ = 3) (by decide)
  have hsilent := silent_setupCmds dev hawaiting p.dPins
  unfold activate
  rw [Exec.wp_bind, Exec.wp_modify, Exec.wp_bind]
  refine Exec.wp_mono (Exec.wp_and (silent_sync_spec hlinked hlen hsilent)
    (silent_sync_pool hlinked hlen hsilent hidle)) ?_ (fun _ _ hfalse => hfalse.2)
  rintro ok t ⟨⟨rfl, hlinked', -, -, hengine'⟩, hidle'⟩
  rw [if_pos rfl, Exec.wp_bind, Exec.wp_get, Exec.wp_bind, txvcJtagSplitterInit, Exec.wp_bind]
  refine Exec.wp_mono (tapReset_pool hlinked' (by rw [hengine']; exact hsilent.2.1) hidle') ?_
    (fun _ _ hfalse => hfalse)
  rintro ok u hidle''
  cases ok <;> exact { hidle'' with }

theorem Reachable.poolsIdle {p : FtParams} {s₀ : Sys Usb} (h₀ : PoweredUp s₀)
    (h : Reachable dev p s₀ s) : PoolsIdle s := by
  induction h with
  | activate hrun => exact Exec.wp_ok (Q := fun _ => PoolsIdle) (activate_pool p h₀) hrun
  | caller m _ ih => exact { ih with }
  | perform op hreach hrun ih =>
      have hstep := hreach.inStep h₀ .testLogicReset
      cases op with
      | setTckPeriod ns =>
          obtain ⟨_, _, hrun', hpure⟩ := Exec.bind_eq_ok hrun
          cases hpure
          exact Exec.wp_ok (Q := fun _ => PoolsIdle) (setTckPeriod_pool hstep.toReady ih ns) hrun'
      | shiftBits r =>
          obtain ⟨_, _, hrun', hpure⟩ := Exec.bind_eq_ok hrun
          cases hpure
          exact (Exec.wp_ok (shiftBits_pool hstep ih r) hrun').1

end TinyXvc
