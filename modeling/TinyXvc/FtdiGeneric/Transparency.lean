import TinyXvc.FtdiGeneric.Wire

/-!
# Automatic flushes

The command buffer flushes when a request does not fit any more.  Over a wire
this can not be told from sending every request, and reading its replies, at
once: the same bytes are sent, and the same observers see the same replies.
-/

namespace TinyXvc

/-- A request to the command buffer. -/
inductive BufferRequest where
  | plain (txData : List UInt8) (observer : Option (RxObserverFn × ℕ)) (rxNumBytes : ℕ)
  | simple (txData : List UInt8) (rxData : Ptr) (rxNumBytes : ℕ)

namespace BufferRequest

def txData : BufferRequest → List UInt8
  | plain txData _ _ => txData
  | simple txData _ _ => txData

def rxNumBytes : BufferRequest → ℕ
  | plain _ _ n => n
  | simple _ _ n => n

def queue {τ : Type} (io : D2xx τ) : BufferRequest → Prog τ Bool
  | plain txData observer n => ftBufferAddWriteToChipWithReadback io txData observer n
  | simple txData rxData n => ftBufferAddWriteToChipWithReadbackSimple io txData rxData n

/-- An observer with the record that its address has in the state `s`. -/
def withRecord {τ : Type} (s : Sys τ) (observer : Option (RxObserverFn × ℕ)) : Option RxCopy :=
  observer.map fun (fn, extra) => RxObserverNode.copy s ⟨0, fn, 0, extra⟩

/-- The observer of a request; the records of plain requests lie in `s₀`. -/
def observer {τ : Type} (s₀ : Sys τ) : BufferRequest → Option RxCopy
  | plain _ observer _ => withRecord s₀ observer
  | simple _ rxData n => some (.bytes ⟨rxData, n⟩)

variable {ι : Type} (T : Transducer ι UInt8 UInt8) (s₀ : Sys (Wire ι))

/-- The run of the observer, if the chip `c` executes the request at once. -/
def runAtOnce (c : ι) (q : BufferRequest) : List ObserverRun :=
  if 0 < q.rxNumBytes then ((q.observer s₀).map fun o => (o, T.replies c q.txData)).toList else []

def runsAtOnce (c : ι) : List BufferRequest → List ObserverRun
  | [] => []
  | q :: qs => q.runAtOnce T s₀ c ++ runsAtOnce (T.feed c q.txData) qs

theorem runsAtOnce_concat (c : ι) (qs : List BufferRequest) (q : BufferRequest) :
    runsAtOnce T s₀ c (qs ++ [q]) =
      runsAtOnce T s₀ c qs ++ q.runAtOnce T s₀ (T.feed c (qs.flatMap txData)) := by
  induction qs generalizing c with
  | nil => exact List.append_nil _
  | cons q' qs ih =>
      rw [List.cons_append, runsAtOnce, runsAtOnce, ih, List.flatMap_cons, T.feed_append,
        List.append_assoc]

/-- The chip answers every request with as many bytes as the request reads. -/
def Answered (c : ι) : List BufferRequest → Prop
  | [] => True
  | q :: qs => (T.replies c q.txData).length = q.rxNumBytes ∧ Answered (T.feed c q.txData) qs

/-- Both sizes fit the chip, and the record of a plain request does not lie in
the pool of the buffer. -/
structure Admissible (poolStart chip : ℕ) (q : BufferRequest) : Prop where
  tx_le : q.txData.length ≤ chip
  rx_le : q.rxNumBytes ≤ chip
  outside : ∀ txData extra n, q = .plain txData (some (.byteCopier, extra)) n →
    extra < poolStart ∨ poolStart + 128 * 1024 ≤ extra

end BufferRequest

/-- The same observer, on data that begins in the same way. -/
def ObserverRun.Extends (r r' : ObserverRun) : Prop := r.1 = r'.1 ∧ r'.2 <+: r.2

theorem forall₂_extends_refl (xs : List ObserverRun) : List.Forall₂ ObserverRun.Extends xs xs :=
  List.forall₂_same.mpr fun _ _ => ⟨rfl, List.prefix_rfl⟩

theorem forall₂_extends_trans {xs ys zs : List ObserverRun}
    (h : List.Forall₂ ObserverRun.Extends xs ys) (h' : List.Forall₂ ObserverRun.Extends ys zs) :
    List.Forall₂ ObserverRun.Extends xs zs := by
  induction h generalizing zs with
  | nil => exact h'
  | cons hxy _ ih =>
      cases h' with
      | cons hyz hrest =>
          exact .cons ⟨hxy.1.trans hyz.1, hyz.2.trans hxy.2⟩ (ih hrest)

/-- The runs on the way from `s` to `t`, which begins with a flush if there is one. -/
def runsBetween {τ : Type} (io : D2xx τ) (s t : Sys τ) : List ObserverRun :=
  if t.flushes.length = s.flushes.length then [] else s.flushRuns io

/-- All runs of observers when the requests are queued and then flushed. -/
def observerRuns {τ : Type} (io : D2xx τ) : List BufferRequest → Sys τ → List ObserverRun
  | [], s => s.flushRuns io
  | q :: qs, s =>
      match q.queue io s with
      | .ok (true, t) => runsBetween io s t ++ observerRuns io qs t
      | _ => []

section Invariant

variable {ι : Type} (T : Transducer ι UInt8 UInt8) (poolStart chip : ℕ)

open BufferRequest

/-- After the requests `done`, of which the flushes so far have made the runs
`log`; the rest is still queued. -/
structure Deferred (s₀ s : Sys (Wire ι)) (done : List BufferRequest) (log : List ObserverRun) : Prop
    extends Expecting T s where
  wireChip : s.wireChip T = T.feed s₀.usb.chip (done.flatMap txData)
  issued : s.issued = s₀.sent ++ done.flatMap txData
  mem : s.mem = log.foldl ObserverRun.apply s₀.mem
  runs : List.Forall₂ ObserverRun.Extends (log ++ s.pendingRuns T)
    (runsAtOnce T s₀ s₀.usb.chip done)
  tx_le : s.buffer.txData.length ≤ 3 * chip
  rx_le : s.buffer.rxNumBytes ≤ chip
  data_le : ∀ o ∈ s.buffer.rxObservers, o.data ≤ s.buffer.rxNumBytes
  frame : s.buffer.frame = (ftBufferInit poolStart chip).frame
  head : poolStart ≤ s.buffer.pool.head ∧ s.buffer.pool.head ≤ poolStart + 128 * 1024
  extras : ∀ o ∈ s.buffer.rxObservers, o.fn = .byteCopier →
    o.extra < s.buffer.pool.head ∨ poolStart + 128 * 1024 ≤ o.extra
  bitExtras : s.bitExtras = s₀.bitExtras
  byteExtras : ∀ a, a < poolStart ∨ poolStart + 128 * 1024 ≤ a → s.byteExtras a = s₀.byteExtras a

variable {T poolStart chip} {s₀ s : Sys (Wire ι)} {done : List BufferRequest}
  {log : List ObserverRun}

theorem Deferred.frame_eq (h : Deferred T poolStart chip s₀ s done log) :
    s.buffer.pool.start = poolStart ∧ s.buffer.pool.limit = poolStart + 128 * 1024 ∧
      s.buffer.pool.fatalOom = true ∧ s.buffer.maxTxBufferBytes = 3 * chip ∧
      s.buffer.maxRxBufferBytes = chip := by
  have hframe := h.frame
  simp only [FtBuffer.frame, Prod.mk.injEq] at hframe
  exact hframe

/-- A flush makes the pending runs, and leaves nothing pending. -/
theorem Deferred.flush (h : Deferred T poolStart chip s₀ s done log) :
    ∃ t, ftBufferFlush (wire T) s = .ok (true, t) ∧
      Deferred T poolStart chip s₀ t done (log ++ s.flushRuns (wire T)) ∧
      t.flushes.length = s.flushes.length + 1 ∧ t.buffer.txData = [] ∧ t.buffer.rxNumBytes = 0 ∧
      t.pendingRuns T = [] := by
  obtain ⟨t, hrun, ht⟩ := h.toExpecting.flush
  have hpending : t.pendingRuns T = [] := by
    rw [Sys.pendingRuns, ht.buffer]
    rfl
  have hreplies : t.wireReplies T = [] := by
    rw [Sys.wireReplies, ht.buffer]
    rfl
  obtain ⟨hstart, -, -, -, -⟩ := h.frame_eq
  refine ⟨t, hrun, ?_, ?_, ?_, ?_, hpending⟩
  · refine
      { unread := ht.unread
        tx_isSome := by simp [ht.buffer]
        rx_isSome := by simp [ht.buffer]
        observers_nil := fun _ => by rw [ht.buffer]
        replies := by rw [hreplies, ht.buffer]; rfl
        wireChip := by rw [← h.wireChip, ← ht.chip, Sys.wireChip, ht.buffer]; rfl
        issued := by rw [← h.issued, Sys.issued, ht.sent, ht.buffer, List.append_nil]; rfl
        mem := by rw [ht.mem, h.mem, h.toExpecting.flushRuns_eq, List.foldl_append]
        runs := by rw [hpending, List.append_nil, h.toExpecting.flushRuns_eq]; exact h.runs
        tx_le := by rw [ht.buffer]; exact Nat.zero_le _
        rx_le := by rw [ht.buffer]; exact Nat.zero_le _
        data_le := fun o ho => by rw [ht.buffer] at ho; cases ho
        frame := by rw [← h.frame, ht.buffer]; rfl
        head := by
          rw [ht.buffer]
          exact ⟨hstart.ge, hstart.trans_le (Nat.le_add_right _ _)⟩
        extras := fun o ho => by rw [ht.buffer] at ho; cases ho
        bitExtras := ht.bitExtras.trans h.bitExtras
        byteExtras := fun a ha => by rw [ht.byteExtras]; exact h.byteExtras a ha }
  · rw [ht.flushes, List.length_append]
    rfl
  · rw [ht.buffer]
  · rw [ht.buffer]

theorem runsBetween_of_same {τ : Type} (io : D2xx τ) {s t : Sys τ} (h : t.flushes = s.flushes) :
    runsBetween io s t = [] := if_pos (congrArg List.length h)

/-- `ft_buffer_ensure_can_append` flushes or not; there is room after it. -/
theorem Deferred.ensure (h : Deferred T poolStart chip s₀ s done log) {m n : ℕ} (hm : m ≤ chip)
    (hn : n ≤ chip) :
    ∃ t, ftBufferEnsureCanAppend (wire T) m n s = .ok (true, t) ∧
      Deferred T poolStart chip s₀ t done (log ++ runsBetween (wire T) s t) ∧
      t.buffer.txData.length + m ≤ 3 * chip ∧ t.buffer.rxNumBytes + n ≤ chip := by
  obtain ⟨-, -, -, hmaxTx, hmaxRx⟩ := h.frame_eq
  have hassert : (decide (m ≤ s.buffer.maxRxBufferBytes) &&
      decide (n ≤ s.buffer.maxRxBufferBytes)) = true := by
    rw [hmaxRx]
    simp [hm, hn]
  unfold ftBufferEnsureCanAppend cmdBuffer
  rw [bind_assoc, Exec.get_bind, pure_bind, hassert, alwaysAssert_true, pure_bind, hmaxTx, hmaxRx]
  by_cases hfull : s.buffer.txData.length + m > 3 * chip ∨ s.buffer.rxNumBytes + n > chip
  · obtain ⟨t, hrun, ht, hflushes, htx, hrx, -⟩ := h.flush
    refine ⟨t, ?_, ?_, ?_, ?_⟩
    · rw [if_pos (by simpa using hfull)]
      exact hrun
    · rw [runsBetween, if_neg (by omega)]
      exact ht
    · rw [htx, List.length_nil]
      omega
    · rw [hrx]
      omega
  · refine ⟨s, ?_, ?_, by omega, by omega⟩
    · rw [if_neg (by simpa using hfull)]
      rfl
    · rw [runsBetween_of_same _ rfl, List.append_nil]
      exact h

theorem wireReplies_appended (txData : List UInt8) (observer : Option (RxObserverFn × ℕ)) (n : ℕ) :
    (s.appended txData observer n).wireReplies T =
      s.wireReplies T ++ T.replies (s.wireChip T) txData := by
  unfold Sys.wireReplies
  rw [txData_appended, T.replies_append]
  rfl

theorem wireChip_appended (txData : List UInt8) (observer : Option (RxObserverFn × ℕ)) (n : ℕ) :
    (s.appended txData observer n).wireChip T = T.feed (s.wireChip T) txData := by
  unfold Sys.wireChip
  rw [txData_appended, T.feed_append]
  rfl

theorem Expecting.appended (h : Expecting T s) {txData : List UInt8} {n : ℕ}
    (hreplies : (T.replies (s.wireChip T) txData).length = n)
    (observer : Option (RxObserverFn × ℕ)) : Expecting T (s.appended txData observer n) where
  unread := h.unread
  tx_isSome := txBuffer_appended txData observer n h.tx_isSome
  rx_isSome := rxBuffer_appended txData observer n h.rx_isSome
  observers_nil := observers_nil_appended txData observer n h.observers_nil
  replies := by
    rw [wireReplies_appended, List.length_append, h.replies, hreplies, rxNumBytes_appended]

/-- The observer of a request, if there is anything to observe. -/
def newRuns (s : Sys (Wire ι)) (observer : Option (RxObserverFn × ℕ)) (n : ℕ) (rx : List UInt8) :
    List ObserverRun :=
  if 0 < n then ((withRecord s observer).map fun o => (o, rx)).toList else []

theorem pendingRuns_appended (h : Expecting T s) (txData : List UInt8)
    (observer : Option (RxObserverFn × ℕ)) (n : ℕ) :
    (s.appended txData observer n).pendingRuns T =
      (s.buffer.rxObservers.map fun o =>
        (o.copy s, (s.wireReplies T ++ T.replies (s.wireChip T) txData).drop o.data)) ++
      newRuns s observer n (T.replies (s.wireChip T) txData) := by
  rw [Sys.pendingRuns, observers_appended, wireReplies_appended, List.map_append]
  congr 1
  unfold FtBuffer.newObservers newRuns
  split
  · cases observer with
    | none => rfl
    | some o =>
        have hdata : (s.wireReplies T ++ T.replies (s.wireChip T) txData).drop
            (s.buffer.appendTx txData).rxNumBytes = T.replies (s.wireChip T) txData := by
          rw [(FtBuffer.rx_appendTx _ _).1, ← h.replies, List.drop_left]
        simp only [Option.map_some, Option.toList_some, List.map_cons, List.map_nil, hdata]
        rfl
  · rfl

/-- Replies that come later extend the pending runs. -/
theorem Deferred.pendingRuns_extends (h : Deferred T poolStart chip s₀ s done log)
    (rx : List UInt8) :
    List.Forall₂ ObserverRun.Extends
      (s.buffer.rxObservers.map fun o => (o.copy s, (s.wireReplies T ++ rx).drop o.data))
      (s.pendingRuns T) := by
  rw [Sys.pendingRuns, List.forall₂_map_left_iff, List.forall₂_map_right_iff, List.forall₂_same]
  intro o ho
  have hle : o.data ≤ (s.wireReplies T).length := (h.data_le o ho).trans_eq h.replies.symm
  refine ⟨rfl, ?_⟩
  rw [List.drop_append_of_le_length hle]
  exact List.prefix_append _ _

/-- An append defers one more request. -/
theorem Deferred.appended (h : Deferred T poolStart chip s₀ s done log) {q : BufferRequest}
    {observer : Option (RxObserverFn × ℕ)} (hobserver : withRecord s observer = q.observer s₀)
    (hextra : ∀ extra, observer = some (.byteCopier, extra) →
      extra < s.buffer.pool.head ∨ poolStart + 128 * 1024 ≤ extra)
    (hreplies : (T.replies (s.wireChip T) q.txData).length = q.rxNumBytes)
    (htx : s.buffer.txData.length + q.txData.length ≤ 3 * chip)
    (hrx : s.buffer.rxNumBytes + q.rxNumBytes ≤ chip)
    (hfits : (s.appended q.txData observer q.rxNumBytes).buffer.pool.head ≤
      s.buffer.pool.limit) :
    Deferred T poolStart chip s₀ (s.appended q.txData observer q.rxNumBytes) (done ++ [q]) log := by
  obtain ⟨-, hlimit, -, -, -⟩ := h.frame_eq
  have hhead := head_le_appended (s := s) q.txData observer q.rxNumBytes
  have hnew : newRuns s observer q.rxNumBytes (T.replies (s.wireChip T) q.txData) =
      q.runAtOnce T s₀ (T.feed s₀.usb.chip (done.flatMap txData)) := by
    rw [newRuns, runAtOnce, hobserver, h.wireChip]
  exact
    { h.toExpecting.appended hreplies observer with
      wireChip := by
        rw [wireChip_appended, h.wireChip, ← T.feed_append, List.flatMap_append,
          List.flatMap_singleton]
      issued := by
        rw [issued_appended, h.issued, List.flatMap_append, List.flatMap_singleton,
          List.append_assoc]
      mem := h.mem
      runs := by
        rw [pendingRuns_appended h.toExpecting, runsAtOnce_concat, hnew, ← List.append_assoc]
        have hold := List.rel_append (forall₂_extends_refl log)
          (h.pendingRuns_extends (T.replies (s.wireChip T) q.txData))
        exact List.rel_append (forall₂_extends_trans hold h.runs) (forall₂_extends_refl _)
      tx_le := by
        rw [txData_appended, List.length_append]
        exact htx
      rx_le := by
        rw [rxNumBytes_appended]
        exact hrx
      data_le := by
        intro o ho
        rw [rxNumBytes_appended]
        rcases mem_observers_appended ho with ho | ⟨-, hdata⟩
        · exact (h.data_le o ho).trans (Nat.le_add_right _ _)
        · rw [hdata]
          exact Nat.le_add_right _ _
      frame := (frame_appended q.txData observer q.rxNumBytes).trans h.frame
      head := ⟨h.head.1.trans hhead, hfits.trans_eq hlimit⟩
      extras := by
        intro o ho hfn
        rcases mem_observers_appended ho with ho | ⟨hsome, -⟩
        · exact (h.extras o ho hfn).imp_left fun hlt => hlt.trans_le hhead
        · rw [hfn] at hsome
          exact (hextra o.extra hsome).imp_left fun hlt => hlt.trans_le hhead
      bitExtras := h.bitExtras
      byteExtras := h.byteExtras }

theorem Deferred.append (h : Deferred T poolStart chip s₀ s done log) {q : BufferRequest}
    (observer : Option (RxObserverFn × ℕ)) (hobserver : withRecord s observer = q.observer s₀)
    (hextra : ∀ extra, observer = some (.byteCopier, extra) →
      extra < s.buffer.pool.head ∨ poolStart + 128 * 1024 ≤ extra)
    (hreplies : (T.replies (s.wireChip T) q.txData).length = q.rxNumBytes)
    (htx : s.buffer.txData.length + q.txData.length ≤ 3 * chip)
    (hrx : s.buffer.rxNumBytes + q.rxNumBytes ≤ chip) :
    Exec.wp (ftBufferAppend q.txData observer q.rxNumBytes)
      (fun ok t => ok = true ∧ Deferred T poolStart chip s₀ t (done ++ [q]) log ∧
        t.flushes = s.flushes)
      (fun e _ => e = .oom (128 * 1024)) s := by
  obtain ⟨hstart, hlimit, hfatal, hmaxTx, hmaxRx⟩ := h.frame_eq
  have hspec := ftBufferAppend_spec (s := s) hfatal (h.head.2.trans_eq hlimit.symm)
    (fun _ : 0 < q.txData.length => by omega) observer (fun _ : 0 < q.rxNumBytes => by omega)
  refine Exec.wp_mono hspec ?_ ?_
  · rintro ok t ⟨rfl, hfits, rfl⟩
    exact ⟨rfl, h.appended hobserver hextra hreplies htx hrx hfits, rfl⟩
  · rintro e t ⟨rfl, -⟩
    rw [hlimit, hstart, Nat.add_sub_cancel_left]

/-- The record of a simple request lies where no queued record lies. -/
theorem Deferred.withByteExtra (h : Deferred T poolStart chip s₀ s done log)
    (e : ByteCopierRxObserverExtra)
    (hfits : s.buffer.pool.adjustedHead alignofRecord + sizeofByteCopierExtra ≤
      s.buffer.pool.limit) :
    Deferred T poolStart chip s₀ (s.withByteExtra e) done log := by
  obtain ⟨-, hlimit, -, -, -⟩ := h.frame_eq
  have hle : s.buffer.pool.head ≤ s.buffer.pool.adjustedHead alignofRecord :=
    TxvcMempool.head_le_adjustedHead _ _
  have hsize : 0 < sizeofByteCopierExtra := by decide
  have hcopy : ∀ o ∈ s.buffer.rxObservers, o.copy (s.withByteExtra e) = o.copy s := by
    intro o ho
    refine copy_withByteExtra e fun hfn => ?_
    rcases h.extras o ho hfn with hlt | hge
    · exact (hlt.trans_le hle).ne
    · omega
  have hpending : (s.withByteExtra e).pendingRuns T = s.pendingRuns T :=
    List.map_congr_left fun o ho => Prod.ext (hcopy o ho) rfl
  refine
    { h with
      runs := hpending.symm ▸ h.runs
      head := ⟨h.head.1.trans (hle.trans (Nat.le_add_right _ _)), hfits.trans_eq hlimit⟩
      extras := ?_
      byteExtras := ?_ }
  · intro o ho hfn
    exact (h.extras o ho hfn).imp_left fun hlt => hlt.trans_le (hle.trans (Nat.le_add_right _ _))
  · intro a ha
    have hne : a ≠ s.buffer.pool.adjustedHead alignofRecord := by
      have hstart := h.head.1
      omega
    exact (Function.update_of_ne hne _ _).trans (h.byteExtras a ha)

/-- The record of an admissible plain request is the one that the initial state has. -/
theorem Deferred.plain_record (h : Deferred T poolStart chip s₀ s done log) {txData : List UInt8}
    {observer : Option (RxObserverFn × ℕ)} {n : ℕ}
    (hq : (BufferRequest.plain txData observer n).Admissible poolStart chip) :
    withRecord s observer = withRecord s₀ observer := by
  rcases observer with _ | ⟨fn, extra⟩
  · rfl
  · cases fn with
    | bitCopier => exact congrArg (fun f => some (RxCopy.bits (f extra))) h.bitExtras
    | byteCopier =>
        exact congrArg (fun e => some (RxCopy.bytes e))
          (h.byteExtras extra (hq.outside txData extra n rfl))

/-- The step lemma: queueing a request. -/
theorem Deferred.queue (h : Deferred T poolStart chip s₀ s done log) {q : BufferRequest}
    (hq : q.Admissible poolStart chip)
    (hreplies : (T.replies (T.feed s₀.usb.chip (done.flatMap txData)) q.txData).length =
      q.rxNumBytes) :
    Exec.wp (q.queue (wire T))
      (fun ok t => ok = true ∧
        Deferred T poolStart chip s₀ t (done ++ [q]) (log ++ runsBetween (wire T) s t))
      (fun e _ => e = .oom (128 * 1024)) s := by
  obtain ⟨u, hensure, hu, htx, hrx⟩ := h.ensure hq.tx_le hq.rx_le
  have hanswer := hreplies
  rw [← hu.wireChip] at hanswer
  have hbetween : ∀ t : Sys (Wire ι), t.flushes = u.flushes →
      runsBetween (wire T) s t = runsBetween (wire T) s u := fun t ht => by
    rw [runsBetween, ht]
    rfl
  cases q with
  | plain txData observer n =>
      change Exec.wp (ftBufferEnsureCanAppend (wire T) txData.length n
        <&&> ftBufferAppend txData observer n) _ _ s
      refine (Exec.wp_bind_ok hensure).mpr ?_
      have happend := hu.append (q := .plain txData observer n) observer (hu.plain_record hq)
        (fun extra hsome => (hq.outside txData extra n (by rw [hsome])).imp_left
          fun hlt => hlt.trans_le hu.head.1) hanswer htx hrx
      refine Exec.wp_mono happend ?_ fun _ _ he => he
      rintro ok t ⟨rfl, ht, hflushes⟩
      rw [hbetween t hflushes]
      exact ⟨rfl, ht⟩
  | simple txData rxData n =>
      obtain ⟨hstart, hlimit, hfatal, -, -⟩ := hu.frame_eq
      change Exec.wp (ftBufferAddWriteToChipWithReadbackSimple (wire T) txData rxData n) _ _ s
      refine (Exec.wp_bind_ok hensure).mpr ?_
      rw [if_pos rfl, Exec.wp_bind, wp_cmdAligned hfatal (by decide)]
      split
      · have hrecord := hu.withByteExtra ⟨rxData, n⟩ ‹_›
        have happend := hrecord.append (q := .simple txData rxData n)
          (some (.byteCopier, u.buffer.pool.adjustedHead alignofRecord))
          (congrArg (fun e => some (RxCopy.bytes e)) (Function.update_self _ _ _))
          (fun extra hsome => by
            cases hsome
            exact .inl (Nat.lt_add_of_pos_right (by decide))) hanswer htx hrx
        refine Exec.wp_mono happend ?_ fun _ _ he => he
        rintro ok t ⟨rfl, ht, hflushes⟩
        rw [hbetween t hflushes]
        exact ⟨rfl, ht⟩
      · rw [hlimit, hstart, Nat.add_sub_cancel_left]

/-- The run lemma. -/
theorem Deferred.run (h : Deferred T poolStart chip s₀ s done log) (qs : List BufferRequest)
    (hqs : ∀ q ∈ qs, q.Admissible poolStart chip)
    (hanswered : Answered T (T.feed s₀.usb.chip (done.flatMap txData)) qs) :
    Exec.wp (qs.allM (BufferRequest.queue (wire T)))
      (fun ok t => ok = true ∧ ∃ log', Deferred T poolStart chip s₀ t (done ++ qs) log' ∧
        log ++ observerRuns (wire T) qs s = log' ++ t.flushRuns (wire T))
      (fun e _ => e = .oom (128 * 1024)) s := by
  induction qs generalizing s done log with
  | nil =>
      refine ⟨rfl, log, ?_, rfl⟩
      rw [List.append_nil]
      exact h
  | cons q qs ih =>
      obtain ⟨hreplies, hrest⟩ := hanswered
      rw [List.allM_cons, Exec.wp_bind]
      have hstep := Exec.wp_and (h.queue (hqs q List.mem_cons_self) hreplies)
        (Exec.wp_self (q.queue (wire T)) s)
      refine Exec.wp_mono hstep ?_ fun _ _ he => he.1
      rintro ok t ⟨⟨rfl, ht⟩, hrun⟩
      rw [if_pos rfl]
      have hrest' : Answered T (T.feed s₀.usb.chip ((done ++ [q]).flatMap txData)) qs := by
        rw [List.flatMap_append, List.flatMap_singleton, T.feed_append]
        exact hrest
      refine Exec.wp_mono (ih ht (fun q' hq' => hqs q' (List.mem_cons_of_mem _ hq')) hrest') ?_
        fun _ _ he => he
      rintro ok t' ⟨rfl, log', ht', hlog⟩
      refine ⟨rfl, log', ?_, ?_⟩
      · rw [List.append_assoc] at ht'
        exact ht'
      · rw [observerRuns, hrun, ← List.append_assoc]
        exact hlog

end Invariant

section Loopback

open BufferRequest

end Loopback

end TinyXvc
