import TinyXvc.FtdiGeneric.Lists

/-!
# The command buffer in memory refines its lists

The buffer as it lies in memory, with its linked nodes, does what the buffer of
lists does: after any calls, and whatever the D2XX library answers, both have
returned the same, asked the library for the same, and left the same in the memory
of the driver.
-/

namespace TinyXvc

namespace Cells

open Exec LinkedList

variable {τ : Type} {io : D2xx τ} {chip : ℕ} {ns : List ℕ} {s : State τ} {t : Sys τ}

/-! ## Allocations -/

/-- The state after a block was cut off the pool. -/
def State.cut (s : State τ) (addr size align : ℕ) : State τ :=
  { s with
    cmdBuffer := { s.cmdBuffer with pool := s.cmdBuffer.pool.cut addr size }
    blocks := s.blocks ++ [⟨addr, size, align⟩] }

theorem SameEffects.endedOom (h : SameEffects s t) (poolBytes : ℕ) :
    EndedOom (.oom poolBytes) s t :=
  ⟨⟨poolBytes, rfl⟩, h⟩

section Allocations

variable {f : TxvcMempool → Prog τ (Option ℕ × TxvcMempool)}
  {g : TxvcMempool → TinyXvc.Prog τ (Option ℕ × TxvcMempool)}
  {Q : Option ℕ → State τ → Sys τ → Prop}

/-- Both cut the same block off their pools, or neither has room for it. -/
theorem alloc_refines (h : Shows ns s t) {size align addr : ℕ}
    (hcases : (f s.cmdBuffer.pool s = .ok ((some addr, s.cmdBuffer.pool.cut addr size), s) ∧
        g s.cmdBuffer.pool t = .ok ((some addr, s.cmdBuffer.pool.cut addr size), t)) ∨
      ∃ n, f s.cmdBuffer.pool s = .error (.oom n, s) ∧ g s.cmdBuffer.pool t = .error (.oom n, t))
    (hQ : ∀ t', Shows ns (s.cut addr size align) t' → Q (some addr) (s.cut addr size align) t') :
    both (Cells.alloc f size align) (allocCmd g) Q EndedOom s t := by
  have hpool : t.buffer.pool = s.cmdBuffer.pool := by
    rw [h.lists]
    rfl
  unfold Cells.alloc allocCmd
  apply both_left (show cmdBuffer s = .ok (s.cmdBuffer, s) from rfl)
  apply both_right (show TinyXvc.cmdBuffer t = .ok (t.buffer, t) from rfl)
  rw [hpool]
  rcases hcases with ⟨hf, hg⟩ | ⟨n, hf, hg⟩
  · apply both_left hf
    apply both_right hg
    refine both_ok rfl rfl (hQ _ ⟨?_, { h.effects with }⟩)
    change { t.buffer with pool := s.cmdBuffer.pool.cut addr size } = _
    rw [h.lists]
    rfl
  · unfold both
    rw [bind_error hf, bind_error hg]
    exact .abort _ (h.effects.endedOom n)

theorem allocUnaligned_refines (h : Shows ns s t) (hfatal : s.cmdBuffer.pool.fatalOom = true)
    {size : ℕ} (hsize : 0 < size)
    (hQ : ∀ t', Shows ns (s.cut s.cmdBuffer.pool.head size 1) t' →
      Q (some s.cmdBuffer.pool.head) (s.cut s.cmdBuffer.pool.head size 1) t') :
    both (allocUnaligned size) (allocCmd fun pool => txvcMempoolAllocUnaligned pool size) Q EndedOom
      s t := by
  apply alloc_refines h _ hQ
  unfold txvcMempoolAllocUnaligned txvcMempoolOom
  by_cases hfits : s.cmdBuffer.pool.head + size ≤ s.cmdBuffer.pool.limit
  · left
    simp only [if_neg hsize.ne', if_pos hfits]
    exact ⟨rfl, rfl⟩
  · right
    simp only [if_neg hsize.ne', if_neg hfits, if_pos hfatal]
    exact ⟨_, rfl, rfl⟩

theorem allocObject_refines (h : Shows ns s t) (hfatal : s.cmdBuffer.pool.fatalOom = true)
    {size : ℕ} (hsize : 0 < size)
    (hQ : ∀ t',
      Shows ns (s.cut (s.cmdBuffer.pool.adjustedHead alignofRecord) size alignofRecord) t' →
      Q (some (s.cmdBuffer.pool.adjustedHead alignofRecord))
        (s.cut (s.cmdBuffer.pool.adjustedHead alignofRecord) size alignofRecord) t') :
    both (allocObject size)
      (allocCmd fun pool => txvcMempoolAllocAligned pool size alignofRecord) Q EndedOom s t := by
  have hpow : (alignofRecord &&& (alignofRecord - 1) == 0) = true := by decide
  have hsome : ¬(size = 0 ∨ alignofRecord = 0) := by
    rintro (hzero | hzero)
    · omega
    · exact absurd hzero (by decide)
  apply alloc_refines h _ hQ
  unfold txvcMempoolAllocAligned txvcMempoolOom
  by_cases hfits :
      s.cmdBuffer.pool.adjustedHead alignofRecord + size ≤ s.cmdBuffer.pool.limit
  · left
    simp only [if_neg hsome, hpow, alwaysAssert_true, pure_bind, if_pos hfits]
    exact ⟨rfl, rfl⟩
  · right
    simp only [if_neg hsome, hpow, alwaysAssert_true, pure_bind, if_neg hfits, if_pos hfatal]
    exact ⟨_, rfl, rfl⟩

end Allocations

/-! ## Appends -/

theorem memcpyTx_refines (h : Shows ns s t) {p : ℕ} (htx : s.cmdBuffer.txBuffer = some p)
    (txData : List UInt8) :
    both (do
        memcpyTx txData
        modifyCmdBuffer fun b => { b with txNumBytes := b.txNumBytes + txData.length })
      (TinyXvc.modifyCmdBuffer fun b => { b with txData := b.txData ++ txData })
      (fun _ s' t' => Shows ns s' t') EndedOom s t := by
  refine both_ok (memcpyTx_eq htx txData) rfl ⟨?_, { h.effects with }⟩
  have hconcat := readBytes_concat s.bytes p s.cmdBuffer.txNumBytes txData
  change { t.buffer with txData := t.buffer.txData ++ txData } =
    State.lists (s.txCopied p txData) ns
  rw [h.lists]
  unfold State.lists State.txCopied
  dsimp only
  rw [htx, Option.elim_some, Option.elim_some, hconcat]
  rfl

/-- A new TX buffer is empty. -/
theorem Shows.newTx (h : Shows ns s t) (hzero : s.cmdBuffer.txNumBytes = 0)
    (htx : s.cmdBuffer.txBuffer = none) (p : ℕ) :
    Shows ns { s with cmdBuffer := { s.cmdBuffer with txBuffer := some p } }
      (t.setBuffer { t.buffer with txBuffer := some p }) := by
  refine ⟨?_, { h.effects with }⟩
  change { t.buffer with txBuffer := some p } = _
  rw [h.lists]
  unfold State.lists
  dsimp only
  rw [hzero, htx]
  rfl

theorem appendTx_refines (h : Represents chip ns s t) {txData : List UInt8}
    (hfits : s.cmdBuffer.txNumBytes + txData.length ≤ s.cmdBuffer.maxTxBufferBytes) :
    both (ftBufferAppendTx txData) (TinyXvc.ftBufferAppendTx txData)
      (fun _ s' t' => Represents chip ns s' t' ∧ s'.cmdBuffer.rxNumBytes = s.cmdBuffer.rxNumBytes)
      EndedOom s t := by
  have hboth : both (ftBufferAppendTx txData) (TinyXvc.ftBufferAppendTx txData)
      (fun _ s' t' => Shows ns s' t') EndedOom s t := by
    unfold ftBufferAppendTx TinyXvc.ftBufferAppendTx
    by_cases hlen : txData.length > 0
    · rw [if_pos hlen, if_pos hlen]
      apply both_left (show cmdBuffer s = .ok (s.cmdBuffer, s) from rfl)
      apply both_right (show TinyXvc.cmdBuffer t = .ok (t.buffer, t) from rfl)
      have htx' : t.buffer.txBuffer = s.cmdBuffer.txBuffer := by
        rw [h.lists]
        rfl
      have hmax : t.buffer.maxTxBufferBytes = s.cmdBuffer.maxTxBufferBytes := by
        rw [h.lists]
        rfl
      rw [htx', hmax]
      cases htx : s.cmdBuffer.txBuffer with
      | none =>
          rw [Option.isNone_none, if_pos rfl, if_pos rfl]
          apply both_bind
          refine allocUnaligned_refines h.toShows h.formed.fatalOom (by omega) fun t' h' => ?_
          apply both_left (show modifyCmdBuffer _ _ = .ok ((), _) from rfl)
          apply both_right (show TinyXvc.modifyCmdBuffer _ _ = .ok ((), _) from rfl)
          exact memcpyTx_refines (h'.newTx (h.formed.tx_null.mp htx) htx _) rfl txData
      | some p =>
          rw [Option.isNone_some, if_neg Bool.false_ne_true, if_neg Bool.false_ne_true]
          exact memcpyTx_refines h.toShows htx txData
    · rw [if_neg hlen, if_neg hlen]
      exact both_pure h.toShows
  refine both_mono (both_wp hboth (wp_mono (appendTx_invariant h.formed hfits) (fun _ _ hq => hq)
    fun _ _ _ => trivial)) ?_ fun _ _ _ he => he
  rintro - s' t' ⟨hshows, hformed, hsame⟩
  exact ⟨⟨hshows, hformed⟩, hsame⟩

/-- What a node holds besides its link. -/
def RxObserverNode.payload (o : RxObserverNode) : RxObserverFn × ℕ × ℕ := (o.fn, o.data, o.extra)

theorem observer_congr {u : State τ} {node : ℕ}
    (hnode : (u.nodes node).payload = (s.nodes node).payload)
    (hrx : u.cmdBuffer.rxBuffer = s.cmdBuffer.rxBuffer) : u.observer node = s.observer node := by
  obtain ⟨hfn, hdata, hextra⟩ : (u.nodes node).fn = (s.nodes node).fn ∧
      (u.nodes node).data = (s.nodes node).data ∧ (u.nodes node).extra = (s.nodes node).extra :=
    ⟨congrArg Prod.fst hnode, congrArg (fun x => x.2.1) hnode, congrArg (fun x => x.2.2) hnode⟩
  unfold State.observer
  rw [hfn, hdata, hextra, hrx]

/-- A link does not change what the nodes hold. -/
theorem payload_linked (nodes : ℕ → RxObserverNode) (o : RxObserverNode) (last : ℕ) {node c : ℕ}
    (hc : c ≠ node) :
    (Function.update (Function.update nodes node o) last
      { Function.update nodes node o last with next := some node } c).payload =
      (nodes c).payload := by
  by_cases hlast : c = last
  · subst hlast
    rw [Function.update_self, Function.update_of_ne hc]
    rfl
  · rw [Function.update_of_ne hlast, Function.update_of_ne hc]

/-- The new node stands for a new observer. -/
theorem Shows.withNode {node p n : ℕ} {fn : RxObserverFn} {extra : ℕ} {first : Option ℕ}
    {nodes : ℕ → RxObserverNode}
    (h : Shows ns (s.cut node sizeofRxObserverNode alignofRecord) t)
    (hrx : s.cmdBuffer.rxBuffer = some p)
    (hold : ∀ c ∈ ns, (nodes c).payload = (s.nodes c).payload)
    (hnew : (nodes node).payload = (fn, p + s.cmdBuffer.rxNumBytes, extra)) :
    Shows (ns ++ [node]) (s.withNode nodes first node n)
      (t.setBuffer { t.buffer with
        rxObservers := t.buffer.rxObservers ++ [⟨node, fn, t.buffer.rxNumBytes, extra⟩]
        rxNumBytes := t.buffer.rxNumBytes + n }) := by
  refine ⟨?_, { h.effects with }⟩
  have hobservers : (ns ++ [node]).map (s.withNode nodes first node n).observer =
      ns.map s.observer ++ [⟨node, fn, s.cmdBuffer.rxNumBytes, extra⟩] := by
    rw [List.map_append, List.map_singleton]
    congr 1
    · exact List.map_congr_left fun c hc => observer_congr (hold c hc) rfl
    · obtain ⟨hfn, hdata, hextra⟩ : (nodes node).fn = fn ∧
          (nodes node).data = p + s.cmdBuffer.rxNumBytes ∧ (nodes node).extra = extra :=
        ⟨congrArg Prod.fst hnew, congrArg (fun x => x.2.1) hnew, congrArg (fun x => x.2.2) hnew⟩
      unfold State.observer State.withNode
      dsimp only
      rw [hfn, hdata, hextra, hrx, Option.getD_some, Nat.add_sub_cancel_left]
  change { t.buffer with
    rxObservers := t.buffer.rxObservers ++ [⟨node, fn, t.buffer.rxNumBytes, extra⟩]
    rxNumBytes := t.buffer.rxNumBytes + n } =
      State.lists (s.withNode nodes first node n) (ns ++ [node])
  unfold State.lists
  rw [hobservers, h.lists]
  rfl

theorem addReplies_refines (h : Laid chip s ns) (hshows : Shows ns s t) {p n : ℕ}
    (hrx : s.cmdBuffer.rxBuffer = some p) (hn : 0 < n)
    (hfits : s.cmdBuffer.rxNumBytes + n ≤ s.cmdBuffer.maxRxBufferBytes) (fn : RxObserverFn)
    (extra : ℕ) :
    both (do
        ftBufferAddObserver (some (fn, extra)) n
        modifyCmdBuffer fun b => { b with rxNumBytes := b.rxNumBytes + n })
      (do
        TinyXvc.ftBufferAddObserver (some (fn, extra))
        TinyXvc.modifyCmdBuffer fun b => { b with rxNumBytes := b.rxNumBytes + n })
      (fun _ s' t' => ∃ ns', Represents chip ns' s' t') EndedOom s t := by
  have hhead := s.cmdBuffer.pool.head_le_adjustedHead alignofRecord
  unfold ftBufferAddObserver addNode TinyXvc.ftBufferAddObserver
  dsimp only
  rw [bind_assoc, bind_assoc]
  apply both_bind
  refine allocObject_refines hshows h.fatalOom (by decide) fun t' hcut => ?_
  generalize s.cmdBuffer.pool.adjustedHead alignofRecord = node at hhead hcut
  have hfresh : ∀ a ∈ ns, a ≠ node := by
    rintro a ha rfl
    have hlt := h.node_below ha
    simp only [sizeofRxObserverNode] at hlt
    omega
  have hrxDeref : (deref s.cmdBuffer.rxBuffer : Prog τ ℕ) = pure p := by
    rw [hrx]
    rfl
  refine both_of_right (u := t'.setBuffer { t'.buffer with
    rxObservers := t'.buffer.rxObservers ++ [⟨node, fn, t'.buffer.rxNumBytes, extra⟩]
    rxNumBytes := t'.buffer.rxNumBytes + n }) rfl ?_
  simp only [deref_some, cmdBuffer, modifyCmdBuffer, wp_bind, wp_get, wp_pure, State.cut, hrxDeref,
    wp_modify, true_and]
  rcases ns.eq_nil_or_concat' with rfl | ⟨ms, last, rfl⟩
  · -- the first node
    have hfirst : s.cmdBuffer.rxObserverFirst.isNone = true := by
      rw [h.links.eq_none_iff.mpr rfl]
      rfl
    have hself : Function.update s.nodes node ⟨none, fn, p + s.cmdBuffer.rxNumBytes, extra⟩ node =
        ⟨none, fn, p + s.cmdBuffer.rxNumBytes, extra⟩ := Function.update_self _ _ _
    rw [if_pos hfirst, wp_modify]
    exact ⟨_, hcut.withNode hrx (List.forall_mem_nil _) (congrArg RxObserverNode.payload hself),
      h.withNode hrx hn hfits hhead ⟨rfl, congrArg RxObserverNode.next hself⟩
        (List.forall_mem_nil _) (congrArg RxObserverNode.data hself)⟩
  · -- a node behind the last one
    have hfirst : ¬s.cmdBuffer.rxObserverFirst.isNone = true := by
      rw [Option.isNone_iff_eq_none, h.links.eq_none_iff]
      simp
    have hlast : (deref s.cmdBuffer.rxObserverLast : Prog τ ℕ) = pure last := by
      rw [h.last, List.getLast?_concat]
      rfl
    have hne : last ≠ node := hfresh last (by simp)
    rw [if_neg hfirst, wp_bind, hlast, wp_pure, wp_bind, wp_modify, wp_modify]
    obtain ⟨hnext, hdata, hnew, hrest⟩ := linkBehind_spec s.nodes hne
      ⟨none, fn, p + s.cmdBuffer.rxNumBytes, extra⟩
    have hmem : ∀ c ∈ ms, c ≠ last := fun c hc heq =>
      List.disjoint_of_nodup_append h.nodup hc (heq ▸ List.mem_singleton_self last)
    have hold : ∀ c ∈ ms, c ≠ node := fun c hc => hfresh c (List.mem_append_left _ hc)
    have hpayload := fun c (hc : c ∈ ms ++ [last]) => payload_linked s.nodes
      ⟨none, fn, p + s.cmdBuffer.rxNumBytes, extra⟩ last (hfresh c hc)
    refine ⟨_, hcut.withNode hrx hpayload (congrArg RxObserverNode.payload hnew),
      h.withNode hrx hn hfits hhead ?_ (fun c hc => congrArg (fun x => x.2.1) (hpayload c hc))
        (congrArg RxObserverNode.data hnew)⟩
    rw [List.append_assoc]
    exact h.links.snoc
      (fun c hc => congrArg RxObserverNode.next (hrest c (hmem c hc) (hold c hc))) hnext
      (congrArg RxObserverNode.next hnew)

theorem appendRx_refines (h : Represents chip ns s t) {observer : Option (RxObserverFn × ℕ)}
    {n : ℕ} (hobserver : 0 < n → observer.isSome = true)
    (hfits : s.cmdBuffer.rxNumBytes + n ≤ s.cmdBuffer.maxRxBufferBytes) :
    both (ftBufferAppendRx observer n) (TinyXvc.ftBufferAppendRx observer n)
      (fun _ s' t' => ∃ ns', Represents chip ns' s' t') EndedOom s t := by
  unfold ftBufferAppendRx TinyXvc.ftBufferAppendRx
  by_cases hn : n > 0
  · obtain ⟨⟨fn, extra⟩, rfl⟩ := Option.isSome_iff_exists.mp (hobserver hn)
    have hrx' : t.buffer.rxBuffer = s.cmdBuffer.rxBuffer := by
      rw [h.lists]
      rfl
    have hmax : t.buffer.maxRxBufferBytes = s.cmdBuffer.maxRxBufferBytes := by
      rw [h.lists]
      rfl
    rw [if_pos hn, if_pos hn]
    apply both_left (show cmdBuffer s = .ok (s.cmdBuffer, s) from rfl)
    apply both_right (show TinyXvc.cmdBuffer t = .ok (t.buffer, t) from rfl)
    rw [hrx', hmax]
    cases hrx : s.cmdBuffer.rxBuffer with
    | none =>
        obtain ⟨rfl, hlaid⟩ := h.formed.newRx hrx
        rw [Option.isNone_none, if_pos rfl, if_pos rfl]
        apply both_bind
        refine allocUnaligned_refines h.toShows h.formed.fatalOom (by omega) fun t' h' => ?_
        apply both_left (show modifyCmdBuffer _ _ = .ok ((), _) from rfl)
        apply both_right (show TinyXvc.modifyCmdBuffer _ _ = .ok ((), _) from rfl)
        have hshows : Shows [] s.withRxBuffer
            (t'.setBuffer { t'.buffer with rxBuffer := some s.cmdBuffer.pool.head }) := by
          refine ⟨?_, { h'.effects with }⟩
          change { t'.buffer with rxBuffer := some s.cmdBuffer.pool.head } = _
          rw [h'.lists]
          rfl
        exact addReplies_refines hlaid hshows rfl hn hfits fn extra
    | some p =>
        rw [Option.isNone_some, if_neg Bool.false_ne_true, if_neg Bool.false_ne_true]
        exact addReplies_refines h.formed.toLaid h.toShows hrx hn hfits fn extra
  · rw [if_neg hn, if_neg hn]
    exact both_pure ⟨ns, h⟩

theorem append_refines (h : Represents chip ns s t) {txData : List UInt8}
    {observer : Option (RxObserverFn × ℕ)} {n : ℕ} (hobserver : 0 < n → observer.isSome = true)
    (htx : s.cmdBuffer.txNumBytes + txData.length ≤ s.cmdBuffer.maxTxBufferBytes)
    (hrx : s.cmdBuffer.rxNumBytes + n ≤ s.cmdBuffer.maxRxBufferBytes) :
    both (ftBufferAppend txData observer n) (TinyXvc.ftBufferAppend txData observer n)
      (fun _ s' t' => ∃ ns', Represents chip ns' s' t') EndedOom s t := by
  unfold ftBufferAppend TinyXvc.ftBufferAppend
  apply both_bind
  refine both_mono (appendTx_refines h htx) ?_ fun _ _ _ he => he
  rintro _ s₁ t₁ ⟨h₁, hsame⟩
  have hrx₁ : s₁.cmdBuffer.rxNumBytes + n ≤ s₁.cmdBuffer.maxRxBufferBytes := by
    rw [hsame, h₁.formed.maxRx, ← h.formed.maxRx]
    exact hrx
  apply both_bind
  refine both_mono (appendRx_refines h₁ hobserver hrx₁) ?_ fun _ _ _ he => he
  rintro _ s₂ t₂ ⟨ns', h₂⟩
  exact both_ok rfl rfl ⟨ns', ⟨h₂.lists, { h₂.effects with }⟩, h₂.formed⟩

/-! ## Calls -/

/-- The call on the buffer of lists. -/
def Call.onLists (io : D2xx τ) : Call → TinyXvc.Prog τ Bool
  | add txData observer rxNumBytes =>
      TinyXvc.ftBufferAddWriteToChipWithReadback io txData observer rxNumBytes
  | addSimple txData rxData rxNumBytes =>
      TinyXvc.ftBufferAddWriteToChipWithReadbackSimple io txData rxData rxNumBytes
  | flush => TinyXvc.ftBufferFlush io

theorem perform_refines (h : Represents chip ns s t) {call : Call} (hcall : call.Admissible chip) :
    both (call.perform io) (call.onLists io) (fun _ s' t' => ∃ ns', Represents chip ns' s' t')
      EndedOom s t := by
  cases call with
  | add txData observer n =>
      obtain ⟨htx, hrx, hobserver⟩ := hcall
      change both (ftBufferAddWriteToChipWithReadback io txData observer n)
        (TinyXvc.ftBufferAddWriteToChipWithReadback io txData observer n) _ _ s t
      unfold ftBufferAddWriteToChipWithReadback TinyXvc.ftBufferAddWriteToChipWithReadback andM
      apply both_bind
      refine both_mono (ensure_refines h htx hrx) ?_ fun _ _ _ he => he
      rintro (_ | _) s' t' ⟨ns', h', hroom⟩
      · exact both_pure ⟨ns', h'⟩
      · exact append_refines h' hobserver (hroom rfl).1 (hroom rfl).2
  | addSimple txData rxData n =>
      obtain ⟨htx, hrx⟩ := hcall
      change both (ftBufferAddWriteToChipWithReadbackSimple io txData rxData n)
        (TinyXvc.ftBufferAddWriteToChipWithReadbackSimple io txData rxData n) _ _ s t
      unfold ftBufferAddWriteToChipWithReadbackSimple
        TinyXvc.ftBufferAddWriteToChipWithReadbackSimple
      apply both_bind
      refine both_mono (ensure_refines h htx hrx) ?_ fun _ _ _ he => he
      rintro (_ | _) s₁ t₁ ⟨ns', h₁, hroom⟩
      · exact both_pure ⟨ns', h₁⟩
      · rw [if_pos rfl, if_pos rfl]
        apply both_bind
        refine allocObject_refines h₁.toShows h₁.formed.fatalOom (by decide) fun t₂ h₂ => ?_
        have hhead := s₁.cmdBuffer.pool.head_le_adjustedHead alignofRecord
        generalize s₁.cmdBuffer.pool.adjustedHead alignofRecord = e at h₂ hhead
        apply both_left (show deref (some e) _ = .ok (e, _) from rfl)
        apply both_right (show TinyXvc.deref (some e) _ = .ok (e, _) from rfl)
        apply both_left rfl
        apply both_right rfl
        -- the record is stored in both, at the same address
        have h₃ : Represents chip ns'
            { s₁.cut e sizeofByteCopierExtra alignofRecord with
              byteExtras := Function.update s₁.byteExtras e ⟨rxData, n⟩ }
            { t₂ with byteExtras := Function.update t₂.byteExtras e ⟨rxData, n⟩ } := by
          refine ⟨⟨h₂.lists, { h₂.effects with byteExtras := ?_ }⟩, ?_⟩
          · exact congrArg (fun x => Function.update x e ⟨rxData, n⟩) h₂.effects.byteExtras
          · exact { h₁.formed with
              allocated := fun b hb => List.mem_append_left _ (h₁.formed.allocated b hb)
              below := below_concat h₁.formed.below hhead }
        exact append_refines h₃ (fun _ => rfl) (hroom rfl).1 (hroom rfl).2
  | flush =>
      refine both_mono (flush_refines h) ?_ fun _ _ _ he => he
      rintro (_ | _) s' t' h'
      · exact ⟨ns, h'⟩
      · exact ⟨[], h'.1⟩

/-! ## Runs -/

/-- What the driver does with its buffer: calls, and stores of its own to the memory
and to the records of the bit copiers. -/
inductive Step where
  | call (c : Call)
  | bitExtra (addr : ℕ) (e : BitCopierRxObserverExtra)
  | memory (m : Mem)

/-- The calls have the sizes and observers that the buffer demands. -/
def Step.Admissible (chipBufferBytes : ℕ) : Step → Prop
  | call c => c.Admissible chipBufferBytes
  | bitExtra _ _ => True
  | memory _ => True

/-- A step on the buffer in memory; stores succeed. -/
def Step.perform (io : D2xx τ) : Step → Prog τ Bool
  | call c => c.perform io
  | bitExtra addr e => do
      modify fun s => { s with bitExtras := Function.update s.bitExtras addr e }
      pure true
  | memory m => do
      modify fun s => { s with mem := m }
      pure true

/-- A step on the buffer of lists. -/
def Step.onLists (io : D2xx τ) : Step → TinyXvc.Prog τ Bool
  | call c => c.onLists io
  | bitExtra addr e => do
      modify fun s => { s with bitExtras := Function.update s.bitExtras addr e }
      pure true
  | memory m => do
      modify fun s => { s with mem := m }
      pure true

theorem step_refines (h : Represents chip ns s t) {step : Step} (hstep : step.Admissible chip) :
    both (step.perform io) (step.onLists io) (fun _ s' t' => ∃ ns', Represents chip ns' s' t')
      EndedOom s t := by
  cases step with
  | call c => exact perform_refines h hstep
  | bitExtra addr e =>
      refine both_ok rfl rfl ⟨ns, ⟨h.lists, { h.effects with bitExtras := ?_ }⟩, { h.formed with }⟩
      exact congrArg (fun x => Function.update x addr e) h.effects.bitExtras
  | memory m =>
      exact both_ok rfl rfl ⟨ns, ⟨h.lists, { h.effects with mem := rfl }⟩, { h.formed with }⟩

/-- A driver whose buffer was just initialised, over the same outside. -/
structure Starts (poolStart chip : ℕ) (s : State τ) (t : Sys τ) : Prop where
  initial : s.Initial poolStart chip
  buffer : t.buffer = TinyXvc.ftBufferInit poolStart chip
  effects : SameEffects s t

theorem Starts.represents {poolStart : ℕ} (h : Starts poolStart chip s t) :
    Represents chip [] s t := by
  refine ⟨⟨?_, h.effects⟩, h.initial.wellFormed⟩
  rw [h.buffer, State.lists, h.initial.cmdBuffer]
  rfl

/-- Whatever the driver does with its buffer and however the D2XX calls end, the
buffer in memory and the buffer of lists return the same, make the same D2XX calls
and store the same replies; or both run out of pool space at the same point. -/
theorem buffer_refines_lists (io : D2xx τ) {poolStart : ℕ} (h : Starts poolStart chip s t)
    {steps : List Step} (hsteps : ∀ step ∈ steps, step.Admissible chip) :
    EndTogether (fun _ s' t' => ∃ ns, Represents chip ns s' t') EndedOom
      (steps.mapM (Step.perform io) s) (steps.mapM (Step.onLists io) t) := by
  have hkeep : ∀ step ∈ steps, ∀ s t, (∃ ns, Represents chip ns s t) →
      both (step.perform io) (step.onLists io) (fun _ s' t' => ∃ ns, Represents chip ns s' t')
        EndedOom s t := by
    rintro step hmem s t ⟨ns, hns⟩
    exact step_refines hns (hsteps step hmem)
  exact both_mapM hkeep ⟨[], h.represents⟩

/-- A driver that has just initialised the buffer. -/
def initialSys : Sys Unit :=
  initialState.sys [] ⟨1024, true, ⟨.testLogicReset⟩, false, txvcMempoolInit 0 0,
    TinyXvc.ftBufferInit 0 0⟩ [] []

/-- The sync check on a chip that is silent, and a bit command behind it. -/
theorem buffer_refines_lists_deaf :
    let steps := [Step.call (.addSimple [0xab] ⟨.resp, 0⟩ 2), .call .flush,
      .bitExtra 0 ⟨7, ⟨.vector 0, 0⟩, 0, 1⟩, .call (.add [1, 2, 3] (some (.bitCopier, 0)) 1)]
    EndTogether (fun _ s' t' => ∃ ns, Represents 1024 ns s' t') EndedOom
      (steps.mapM (Step.perform deafD2xx) initialState)
      (steps.mapM (Step.onLists deafD2xx) initialSys) := by
  have hstart : Starts 0x1000 1024 initialState initialSys :=
    ⟨⟨rfl, rfl, rfl, rfl⟩, rfl, rfl, rfl, rfl, rfl, rfl⟩
  refine buffer_refines_lists deafD2xx hstart ?_
  simp [Step.Admissible, Call.Admissible]

end Cells

end TinyXvc
