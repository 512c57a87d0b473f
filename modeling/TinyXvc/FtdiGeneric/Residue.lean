import TinyXvc.FtdiGeneric.Append

/-!
# What an operation leaves in the command buffer

Over any transport: an accepted request has transferred in full whatever it
transferred, and a refused one ends with the D2XX call that did not, with data
still queued.  So an operation leaves an empty buffer exactly if its last D2XX
call transferred everything.
-/

namespace TinyXvc

/-- The buffer is as `ft_buffer_init` made it. -/
structure FtBuffer.Empty (b : FtBuffer) : Prop where
  txBuffer : b.txBuffer = none
  txData : b.txData = []
  rxBuffer : b.rxBuffer = none
  rxNumBytes : b.rxNumBytes = 0
  rxObservers : b.rxObservers = []
  head : b.pool.head = b.pool.start

variable {τ : Type}

/-- What no operation breaks. -/
structure Sound (s : Sys τ) : Prop where
  tx : s.buffer.txBuffer = none → s.buffer.txData = []
  rx : s.buffer.rxBuffer = none → s.buffer.rxNumBytes = 0 ∧ s.buffer.rxObservers = []
  fatal : s.buffer.pool.fatalOom = true
  start : s.buffer.pool.start ≤ s.buffer.pool.limit
  head : s.buffer.pool.head ≤ s.buffer.pool.limit
  maxTx : 0 < s.buffer.maxTxBufferBytes
  maxRx : 0 < s.buffer.maxRxBufferBytes
  chip : 0 < s.gFtdi.chipBufferBytes

def Pending (s : Sys τ) : Prop := s.buffer.txBuffer.isSome = true ∨ s.buffer.rxBuffer.isSome = true

theorem not_pending_of_empty {s : Sys τ} (h : s.buffer.Empty) : ¬ Pending s := by
  rintro (htx | hrx)
  · rw [h.txBuffer] at htx
    cases htx
  · rw [h.rxBuffer] at hrx
    cases hrx

/-- The way from `s` to `s'` transferred everything it transferred. -/
def Accepted (s s' : Sys τ) : Prop :=
  Sound s' ∧ ∃ cs : List D2xxCall, s'.calls = s.calls ++ cs ∧ (∀ c ∈ cs, c.inFull = true) ∧
    (cs = [] → Pending s → Pending s')

/-- The bytes that a call is to send. -/
def D2xxCall.offered : D2xxCall → List UInt8
  | .write data _ => data
  | .read _ _ => []

/-- The way from `s` to `s'` ended at the first call that did not transfer everything; what
it was to send is still queued. -/
def Refused (s s' : Sys τ) : Prop :=
  Sound s' ∧ Pending s' ∧ ∃ (cs : List D2xxCall) (c : D2xxCall),
    s'.calls = s.calls ++ (cs ++ [c]) ∧ (∀ d ∈ cs, d.inFull = true) ∧ c.inFull = false ∧
      s'.buffer.txData = c.offered

theorem Accepted.refl {s : Sys τ} (h : Sound s) : Accepted s s :=
  ⟨h, [], (List.append_nil _).symm, List.forall_mem_nil _, fun _ hp => hp⟩

theorem Accepted.trans {s t u : Sys τ} (h : Accepted s t) (h' : Accepted t u) : Accepted s u := by
  obtain ⟨-, cs, hcalls, hfull, hkeep⟩ := h
  obtain ⟨hsound, cs', hcalls', hfull', hkeep'⟩ := h'
  refine ⟨hsound, cs ++ cs', ?_, ?_, ?_⟩
  · rw [hcalls', hcalls, List.append_assoc]
  · intro c hc
    rcases List.mem_append.mp hc with hc | hc
    · exact hfull c hc
    · exact hfull' c hc
  · intro hnil hp
    obtain ⟨rfl, rfl⟩ := List.append_eq_nil_iff.mp hnil
    exact hkeep' rfl (hkeep rfl hp)

theorem Accepted.trans_refused {s t u : Sys τ} (h : Accepted s t) (h' : Refused t u) :
    Refused s u := by
  obtain ⟨-, cs, hcalls, hfull, -⟩ := h
  obtain ⟨hsound, hpending, cs', c, hcalls', hfull', hc⟩ := h'
  refine ⟨hsound, hpending, cs ++ cs', c, ?_, ?_, hc⟩
  · rw [hcalls', hcalls]
    simp only [List.append_assoc]
  · intro d hd
    rcases List.mem_append.mp hd with hd | hd
    · exact hfull d hd
    · exact hfull' d hd

/-- A program that accepts or refuses as its D2XX calls do. -/
def Faithful (x : Prog τ Bool) : Prop :=
  ∀ s, Sound s → Exec.wp x (fun ok s' => if ok then Accepted s s' else Refused s s')
    (fun _ _ => True) s

namespace Faithful

theorem pure_true : Faithful (pure true : Prog τ Bool) := fun _ hs => Accepted.refl hs

theorem bind {x : Prog τ Bool} {f : Bool → Prog τ Bool} (hx : Faithful x)
    (hfalse : ∀ s, f false s = .ok (false, s)) (htrue : Faithful (f true)) :
    Faithful (x >>= f) := by
  intro s hs
  rw [Exec.wp_bind]
  refine Exec.wp_mono (hx s hs) ?_ (fun _ _ _ => trivial)
  rintro ok t ht
  cases ok with
  | false => exact Exec.wp_of_ok (hfalse t) ht
  | true =>
      refine Exec.wp_mono (htrue t ht.1) ?_ (fun _ _ _ => trivial)
      rintro ok u hu
      cases ok with
      | false => exact Accepted.trans_refused ht hu
      | true => exact Accepted.trans ht hu

theorem andM {x y : Prog τ Bool} (hx : Faithful x) (hy : Faithful y) : Faithful (x <&&> y) :=
  hx.bind (fun _ => rfl) hy

theorem allM {α : Type} {f : α → Prog τ Bool} (h : ∀ a, Faithful (f a)) (as : List α) :
    Faithful (as.allM f) := by
  induction as with
  | nil => exact pure_true
  | cons a as ih =>
      rw [List.allM_cons]
      exact (h a).bind (fun _ => rfl) ih

end Faithful

section Requests

variable {io : D2xx τ}

variable (io) in
theorem flushTx_spec {s : Sys τ} (hs : Sound s) :
    Exec.wp (ftBufferFlushTx io)
      (fun ok s' => if ok then Sound s' ∧ s'.buffer.txBuffer = none ∧
          s'.buffer.rxBuffer = s.buffer.rxBuffer ∧
          ∃ cs : List D2xxCall, s'.calls = s.calls ++ cs ∧ (∀ c ∈ cs, c.inFull = true) ∧
            (cs = [] → s.buffer.txBuffer = none)
        else Refused s s') (fun _ _ => True) s := by
  cases htx : s.buffer.txBuffer with
  | none =>
      refine Exec.wp_of_ok (flushTx_none htx) ?_
      exact ⟨hs, htx, rfl, [], (List.append_nil _).symm, List.forall_mem_nil _, fun _ => rfl⟩
  | some p =>
      have hsome : s.buffer.txBuffer.isSome = true := by rw [htx]; rfl
      rw [Exec.wp, flushTx_some hsome]
      by_cases hfull : (D2xxCall.write s.buffer.txData (s.writeReply io)).inFull = true
      · rw [if_pos hfull]
        refine ⟨{ hs with tx := fun _ => rfl }, rfl, rfl, [_], rfl, ?_,
          fun hnil => absurd hnil (List.cons_ne_nil _ _)⟩
        intro c hc
        rw [List.mem_singleton.mp hc]
        exact hfull
      · rw [if_neg hfull]
        exact ⟨{ hs with }, Or.inl hsome, [], _, rfl, List.forall_mem_nil _,
          Bool.eq_false_of_not_eq_true hfull, rfl⟩

/-- A flush empties the buffer, or is refused. -/
theorem flush_spec {s : Sys τ} (hs : Sound s) :
    Exec.wp (ftBufferFlush io)
      (fun ok s' => if ok then Accepted s s' ∧ s'.buffer.Empty else Refused s s')
      (fun _ _ => True) s := by
  have htx := flushTx_spec io (s := s.entered) { hs with }
  cases hrun : ftBufferFlushTx io s.entered with
  | error e =>
      have henter : (modify fun s : Sys τ =>
          { s with flushes := s.flushes ++ [(s.gFtdi.cmdBuffer, s.usb)] } : Prog τ PUnit) s =
          .ok (⟨⟩, s.entered) := rfl
      rw [ftBufferFlush, Exec.wp_bind_ok henter, Exec.wp, Exec.bind_error hrun]
      trivial
  | ok q =>
      obtain ⟨ok, t⟩ := q
      have ht := Exec.wp_ok htx hrun
      cases ok with
      | false => exact Exec.wp_of_ok (flush_of_tx_failed hrun) ht
      | true =>
          obtain ⟨hsound, hnone, hrxSame, cs, hcalls, hfull, hnil⟩ := ht
          cases hrx : t.buffer.rxBuffer with
          | none =>
              refine Exec.wp_of_ok (flush_of_tx_ok hrun (flushRx_none hrx)) ?_
              obtain ⟨hzero, hobs⟩ := hsound.rx hrx
              refine ⟨⟨{ hsound with head := hsound.start }, cs, hcalls, hfull, ?_⟩, ?_⟩
              · rintro hcs (hp | hp)
                · have htxNone : s.buffer.txBuffer = none := hnil hcs
                  rw [htxNone] at hp
                  cases hp
                · have hrxNone : s.buffer.rxBuffer = none := hrxSame.symm.trans hrx
                  rw [hrxNone] at hp
                  cases hp
              · exact ⟨hnone, hsound.tx hnone, hrx, hzero, hobs, rfl⟩
          | some p =>
              have hsome : t.buffer.rxBuffer.isSome = true := by rw [hrx]; rfl
              have hread := flushRx_some io hsome
              by_cases hreadFull :
                  (D2xxCall.read t.buffer.rxNumBytes (t.readReply io)).inFull = true
              · rw [if_pos hreadFull] at hread
                refine Exec.wp_of_ok (flush_of_tx_ok hrun hread) ?_
                refine ⟨⟨{ hsound with rx := fun _ => ⟨rfl, rfl⟩, head := hsound.start },
                  cs ++ [.read t.buffer.rxNumBytes (t.readReply io)], ?_, ?_, ?_⟩, ?_⟩
                · change t.calls ++ _ = s.calls ++ _
                  rw [hcalls, List.append_assoc]
                  rfl
                · intro c hc
                  rcases List.mem_append.mp hc with hc | hc
                  · exact hfull c hc
                  · rw [List.mem_singleton.mp hc]
                    exact hreadFull
                · intro hcs
                  exact absurd hcs (List.append_ne_nil_of_right_ne_nil _ (List.cons_ne_nil _ _))
                · exact ⟨hnone, hsound.tx hnone, rfl, rfl, rfl, rfl⟩
              · rw [if_neg hreadFull] at hread
                refine Exec.wp_of_ok (flush_of_tx_ok hrun hread) ?_
                refine ⟨{ hsound with }, Or.inr hsome, cs,
                  .read t.buffer.rxNumBytes (t.readReply io), ?_, hfull,
                  Bool.eq_false_of_not_eq_true hreadFull, hsound.tx hnone⟩
                change t.calls ++ _ = s.calls ++ _
                rw [hcalls, List.append_assoc]
                rfl

theorem ensure_faithful (m n : ℕ) : Faithful (ftBufferEnsureCanAppend io m n) := by
  intro s hs
  unfold ftBufferEnsureCanAppend cmdBuffer alwaysAssert
  rw [bind_assoc, Exec.wp_bind, Exec.wp_get, pure_bind, Exec.wp_bind]
  apply Exec.wp_ite
  · intro _
    rw [Exec.wp_pure]
    apply Exec.wp_ite
    · intro _
      refine Exec.wp_mono (flush_spec hs) ?_ (fun _ _ _ => trivial)
      intro ok t ht
      cases ok with
      | false => exact ht
      | true => exact ht.1
    · exact fun _ => Accepted.refl hs
  · exact fun _ => trivial

theorem append_faithful (txData : List UInt8) (observer : Option (RxObserverFn × ℕ)) (n : ℕ) :
    Faithful (ftBufferAppend txData observer n : Prog τ Bool) := by
  intro s hs
  refine Exec.wp_mono (ftBufferAppend_spec hs.fatal hs.head (fun _ => hs.maxTx) observer
    (fun _ => hs.maxRx)) ?_
    (fun _ _ _ => trivial)
  rintro ok t ⟨rfl, hfits, rfl⟩
  have hframe := (FtBuffer.frame_appendRx _ observer n).trans (s.buffer.frame_appendTx txData)
  simp only [FtBuffer.frame, Prod.mk.injEq] at hframe
  obtain ⟨hstart, hlimit, hfatal, hmaxTx, hmaxRx⟩ := hframe
  obtain ⟨htxData, htxBuffer⟩ := (s.buffer.appendTx txData).tx_appendRx observer n
  have htx := s.buffer.txBuffer_appendTx txData
  have hrx := (s.buffer.appendTx txData).rxBuffer_appendRx observer n
  obtain ⟨hrxNum, hrxObs, hrxBuffer⟩ := s.buffer.rx_appendTx txData
  rw [hrxBuffer] at hrx
  refine ⟨⟨?_, ?_, hfatal.trans hs.fatal, ?_, hfits.trans_eq hlimit.symm, hmaxTx.symm ▸ hs.maxTx,
    hmaxRx.symm ▸ hs.maxRx, hs.chip⟩, [], (List.append_nil _).symm, List.forall_mem_nil _, ?_⟩
  · intro hnone
    have hnotSome : ¬ (s.buffer.txBuffer.isSome = true ∨ txData ≠ []) := by
      rw [← htx, ← htxBuffer]
      rw [show ((s.buffer.appendTx txData).appendRx observer n).txBuffer = none from hnone]
      exact Bool.false_ne_true
    rw [not_or, not_not] at hnotSome
    refine htxData.trans ?_
    rw [FtBuffer.txData_appendTx, hnotSome.2, List.append_nil]
    exact hs.tx (Option.not_isSome_iff_eq_none.mp hnotSome.1)
  · intro hnone
    have hnotSome : ¬ (s.buffer.rxBuffer.isSome = true ∨ 0 < n) := by
      rw [← hrx]
      rw [show ((s.buffer.appendTx txData).appendRx observer n).rxBuffer = none from hnone]
      exact Bool.false_ne_true
    rw [not_or, Nat.not_lt, Nat.le_zero] at hnotSome
    obtain ⟨hzero, hobs⟩ := hs.rx (Option.not_isSome_iff_eq_none.mp hnotSome.1)
    have hn := hnotSome.2
    subst hn
    exact ⟨hrxNum.trans hzero, hrxObs.trans hobs⟩
  · exact (hstart.trans_le hs.start).trans_eq hlimit.symm
  · rintro - (hp | hp)
    · refine Or.inl ?_
      change ((s.buffer.appendTx txData).appendRx observer n).txBuffer.isSome = true
      rw [htxBuffer, htx]
      exact Or.inl hp
    · exact Or.inr (hrx.mpr (Or.inl hp))

/-- An allocation makes no call and leaves the buffer sound. -/
theorem quiet_bind {α : Type} {x : Prog τ α} {f : α → Prog τ Bool}
    (hx : ∀ s, Sound s → Exec.wp x (fun _ s' => Accepted s s') (fun _ _ => True) s)
    (hf : ∀ a, Faithful (f a)) : Faithful (x >>= f) := by
  intro s hs
  rw [Exec.wp_bind]
  refine Exec.wp_mono (hx s hs) ?_ (fun _ _ _ => trivial)
  intro a t ht
  refine Exec.wp_mono (hf a t ht.1) ?_ (fun _ _ _ => trivial)
  rintro ok u hu
  cases ok with
  | false => exact ht.trans_refused hu
  | true => exact ht.trans hu

theorem Request.queue_faithful (q : Request) : Faithful (q.queue io) := by
  have hadd : ∀ txData observer n,
      Faithful (ftBufferAddWriteToChipWithReadback io txData observer n) := fun txData observer n =>
    (ensure_faithful _ _).andM (append_faithful txData observer n)
  cases q with
  | write cmd => exact hadd _ _ _
  | readBits cmd e =>
      have halloc : ∀ s : Sys τ, Sound s →
          Exec.Preserves (Accepted s) (fun _ _ => True) (allocDriver fun pool =>
            (txvcMempoolAllocAligned pool sizeofBitCopierExtra alignofRecord :
              Prog τ (Option ℕ × TxvcMempool))) := by
        intro s hs
        refine Exec.Preserves.get.bind fun t => Exec.Preserves.bind ?_ fun q => ?_
        · exact allocAligned_preserves (fun _ _ _ _ => trivial) _ _ _
        · refine Exec.Preserves.bind (Exec.Preserves.modifyGet fun u hu => ?_) fun _ =>
            Exec.Preserves.pure _
          exact ⟨{ hu.1 with }, hu.2⟩
      refine quiet_bind (fun s hs => halloc s hs s (Accepted.refl hs)) fun p => ?_
      refine quiet_bind (fun s hs => ?_) fun addr => ?_
      · cases p with
        | none => trivial
        | some addr => exact Accepted.refl hs
      · refine quiet_bind (fun s hs => ?_) fun _ => hadd _ _ _
        exact ⟨{ hs with }, [], (List.append_nil _).symm, List.forall_mem_nil _, fun _ hp => hp⟩
  | readBytes txData rxData n =>
      refine (ensure_faithful _ _).bind (fun _ => rfl) ?_
      refine quiet_bind (fun s hs => ?_) fun p => ?_
      · rw [wp_cmdAligned hs.fatal (by decide)]
        split
        · rename_i hfits
          exact ⟨{ hs with head := hfits }, [], (List.append_nil _).symm, List.forall_mem_nil _,
            fun _ hp => hp⟩
        · trivial
      · refine quiet_bind (fun s hs => ?_) fun e => ?_
        · cases p with
          | none => trivial
          | some addr => exact Accepted.refl hs
        · refine quiet_bind (fun s hs => ?_) fun _ => append_faithful _ _ _
          exact ⟨{ hs with }, [], (List.append_nil _).symm, List.forall_mem_nil _,
            fun _ hp => hp⟩

end Requests

end TinyXvc
