import TinyXvc.FtdiGeneric.Driver
import TinyXvc.JtagSplitter.Ranges

/-!
# The requests of a shift

Whatever the transport does, the two shift functions queue a fixed list of
requests and stop at the first one that fails.  Everything that is proved about
the driver is proved for one request and lifted to lists of them.
-/

namespace TinyXvc

inductive Request where
  | write (cmd : List UInt8)
  | readBits (cmd : List UInt8) (e : BitCopierRxObserverExtra)
  | readBytes (txData : List UInt8) (rxData : Ptr) (rxNumBytes : ℕ)
  deriving DecidableEq, Repr

namespace Request

def txData : Request → List UInt8
  | write cmd => cmd
  | readBits cmd _ => cmd
  | readBytes txData _ _ => txData

def rxNumBytes : Request → ℕ
  | write _ => 0
  | readBits _ _ => 1
  | readBytes _ _ n => n

def queue {τ : Type} (io : D2xx τ) : Request → Prog τ Bool
  | write cmd => ftBufferAddWriteToChip io cmd
  | readBits cmd e => addBitRead io cmd e
  | readBytes txData rxData n => ftBufferAddWriteToChipWithReadbackSimple io txData rxData n

end Request

/-- The requests of a TMS shift. -/
def tmsRequests (tms : Octets) (lastTdi : Bool) (fromBitIdx toBitIdx : ℕ) : List Request :=
  if fromBitIdx < toBitIdx then
    let n := min (toBitIdx - fromBitIdx) 6
    .write (tmsShiftCmd tms lastTdi fromBitIdx n) ::
      tmsRequests tms lastTdi (fromBitIdx + n) toBitIdx
  else []
termination_by toBitIdx - fromBitIdx

namespace TdiShift

def leadingRequests (t : TdiShift) : List Request :=
  let n := t.split.numLeadingBits
  if n > 0 then
    [.readBits (tdiBitsCmd n (t.tdi (t.fromBitIdx / 8) >>> UInt8.ofNat (t.fromBitIdx % 8)))
      ⟨8 - n, t.tdo, t.fromBitIdx, n⟩]
  else []

/-- `n` whole octets from octet `octet` on, in commands of at most `chip` octets. -/
def innerRequests (t : TdiShift) (chip octet n : ℕ) : List Request :=
  if 0 < n ∧ 0 < chip then
    let k := min n chip
    .write (tdiOctetsCmd k) ::
      .readBytes ((List.range k).map fun i => t.tdi (octet + i)) (t.tdo.add octet) k ::
      innerRequests t chip (octet + k) (n - k)
  else []
termination_by n

def trailingRequests (t : TdiShift) : List Request :=
  let n := t.split.numTrailingBits
  let innerEndIdx := t.split.innerEndIdx.toNat
  if n > 0 then
    [.readBits (tdiBitsCmd n (t.tdi (innerEndIdx / 8))) ⟨8 - n, t.tdo, innerEndIdx, n⟩]
  else []

def lastRequest (t : TdiShift) : Request :=
  .readBits (lastBitCmd (getBit t.tdi t.split.lastBitIdx) t.lastTmsBitHigh)
    ⟨7, t.tdo, t.split.lastBitIdx, 1⟩

/-- The octet after the leading bits, and the number of whole octets from there. -/
def innerOctet (t : TdiShift) : ℕ := (t.fromBitIdx + t.split.numLeadingBits) / 8
def innerOctets (t : TdiShift) : ℕ :=
  ((t.split.innerEndIdx - (t.fromBitIdx + t.split.numLeadingBits : ℕ)) / 8).toNat

/-- The requests of a TDI shift. -/
def requests (t : TdiShift) (chip : ℕ) : List Request :=
  t.leadingRequests ++ t.innerRequests chip t.innerOctet t.innerOctets ++
    (t.trailingRequests ++ [t.lastRequest])

end TdiShift

/-- The parts of the driver that a request keeps. -/
def Driver.settings (d : Driver) : ℕ × Bool × JtagSplitter × Bool :=
  (d.chipBufferBytes, d.highSpeedCapable, d.jtagSplitter, d.lastTdi)

def Sys.settings {τ : Type} (s : Sys τ) : ℕ × Bool × JtagSplitter × Bool := s.gFtdi.settings

/-- How an operation of the command buffer can end the process. -/
def Abort.OfBuffer : Abort → Prop
  | .violatedCondition _ => True
  | .oom _ => True
  | .nullPointer => True
  | _ => False

/-- What does not depend on the command buffer. -/
def BufferBlind {τ : Type} (J : Sys τ → Prop) : Prop := ∀ s b, J s → J (s.setBuffer b)

/-- What does not depend on what was transferred. -/
def LinkBlind {τ : Type} (J : Sys τ → Prop) : Prop :=
  ∀ s mem usb calls flushes, J s →
    J { s with mem := mem, usb := usb, calls := calls, flushes := flushes }

/-- What does not depend on where the records lie. -/
structure PoolBlind {τ : Type} (J : Sys τ → Prop) : Prop where
  driver : ∀ s pool, J s → J { s with gFtdi := { s.gFtdi with pool := pool } }
  cmd : ∀ s pool, J s → J (s.setBuffer { s.gFtdi.cmdBuffer with pool := pool })
  bitExtras : ∀ s extras, J s → J { s with bitExtras := extras }
  byteExtras : ∀ s extras, J s → J { s with byteExtras := extras }

section Steps

variable {τ : Type}

/-- `P` holds of the steps of a flush. -/
structure FlushSteps (io : D2xx τ) (P : (α : Type) → Prog τ α → Prop) : Prop
    extends Exec.Compositional P where
  buffer : P _ cmdBuffer
  setBuffer : ∀ f, P _ (modifyCmdBuffer f)
  write : ∀ data, P _ (ftWrite io data)
  read : ∀ n, P _ (ftRead io n)
  observe : ∀ (os : List RxObserverNode) rx,
    P _ (modify fun s => { s with mem := os.foldl (RxObserverNode.run s rx) s.mem })
  record : P _ (modify fun s => { s with flushes := s.flushes ++ [(s.gFtdi.cmdBuffer, s.usb)] })

/-- `P` holds of the steps of an append, up to its record. -/
structure AppendSteps (P : (α : Type) → Prog τ α → Prop) : Prop extends Exec.Compositional P where
  abort : ∀ {α : Type} e, e.OfBuffer → P α (Exec.abort e)
  buffer : P _ cmdBuffer
  setBuffer : ∀ f, P _ (modifyCmdBuffer f)

/-- `P` holds of what a request is made of. -/
structure RequestSteps (io : D2xx τ) (P : (α : Type) → Prog τ α → Prop) : Prop
    extends Exec.Compositional P where
  abort : ∀ {α : Type} e, e.OfBuffer → P α (Exec.abort e)
  buffer : P _ cmdBuffer
  driver : ∀ sz align, P _ (allocDriver fun pool => txvcMempoolAllocAligned pool sz align)
  cmd : ∀ sz align, P _ (allocCmd fun pool => txvcMempoolAllocAligned pool sz align)
  bitExtra : ∀ addr e,
    P _ (modify fun s => { s with bitExtras := Function.update s.bitExtras addr e })
  byteExtra : ∀ addr e,
    P _ (modify fun s => { s with byteExtras := Function.update s.byteExtras addr e })
  flush : P _ (ftBufferFlush io)
  append : ∀ txData observer n, P _ (ftBufferAppend txData observer n)

variable {io : D2xx τ} {P : (α : Type) → Prog τ α → Prop}

theorem FlushSteps.flush (h : FlushSteps io P) : P _ (ftBufferFlush io) := by
  have htx : P _ (ftBufferFlushTx io) := by
    refine h.bind h.buffer fun b => h.ite (h.bind (h.write _) fun reply => ?_) (h.pure _)
    refine h.ite (h.pure _) (h.ite (h.pure _) ?_)
    exact h.bind (h.setBuffer _) fun _ => h.pure _
  have hrx : P _ (ftBufferFlushRx io) := by
    refine h.bind h.buffer fun b => h.ite (h.bind (h.read _) fun reply => ?_) (h.pure _)
    refine h.ite (h.pure _) (h.ite (h.pure _) (h.bind (h.observe _ _) fun _ => ?_))
    exact h.bind (h.setBuffer _) fun _ => h.pure _
  refine h.bind h.record fun _ => h.bind htx fun _ => h.ite (h.bind hrx fun _ => ?_) (h.pure _)
  exact h.ite (h.bind (h.setBuffer _) fun _ => h.pure _) (h.pure _)

theorem allocUnaligned_compositional (hP : Exec.Compositional P)
    (habort : ∀ {α : Type} e, e.OfBuffer → P α (Exec.abort e)) (pool : TxvcMempool) (sz : ℕ) :
    P _ (txvcMempoolAllocUnaligned pool sz) :=
  hP.ite (hP.pure _) (hP.ite (hP.pure _) (hP.ite (habort (.oom _) trivial) (hP.pure _)))

theorem allocAligned_compositional (hP : Exec.Compositional P)
    (habort : ∀ {α : Type} e, e.OfBuffer → P α (Exec.abort e)) (pool : TxvcMempool)
    (sz align : ℕ) : P _ (txvcMempoolAllocAligned pool sz align) := by
  refine hP.ite (hP.pure _) (hP.bind (hP.ite (hP.pure _) (habort _ trivial)) fun _ => ?_)
  exact hP.ite (hP.pure _) (hP.ite (habort (.oom _) trivial) (hP.pure _))

theorem deref_compositional (hP : Exec.Compositional P)
    (habort : ∀ {α : Type} e, e.OfBuffer → P α (Exec.abort e)) (p : Option ℕ) : P _ (deref p) := by
  cases p with
  | none => exact habort _ trivial
  | some addr => exact hP.pure _

theorem AppendSteps.appendTx (h : AppendSteps P) (txData : List UInt8) :
    P _ (ftBufferAppendTx txData) := by
  have hdata := h.setBuffer fun b => { b with txData := b.txData ++ txData }
  refine h.ite (h.bind h.buffer fun b => h.ite ?_ hdata) (h.pure _)
  refine h.bind (h.bind h.buffer fun b => h.bind
    (allocUnaligned_compositional h.toCompositional h.abort _ _) fun _ => ?_) fun _ => ?_
  · exact h.bind (h.setBuffer _) fun _ => h.pure _
  · exact h.bind (h.setBuffer _) fun _ => hdata

theorem AppendSteps.appendRx (h : AppendSteps P) (observer : Option (RxObserverFn × ℕ)) (n : ℕ) :
    P _ (ftBufferAppendRx observer n) := by
  have hnode : P _ (ftBufferAddObserver observer) := by
    cases observer with
    | none => exact h.pure _
    | some o =>
        refine h.bind (h.bind h.buffer fun b => h.bind
          (allocAligned_compositional h.toCompositional h.abort _ _ _) fun _ => ?_) fun p => ?_
        · exact h.bind (h.setBuffer _) fun _ => h.pure _
        · exact h.bind (deref_compositional h.toCompositional h.abort p) fun _ => h.setBuffer _
  have hrest := h.bind hnode fun _ => h.setBuffer fun b => { b with rxNumBytes := b.rxNumBytes + n }
  refine h.ite (h.bind h.buffer fun b => h.ite ?_ hrest) (h.pure _)
  refine h.bind (h.bind h.buffer fun b => h.bind
    (allocUnaligned_compositional h.toCompositional h.abort _ _) fun _ => ?_) fun _ => ?_
  · exact h.bind (h.setBuffer _) fun _ => h.pure _
  · exact h.bind (h.setBuffer _) fun _ => hrest

theorem AppendSteps.append (h : AppendSteps P)
    (hrecord : ∀ q, P _ (modify fun s => { s with queued := s.queued ++ [q] }))
    (txData : List UInt8) (observer : Option (RxObserverFn × ℕ)) (n : ℕ) :
    P _ (ftBufferAppend txData observer n) := by
  refine h.bind (h.appendTx txData) fun _ => h.bind (h.appendRx observer n) fun _ => ?_
  exact h.bind (hrecord _) fun _ => h.pure _

theorem RequestSteps.queue (h : RequestSteps io P) (q : Request) : P _ (q.queue io) := by
  have hensure : ∀ m n, P _ (ftBufferEnsureCanAppend io m n) := by
    intro m n
    refine h.bind h.buffer fun b => h.bind (h.ite (h.pure _) (h.abort _ trivial)) fun _ => ?_
    exact h.ite h.flush (h.pure _)
  have hadd : ∀ txData observer n, P _ (ftBufferAddWriteToChipWithReadback io txData observer n) :=
    fun txData observer n => h.andM (hensure _ _) (h.append txData observer n)
  have hderef := deref_compositional h.toCompositional h.abort
  cases q with
  | write cmd => exact hadd _ _ _
  | readBits cmd e =>
      refine h.bind (h.driver _ _) fun p => h.bind (hderef p) fun addr => ?_
      exact h.bind (h.bitExtra addr e) fun _ => hadd _ _ _
  | readBytes txData rxData n =>
      refine h.bind (hensure _ _) fun _ => h.ite ?_ (h.pure _)
      refine h.bind (h.cmd _ _) fun p => h.bind (hderef p) fun addr => ?_
      exact h.bind (h.byteExtra addr _) fun _ => h.append _ _ _

end Steps

section Preserves

variable {τ : Type} {J : Sys τ → Prop} {K : Abort → Sys τ → Prop}

open Exec

theorem cmdBuffer_preserves : Preserves J K cmdBuffer :=
  Preserves.get.bind fun _ => Preserves.pure _

theorem modifyCmdBuffer_preserves (hblind : BufferBlind J) (f : FtBuffer → FtBuffer) :
    Preserves J K (modifyCmdBuffer f) :=
  Preserves.modifyGet fun s => hblind s _

theorem ftBufferFlush_preserves (io : D2xx τ) (hblind : BufferBlind J) (hlink : LinkBlind J) :
    Preserves J K (ftBufferFlush io) :=
  FlushSteps.flush
    { Preserves.compositional with
      buffer := cmdBuffer_preserves
      setBuffer := modifyCmdBuffer_preserves hblind
      write := fun _ => Preserves.modifyGet fun s => hlink s _ _ _ _
      read := fun _ => Preserves.modifyGet fun s => hlink s _ _ _ _
      observe := fun _ _ => Preserves.modifyGet fun s => hlink s _ _ _ _
      record := Preserves.modifyGet fun s => hlink s _ _ _ _ }

variable (hK : ∀ e s, e.OfBuffer → J s → K e s)

include hK

theorem allocAligned_preserves (pool : TxvcMempool) (sz align : ℕ) :
    Preserves J K (txvcMempoolAllocAligned pool sz align : Prog τ _) :=
  allocAligned_compositional Preserves.compositional
    (fun e he => Preserves.abort fun s => hK e s he) pool sz align

theorem deref_preserves (p : Option ℕ) : Preserves J K (deref p) :=
  deref_compositional Preserves.compositional (fun e he => Preserves.abort fun s => hK e s he) p

theorem appendSteps_preserves (hblind : BufferBlind J) :
    AppendSteps fun α (x : Prog τ α) => Preserves J K x :=
  { Preserves.compositional with
    abort := fun e he => Preserves.abort fun s => hK e s he
    buffer := cmdBuffer_preserves
    setBuffer := modifyCmdBuffer_preserves hblind }

theorem ftBufferAppend_preserves (hblind : BufferBlind J)
    (hqueued : ∀ s qs, J s → J { s with queued := qs }) (txData : List UInt8)
    (observer : Option (RxObserverFn × ℕ)) (n : ℕ) :
    Preserves J K (ftBufferAppend txData observer n) :=
  (appendSteps_preserves hK hblind).append (fun _ => Preserves.modifyGet fun s => hqueued s _)
    txData observer n

variable (io : D2xx τ)

/-- What flushes and appends preserve, requests preserve. -/
theorem Request.queue_preserves (hblind : PoolBlind J) (hflush : Preserves J K (ftBufferFlush io))
    (happend : ∀ txData observer n, Preserves J K (ftBufferAppend txData observer n))
    (q : Request) : Preserves J K (q.queue io) := by
  have halloc := fun pool sz align => allocAligned_preserves (τ := τ) hK pool sz align
  refine RequestSteps.queue
    { Preserves.compositional with
      abort := fun e he => Preserves.abort fun s => hK e s he
      buffer := cmdBuffer_preserves
      driver := fun sz align => Preserves.get.bind fun s => (halloc _ _ _).bind fun _ => ?_
      cmd := fun sz align => cmdBuffer_preserves.bind fun b => (halloc _ _ _).bind fun _ => ?_
      bitExtra := fun _ _ => Preserves.modifyGet fun s => hblind.bitExtras s _
      byteExtra := fun _ _ => Preserves.modifyGet fun s => hblind.byteExtras s _
      flush := hflush
      append := happend } q
  · exact Preserves.bind (Preserves.modifyGet fun s => hblind.driver s _) fun _ => Preserves.pure _
  · exact Preserves.bind (Preserves.modifyGet fun s => hblind.cmd s _) fun _ => Preserves.pure _

end Preserves

/-- A request keeps the settings of the driver. -/
theorem Request.queue_keeps {τ : Type} (io : D2xx τ) (q : Request) :
    Exec.Keeps Sys.settings (q.queue io) := fun _ =>
  q.queue_preserves (fun _ _ _ h => h) io
    ⟨fun _ _ h => h, fun _ _ h => h, fun _ _ h => h, fun _ _ h => h⟩
    (ftBufferFlush_preserves io (fun _ _ h => h) (fun _ _ _ _ _ h => h))
    (ftBufferAppend_preserves (fun _ _ _ h => h) (fun _ _ h => h) (fun _ _ h => h))

/-! ## The shift functions queue their requests -/

section Shifts

variable {τ : Type} (io : D2xx τ)

theorem appendTmsShiftLoop_eq (tms : Octets) (fromBitIdx toBitIdx : ℕ) (s : Sys τ) :
    appendTmsShiftLoop io tms fromBitIdx toBitIdx s =
      (tmsRequests tms s.gFtdi.lastTdi fromBitIdx toBitIdx).allM (Request.queue io) s := by
  induction hn : toBitIdx - fromBitIdx using Nat.strong_induction_on generalizing fromBitIdx s with
  | _ n ih =>
      rw [appendTmsShiftLoop, tmsRequests]
      by_cases hlt : fromBitIdx < toBitIdx
      · rw [if_pos hlt, if_pos hlt, List.allM_cons, Exec.get_bind]
        refine Exec.bind_congr fun ok s' hs => ?_
        cases ok with
        | false => rfl
        | true =>
            have hkeep := (Request.queue_keeps io (.write _)).ok hs
            have hlast : s'.gFtdi.lastTdi = s.gFtdi.lastTdi := congrArg (fun p => p.2.2.2) hkeep
            have hrest := ih _ (by omega) (fromBitIdx + min (toBitIdx - fromBitIdx) 6) s' rfl
            rw [hlast] at hrest
            exact hrest
      · rw [if_neg hlt, if_neg hlt]
        rfl

theorem appendTmsShift_eq (tms : Octets) {fromBitIdx toBitIdx : ℕ} (h : fromBitIdx < toBitIdx)
    (s : Sys τ) :
    appendTmsShiftToTransaction io tms fromBitIdx toBitIdx s =
      (tmsRequests tms s.gFtdi.lastTdi fromBitIdx toBitIdx).allM (Request.queue io) s := by
  rw [← appendTmsShiftLoop_eq, appendTmsShiftToTransaction, decide_eq_true h, alwaysAssert_true,
    pure_bind]

namespace TdiShift

/-- The layout of a TDI shift: either the regular bits are all leading ones, or
the leading ones end at an octet boundary and whole octets and trailing bits
follow. -/
theorem split_cases (t : TdiShift) (h : t.fromBitIdx < t.toBitIdx) :
    t.split.lastBitIdx + 1 = t.toBitIdx ∧ t.split.numLeadingBits < 8 ∧
    t.split.numTrailingBits < 8 ∧
    ((t.fromBitIdx + t.split.numLeadingBits = t.split.lastBitIdx ∧ t.innerOctets = 0 ∧
        t.split.numTrailingBits = 0) ∨
      (t.fromBitIdx + t.split.numLeadingBits = 8 * t.innerOctet ∧
        t.split.innerBeginIdx = 8 * t.innerOctet ∧
        t.split.innerEndIdx = 8 * (t.innerOctet + t.innerOctets : ℕ) ∧
        8 * (t.innerOctet + t.innerOctets) + t.split.numTrailingBits = t.split.lastBitIdx)) := by
  unfold innerOctets innerOctet split tdiSplit
  generalize t.fromBitIdx = a at *
  generalize t.toBitIdx = b at *
  dsimp only
  split <;> split <;> simp_all <;> omega

/-- What follows the requests of a TDI shift. -/
def finish {τ : Type} (t : TdiShift) (ok : Bool) : Prog τ Bool := do
  if ok then
    modify fun s =>
      { s with gFtdi := { s.gFtdi with lastTdi := getBit t.tdi t.split.lastBitIdx } }
    pure true
  else pure false

end TdiShift

/-- The rest of the loop after a round. -/
def afterRound (t : TdiShift) (fuel : ℕ) : Option ℕ → Prog τ Bool
  | none => pure false
  | some curIdx => appendTdiLoop io t fuel curIdx

theorem tdiLast_eq {t : TdiShift} (h : t.fromBitIdx < t.toBitIdx) (fuel : ℕ) :
    (appendTdiLast io t t.split.lastBitIdx >>= afterRound io t fuel) =
      ([t.lastRequest].allM (Request.queue io) >>= t.finish) := by
  have hend : ¬ t.split.lastBitIdx + 1 < t.toBitIdx := by
    have hlast := (t.split_cases h).1
    omega
  have hstop : afterRound io t fuel (some (t.split.lastBitIdx + 1)) = pure true := by
    rw [afterRound, appendTdiLoop.eq_def, if_neg hend]
  rw [appendTdiLast, if_pos rfl, List.allM_cons, List.allM_nil]
  simp only [bind_assoc]
  congr 1
  funext ok
  cases ok with
  | false => rfl
  | true =>
      simp only [if_true, bind_assoc, pure_bind, hstop]
      rfl

theorem tdiTrailing_eq {t : TdiShift} (h : t.fromBitIdx < t.toBitIdx) (fuel curIdx : ℕ)
    (hcur : (curIdx : ℤ) = t.split.innerEndIdx)
    (hlast : curIdx + t.split.numTrailingBits = t.split.lastBitIdx) :
    ((do
      match ← appendTdiTrailing io t curIdx with
      | none => pure none
      | some curIdx => appendTdiLast io t curIdx) >>= afterRound io t fuel) =
      ((t.trailingRequests ++ [t.lastRequest]).allM (Request.queue io) >>= t.finish) := by
  rw [appendTdiTrailing, TdiShift.trailingRequests]
  by_cases htrail : t.split.numTrailingBits > 0
  · rw [if_pos ⟨hcur, htrail⟩, if_pos htrail, List.singleton_append, List.allM_cons]
    simp only [bind_assoc]
    congr 1
    funext ok
    cases ok with
    | false => rfl
    | true =>
        simp only [if_true, pure_bind, hlast]
        exact tdiLast_eq io h fuel
  · have hzero : curIdx = t.split.lastBitIdx := by omega
    rw [if_neg (fun hc => htrail hc.2), if_neg htrail, List.nil_append, pure_bind, hzero]
    exact tdiLast_eq io h fuel

theorem bind_allM_cons {β : Type} (q : Request) (qs : List Request) (k : Bool → Prog τ β) :
    ((q :: qs).allM (Request.queue io) >>= k) = (do
      if ← q.queue io then qs.allM (Request.queue io) >>= k else k false) := by
  rw [List.allM_cons, bind_assoc]
  congr 1
  funext ok
  cases ok <;> rfl

/-- A round that does not start at the first bit has no leading bits. -/
theorem tdiLoop_step {t : TdiShift} {fuel curIdx : ℕ} (hlt : curIdx < t.toBitIdx)
    (hfrom : t.fromBitIdx < curIdx) :
    appendTdiLoop io t (fuel + 1) curIdx =
      (appendTdiRest io t curIdx >>= afterRound io t fuel) := by
  have hnot : ¬ (curIdx = t.fromBitIdx ∧ t.split.numLeadingBits > 0) := by omega
  rw [appendTdiLoop.eq_def, if_pos hlt]
  dsimp only
  rw [appendTdiRound, appendTdiLeading, if_neg hnot, pure_bind]
  rfl

/-- The whole octets that are left, each round sending as many as the chip's
buffer holds, and the bits after them. -/
theorem tdiRest_eq {t : TdiShift} (h : t.fromBitIdx < t.toBitIdx) {octet n fuel : ℕ} (s : Sys τ)
    (hchip : 0 < s.gFtdi.chipBufferBytes) (hfuel : n ≤ fuel)
    (hbegin : t.split.innerBeginIdx = 8 * t.innerOctet)
    (hend : t.split.innerEndIdx = 8 * (octet + n : ℕ))
    (hfrom : t.fromBitIdx ≤ 8 * octet)
    (hlast : 8 * (octet + n) + t.split.numTrailingBits = t.split.lastBitIdx) :
    (appendTdiRest io t (8 * octet) >>= afterRound io t fuel) s =
      ((t.innerRequests s.gFtdi.chipBufferBytes octet n ++
        (t.trailingRequests ++ [t.lastRequest])).allM (Request.queue io) >>= t.finish) s := by
  induction n using Nat.strong_induction_on generalizing octet fuel s with
  | _ n ih =>
      obtain ⟨hto, -, -, -⟩ := t.split_cases h
      by_cases hn : 0 < n
      · have hcur : ((8 * octet : ℕ) : ℤ) < t.split.innerEndIdx := by omega
        have hk : ((t.split.innerEndIdx - (8 * octet : ℕ)) / 8).toNat = n := by omega
        have hodd : (8 * octet) % 8 = 0 := by omega
        have hdiv : 8 * octet / 8 = octet := by omega
        have hlt : 8 * octet < t.split.lastBitIdx := by omega
        rw [TdiShift.innerRequests, if_pos ⟨hn, hchip⟩, appendTdiRest, if_pos hlt, appendTdiInner,
          if_pos hcur, hk, hodd, hdiv]
        rw [show (t.split.innerBeginIdx % 8 == 0) = true by simp [hbegin],
          show (t.split.innerEndIdx % 8 == 0) = true by rw [hend]; simp]
        simp only [beq_self_eq_true, alwaysAssert_true, pure_bind, bind_assoc, Exec.get_bind,
          List.cons_append]
        generalize hkk : min n s.gFtdi.chipBufferBytes = k
        have hk1 : 0 < k ∧ k ≤ n := by omega
        rw [bind_allM_cons]
        refine Exec.bind_congr fun ok s' hs => ?_
        cases ok with
        | false => rfl
        | true =>
            have hkeep := (Request.queue_keeps io (.write _)).ok hs
            simp only [if_true]
            rw [bind_allM_cons, bind_assoc]
            refine Exec.bind_congr fun ok s'' hs' => ?_
            cases ok with
            | false => rfl
            | true =>
                have hkeep' := ((Request.queue_keeps io (.readBytes _ _ _)).ok hs').trans hkeep
                have hchip'' : s''.gFtdi.chipBufferBytes = s.gFtdi.chipBufferBytes :=
                  congrArg (fun p => p.1) hkeep'
                simp only [if_true, pure_bind]
                by_cases hkn : k = n
                · -- the last octets: the trailing bits follow in the same round
                  have hnone :
                      t.innerRequests s.gFtdi.chipBufferBytes (octet + k) (n - k) = [] := by
                    rw [TdiShift.innerRequests, if_neg (by omega)]
                  have htail := tdiTrailing_eq io h fuel (8 * octet + k * 8) (by omega)
                    (by omega)
                  rw [bind_assoc] at htail
                  rw [hnone, List.nil_append]
                  exact congrFun htail s''
                · -- more octets: the next round starts with them
                  have hnot : ¬ (((8 * octet + k * 8 : ℕ) : ℤ) = t.split.innerEndIdx ∧
                      t.split.numTrailingBits > 0) := by omega
                  have hnotLast : ¬ 8 * octet + k * 8 = t.split.lastBitIdx := by omega
                  rw [appendTdiTrailing, if_neg hnot, pure_bind]
                  dsimp only
                  rw [appendTdiLast, if_neg hnotLast, pure_bind]
                  obtain ⟨fuel, rfl⟩ : ∃ f, fuel = f + 1 := ⟨fuel - 1, by omega⟩
                  rw [afterRound, tdiLoop_step io (by omega) (by omega),
                    show 8 * octet + k * 8 = 8 * (octet + k) by omega]
                  rw [← hchip'']
                  exact ih (n - k) (by omega) s'' (by omega) (by omega) (by omega) (by omega)
                    (by omega)
      · have hn0 : n = 0 := by omega
        subst hn0
        rw [TdiShift.innerRequests, if_neg (fun hc => hn hc.1), List.nil_append, appendTdiRest]
        by_cases hlt : 8 * octet < t.split.lastBitIdx
        · have hcur : ¬ ((8 * octet : ℕ) : ℤ) < t.split.innerEndIdx := by omega
          rw [if_pos hlt, appendTdiInner, if_neg hcur, pure_bind]
          exact congrFun (tdiTrailing_eq io h fuel (8 * octet) (by omega) (by omega)) s
        · have heq : 8 * octet = t.split.lastBitIdx := by omega
          have htrail : ¬ t.split.numTrailingBits > 0 := by omega
          rw [if_neg hlt, pure_bind, TdiShift.trailingRequests, if_neg htrail, List.nil_append, heq]
          exact congrFun (tdiLast_eq io h fuel) s

/-- Everything after the leading bits. -/
theorem tdiRest_first_eq {t : TdiShift} (h : t.fromBitIdx < t.toBitIdx) (fuel : ℕ) (s : Sys τ)
    (hchip : 0 < s.gFtdi.chipBufferBytes) (hfuel : t.toBitIdx ≤ t.fromBitIdx + fuel + 1) :
    (appendTdiRest io t (t.fromBitIdx + t.split.numLeadingBits) >>= afterRound io t fuel) s =
      ((t.innerRequests s.gFtdi.chipBufferBytes t.innerOctet t.innerOctets ++
        (t.trailingRequests ++ [t.lastRequest])).allM (Request.queue io) >>= t.finish) s := by
  obtain ⟨hto, -, -, ⟨hlast, hinner, htrail⟩ | ⟨hlead, hbegin, hend, hlast⟩⟩ := t.split_cases h
  · have hnot : ¬ t.fromBitIdx + t.split.numLeadingBits < t.split.lastBitIdx := by omega
    have hnoTrail : ¬ t.split.numTrailingBits > 0 := by omega
    rw [hinner, TdiShift.innerRequests, if_neg (fun hc => absurd hc.1 (by decide)),
      TdiShift.trailingRequests, if_neg hnoTrail, appendTdiRest, if_neg hnot, pure_bind, hlast]
    exact congrFun (tdiLast_eq io h fuel) s
  · rw [hlead]
    exact tdiRest_eq io h s hchip (by omega) hbegin hend (by omega) hlast

theorem appendTdiShift_eq {t : TdiShift} (h : t.fromBitIdx < t.toBitIdx) (s : Sys τ)
    (hchip : 0 < s.gFtdi.chipBufferBytes) :
    appendTdiShiftToTransaction io t s =
      ((t.requests s.gFtdi.chipBufferBytes).allM (Request.queue io) >>= t.finish) s := by
  obtain ⟨fuel, hfuel⟩ : ∃ f, t.toBitIdx - t.fromBitIdx = f + 1 :=
    ⟨t.toBitIdx - t.fromBitIdx - 1, by omega⟩
  rw [appendTdiShiftToTransaction, decide_eq_true h, alwaysAssert_true, pure_bind, hfuel,
    appendTdiLoop.eq_def, if_pos h]
  dsimp only
  rw [appendTdiRound, appendTdiLeading, TdiShift.requests, TdiShift.leadingRequests]
  by_cases hlead : t.split.numLeadingBits > 0
  · rw [if_pos ⟨rfl, hlead⟩, if_pos hlead, List.append_assoc, List.singleton_append, bind_allM_cons]
    simp only [bind_assoc]
    refine Exec.bind_congr fun ok s' hs => ?_
    cases ok with
    | false => rfl
    | true =>
        have hkeep := (Request.queue_keeps io (.readBits _ _)).ok hs
        have hchip' : s'.gFtdi.chipBufferBytes = s.gFtdi.chipBufferBytes :=
          congrArg (fun p => p.1) hkeep
        simp only [if_true, pure_bind]
        rw [← hchip']
        exact tdiRest_first_eq io h fuel s' (by omega) (by omega)
  · have hzero : t.split.numLeadingBits = 0 := by omega
    have hrest := tdiRest_first_eq io h fuel s hchip (by omega)
    rw [hzero] at hrest
    rw [if_neg (fun hc => hlead hc.2), if_neg hlead, List.nil_append, pure_bind]
    exact hrest

end Shifts

end TinyXvc
