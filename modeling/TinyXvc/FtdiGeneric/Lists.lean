import TinyXvc.FtdiGeneric.Representation
import TinyXvc.FtdiGeneric.Flush
import TinyXvc.Lib.Lockstep

/-!
# The lists that the command buffer stands for

The bytes that were appended and the observers that were queued, read off the
memory of the command buffer.  A flush of the buffer in memory is a flush of these
lists.
-/

namespace TinyXvc

namespace Cells

open Exec LinkedList

variable {τ : Type}

/-! ## Bytes -/

theorem readBytes_add (bytes : ℕ → UInt8) (p m n : ℕ) :
    readBytes bytes p (m + n) = readBytes bytes p m ++ readBytes bytes (p + m) n := by
  unfold readBytes
  rw [List.range_add, List.map_append, List.map_map]
  congr 1
  apply List.map_congr_left
  intro i _
  exact congrArg bytes (Nat.add_assoc p m i).symm

@[simp] theorem length_readBytes (bytes : ℕ → UInt8) (p n : ℕ) :
    (readBytes bytes p n).length = n := by simp [readBytes]

/-- Bytes before those that are written stay as they are. -/
theorem readBytes_before (bytes : ℕ → UInt8) {p n q : ℕ} (h : p + n ≤ q) (data : List UInt8) :
    readBytes (writeBytes bytes q data) p n = readBytes bytes p n := by
  apply List.map_congr_left
  intro i hi
  have hlt := List.mem_range.mp hi
  exact if_neg fun hin => by omega

theorem readBytes_written (bytes : ℕ → UInt8) (p : ℕ) (data : List UInt8) :
    readBytes (writeBytes bytes p data) p data.length = data := by
  apply List.ext_getElem
  · simp
  · intro i hi hi'
    simp [readBytes, writeBytes, hi']

/-- Bytes that are written behind others are read back behind them. -/
theorem readBytes_concat (bytes : ℕ → UInt8) (p n : ℕ) (data : List UInt8) :
    readBytes (writeBytes bytes (p + n) data) p (n + data.length) =
      readBytes bytes p n ++ data := by
  rw [readBytes_add, readBytes_before bytes le_rfl, readBytes_written]

/-- What an observer is given is the reply from its offset on. -/
theorem readBytes_drop (bytes : ℕ → UInt8) (p k : ℕ) (data : List UInt8) :
    readBytes (writeBytes bytes p data) (p + k) (p + data.length - (p + k)) = data.drop k := by
  by_cases hk : k ≤ data.length
  · have hall := readBytes_written bytes p data
    have hsplit := readBytes_add (writeBytes bytes p data) p k (data.length - k)
    rw [Nat.add_sub_cancel' hk, hall] at hsplit
    have hdrop := congrArg (List.drop k) hsplit
    rw [List.drop_left' (length_readBytes _ _ _)] at hdrop
    have hlen : p + data.length - (p + k) = data.length - k := by omega
    rw [hlen, hdrop]
  · have hzero : p + data.length - (p + k) = 0 := by omega
    rw [hzero, List.drop_of_length_le (by omega)]
    rfl

/-! ## The lists that a state stands for -/

/-- A node with the offset of its data in the RX buffer. -/
def State.observer (s : State τ) (node : ℕ) : TinyXvc.RxObserverNode where
  addr := node
  fn := (s.nodes node).fn
  data := (s.nodes node).data - s.cmdBuffer.rxBuffer.getD 0
  extra := (s.nodes node).extra

/-- The buffer of lists, when `ns` are the nodes. -/
def State.lists (s : State τ) (ns : List ℕ) : TinyXvc.FtBuffer where
  pool := s.cmdBuffer.pool
  txBuffer := s.cmdBuffer.txBuffer
  txData := s.cmdBuffer.txBuffer.elim [] fun p => readBytes s.bytes p s.cmdBuffer.txNumBytes
  maxTxBufferBytes := s.cmdBuffer.maxTxBufferBytes
  rxBuffer := s.cmdBuffer.rxBuffer
  rxNumBytes := s.cmdBuffer.rxNumBytes
  maxRxBufferBytes := s.cmdBuffer.maxRxBufferBytes
  rxObservers := ns.map s.observer

/-- Both have had the same effects outside the buffer. -/
structure SameEffects (s : State τ) (t : Sys τ) : Prop where
  mem : t.mem = s.mem
  bitExtras : t.bitExtras = s.bitExtras
  byteExtras : t.byteExtras = s.byteExtras
  usb : t.usb = s.usb
  calls : t.calls = s.calls

/-- The state `t` of the driver has the lists that `s` stands for. -/
structure Shows (ns : List ℕ) (s : State τ) (t : Sys τ) : Prop where
  lists : t.buffer = s.lists ns
  effects : SameEffects s t

structure Represents (chip : ℕ) (ns : List ℕ) (s : State τ) (t : Sys τ) : Prop
    extends Shows ns s t where
  formed : WellFormed chip s ns

/-- The state of a driver with the buffer and the effects of `s`. -/
def State.sys (s : State τ) (ns : List ℕ) (d : Driver) (queued : List QueuedData)
    (flushes : List (TinyXvc.FtBuffer × τ)) : Sys τ where
  gFtdi := { d with cmdBuffer := s.lists ns }
  mem := s.mem
  bitExtras := s.bitExtras
  byteExtras := s.byteExtras
  usb := s.usb
  calls := s.calls
  queued := queued
  flushes := flushes

variable {io : D2xx τ} {chip : ℕ} {ns : List ℕ} {s : State τ} {t : Sys τ}

theorem Represents.eq_sys (h : Represents chip ns s t) :
    t = s.sys ns t.gFtdi t.queued t.flushes := by
  obtain ⟨⟨chipBufferBytes, fast, splitter, lastTdi, pool, b⟩, mem, bitExtras, byteExtras, usb,
    calls, queued, flushes⟩ := t
  obtain ⟨⟨hlists, hmem, hbit, hbyte, husb, hcalls⟩, -⟩ := h
  dsimp only at hlists hmem hbit hbyte husb hcalls
  subst hlists hmem hbit hbyte husb hcalls
  rfl

theorem WellFormed.represents (h : WellFormed chip s ns) (d : Driver) (queued : List QueuedData)
    (flushes : List (TinyXvc.FtBuffer × τ)) : Represents chip ns s (s.sys ns d queued flushes) :=
  ⟨⟨rfl, rfl, rfl, rfl, rfl, rfl⟩, h⟩

theorem WellFormed.length_txData (h : WellFormed chip s ns) :
    (s.lists ns).txData.length = s.cmdBuffer.txNumBytes := by
  unfold State.lists
  cases htx : s.cmdBuffer.txBuffer with
  | none => exact (h.tx_null.mp htx).symm
  | some p => exact length_readBytes _ _ _

/-- How the process ends: for want of pool space, with the same effects. -/
def EndedOom (e : Abort) (s : State τ) (t : Sys τ) : Prop := Oom e s ∧ SameEffects s t

/-! ## Flushes -/

namespace State

variable (io) (s)

def writeReply (data : List UInt8) : FtWriteReply := (io.ftWrite data s.usb).1

def readReply : FtReadReply := (io.ftRead s.cmdBuffer.rxNumBytes s.usb).1

def afterWrite (data : List UInt8) : State τ :=
  { s with
    usb := (io.ftWrite data s.usb).2
    calls := s.calls ++ [.write data (s.writeReply io data)] }

def txCleared : State τ :=
  { s with cmdBuffer := { s.cmdBuffer with txBuffer := none, txNumBytes := 0 } }

def afterRead (p : ℕ) : State τ :=
  { s with
    usb := (io.ftRead s.cmdBuffer.rxNumBytes s.usb).2
    calls := s.calls ++ [.read s.cmdBuffer.rxNumBytes (s.readReply io)]
    bytes := writeBytes s.bytes p ((s.readReply io).data.take s.cmdBuffer.rxNumBytes)
    copies := s.copies ++ [⟨p, s.cmdBuffer.rxNumBytes, p, s.cmdBuffer.maxRxBufferBytes⟩] }

def rxObserved (p : ℕ) (ns : List ℕ) : State τ :=
  { s with
    mem := ns.foldl (fun m node => (s.nodes node).run s (p + s.cmdBuffer.rxNumBytes) m) s.mem }

def rxCleared : State τ :=
  { s with
    cmdBuffer := { s.cmdBuffer with
      rxObserverFirst := none
      rxObserverLast := none
      rxBuffer := none
      rxNumBytes := 0 }
    slices := [] }

end State

theorem flushTx_eq {p : ℕ} (htx : s.cmdBuffer.txBuffer = some p) {data : List UInt8}
    (hdata : readBytes s.bytes p s.cmdBuffer.txNumBytes = data) :
    ftBufferFlushTx io s =
      if (D2xxCall.write data (s.writeReply io data)).inFull then
        .ok (true, (s.afterWrite io data).txCleared)
      else .ok (false, s.afterWrite io data) := by
  have hlen : s.cmdBuffer.txNumBytes = data.length := by rw [← hdata, length_readBytes]
  have hwrite : ftWrite io p s.cmdBuffer.txNumBytes s =
      .ok (s.writeReply io data, s.afterWrite io data) := by
    rw [← hdata]
    rfl
  unfold ftBufferFlushTx cmdBuffer
  rw [bind_assoc, get_bind, pure_bind, htx]
  dsimp only
  rw [bind_ok hwrite, hlen]
  simp only [D2xxCall.inFull]
  by_cases hok : (s.writeReply io data).success = true
  · by_cases hfull : (s.writeReply io data).written = data.length
    · simp [hok, hfull]
      rfl
    · simp [hok, hfull]
      rfl
  · simp [hok]
    rfl

theorem flushTx_refines (h : Represents chip ns s t) :
    both (ftBufferFlushTx io) (TinyXvc.ftBufferFlushTx io)
      (fun ok s' t' => Represents chip ns s' t' ∧ (ok = true → s'.cmdBuffer.txBuffer = none))
      EndedOom s t := by
  have hspec : wp (ftBufferFlushTx io) _ _ s := flushTx_spec h.formed
  unfold both wp at *
  rw [h.eq_sys]
  generalize t.gFtdi = d
  generalize t.queued = queued
  generalize t.flushes = flushes
  cases htx : s.cmdBuffer.txBuffer with
  | none =>
      have hleft : ftBufferFlushTx io s = .ok (true, s) := by
        unfold ftBufferFlushTx cmdBuffer
        rw [bind_assoc, get_bind, pure_bind, htx]
        rfl
      rw [hleft, flushTx_none htx]
      exact .ok true ⟨h.formed.represents d queued flushes, fun _ => htx⟩
  | some p =>
      have hdata : readBytes s.bytes p s.cmdBuffer.txNumBytes = (s.lists ns).txData := by
        unfold State.lists
        rw [htx]
        rfl
      have hsome : (s.sys ns d queued flushes).buffer.txBuffer.isSome = true := by
        change s.cmdBuffer.txBuffer.isSome = true
        rw [htx]
        rfl
      rw [flushTx_eq htx hdata] at hspec ⊢
      rw [flushTx_some hsome]
      by_cases hfull : (D2xxCall.write (s.lists ns).txData
          (s.writeReply io (s.lists ns).txData)).inFull = true
      · rw [if_pos hfull] at hspec ⊢
        rw [if_pos (show (D2xxCall.write (s.sys ns d queued flushes).buffer.txData
          ((s.sys ns d queued flushes).writeReply io)).inFull = true from hfull)]
        refine .ok true ⟨⟨⟨rfl, rfl, rfl, rfl, rfl, rfl⟩, hspec.1⟩, fun _ => rfl⟩
      · rw [if_neg hfull] at hspec ⊢
        rw [if_neg (show ¬(D2xxCall.write (s.sys ns d queued flushes).buffer.txData
          ((s.sys ns d queued flushes).writeReply io)).inFull = true from hfull)]
        exact .ok false
          ⟨⟨⟨rfl, rfl, rfl, rfl, rfl, rfl⟩, hspec.1⟩, fun hok => absurd hok Bool.false_ne_true⟩

/-- The data of a node lies in the RX buffer. -/
theorem Laid.le_data (h : Laid chip s ns) {p node : ℕ} (hrx : s.cmdBuffer.rxBuffer = some p)
    (hnode : node ∈ ns) : p ≤ (s.nodes node).data := by
  have hmem : some (s.nodes node).data ∈ ns.map fun node => some (s.nodes node).data :=
    List.mem_map_of_mem hnode
  rw [h.data, hrx] at hmem
  obtain ⟨x, -, hx⟩ := List.mem_map.mp hmem
  rw [← Option.some.inj hx]
  exact Nat.le_add_right p x.1

/-- The observers store the same as the nodes. -/
theorem foldl_observers (h : WellFormed chip s ns) {p : ℕ} (hrx : s.cmdBuffer.rxBuffer = some p)
    (hlen : (s.readReply io).data.length = s.cmdBuffer.rxNumBytes) (d : Driver)
    (queued : List QueuedData) (flushes : List (TinyXvc.FtBuffer × τ)) (m : Mem) :
    (s.lists ns).rxObservers.foldl
        (TinyXvc.RxObserverNode.run ((s.sys ns d queued flushes).afterRead io)
          (s.readReply io).data) m =
      ns.foldl (fun m node =>
        (s.nodes node).run (s.afterRead io p) (p + s.cmdBuffer.rxNumBytes) m) m := by
  have htake : (s.readReply io).data.take s.cmdBuffer.rxNumBytes = (s.readReply io).data := by
    rw [← hlen]
    exact List.take_length
  rw [State.lists, List.foldl_map]
  apply List.foldl_ext
  intro m node hnode
  have hbegin : p + ((s.nodes node).data - p) = (s.nodes node).data :=
    Nat.add_sub_cancel' (h.le_data hrx hnode)
  have hdrop := readBytes_drop s.bytes p ((s.nodes node).data - p) (s.readReply io).data
  rw [hbegin, hlen] at hdrop
  unfold TinyXvc.RxObserverNode.run TinyXvc.RxObserverNode.copy RxObserverNode.run State.observer
    State.afterRead
  rw [hrx, htake]
  dsimp only [Option.getD_some]
  rw [hdrop]
  cases (s.nodes node).fn with
  | bitCopier => rfl
  | byteCopier => rfl

theorem flushRx_eq (h : WellFormed chip s ns) {p : ℕ} (hrx : s.cmdBuffer.rxBuffer = some p) :
    ftBufferFlushRx io s =
      if (D2xxCall.read s.cmdBuffer.rxNumBytes (s.readReply io)).inFull then
        .ok (true, ((s.afterRead io p).rxObserved p ns).rxCleared)
      else .ok (false, s.afterRead io p) := by
  have hread : ftRead io p s.cmdBuffer.rxNumBytes s.cmdBuffer.maxRxBufferBytes s =
      .ok (s.readReply io, s.afterRead io p) := rfl
  have hrun := runObservers_eq (s := s.afterRead io p) (p + s.cmdBuffer.rxNumBytes)
    h.length_le h.links
  unfold ftBufferFlushRx cmdBuffer
  rw [bind_assoc, get_bind, pure_bind, hrx]
  dsimp only
  rw [bind_ok hread]
  simp only [D2xxCall.inFull]
  by_cases hok : (s.readReply io).success = true
  · by_cases hlen : (s.readReply io).data.length = s.cmdBuffer.rxNumBytes
    · simp [hok, hlen, bind_ok hrun]
      rfl
    · simp [hok, hlen]
      rfl
  · simp [hok]
    rfl

theorem flushRx_refines (h : Represents chip ns s t) (htx : s.cmdBuffer.txBuffer = none) :
    both (ftBufferFlushRx io) (TinyXvc.ftBufferFlushRx io)
      (fun ok s' t' => if ok then Represents chip [] s' t' else Represents chip ns s' t') EndedOom
      s t := by
  have hspec : wp (ftBufferFlushRx io) _ _ s := flushRx_spec h.formed
  unfold both wp at *
  rw [h.eq_sys]
  generalize t.gFtdi = d
  generalize t.queued = queued
  generalize t.flushes = flushes
  cases hrx : s.cmdBuffer.rxBuffer with
  | none =>
      have hnil : ns = [] := h.formed.nodes_nil_iff.mpr (h.formed.rx_null.mp hrx)
      have hleft : ftBufferFlushRx io s = .ok (true, s) := by
        unfold ftBufferFlushRx cmdBuffer
        rw [bind_assoc, get_bind, pure_bind, hrx]
        rfl
      rw [hleft, flushRx_none hrx]
      have hformed := h.formed
      rw [hnil] at hformed ⊢
      exact .ok true (hformed.represents d queued flushes)
  | some p =>
      have hsome : (s.sys ns d queued flushes).buffer.rxBuffer.isSome = true := by
        change s.cmdBuffer.rxBuffer.isSome = true
        rw [hrx]
        rfl
      rw [flushRx_eq h.formed hrx] at hspec ⊢
      rw [flushRx_some io hsome]
      by_cases hfull : (D2xxCall.read s.cmdBuffer.rxNumBytes (s.readReply io)).inFull = true
      · have hlen : (s.readReply io).data.length = s.cmdBuffer.rxNumBytes := by
          rw [D2xxCall.inFull, Bool.and_eq_true, beq_iff_eq] at hfull
          exact hfull.2
        rw [if_pos hfull] at hspec ⊢
        rw [if_pos (show (D2xxCall.read (s.sys ns d queued flushes).buffer.rxNumBytes
          ((s.sys ns d queued flushes).readReply io)).inFull = true from hfull)]
        refine .ok true ⟨⟨?_, ?_, rfl, rfl, rfl, rfl⟩, hspec.2.1⟩
        · change { s.lists ns with rxObservers := [], rxBuffer := none, rxNumBytes := 0 } =
            State.lists ((s.afterRead io p).rxObserved p ns).rxCleared []
          unfold State.lists
          dsimp only [State.rxCleared, State.rxObserved, State.afterRead]
          rw [htx]
          rfl
        · exact foldl_observers h.formed hrx hlen d queued flushes s.mem
      · rw [if_neg hfull] at hspec ⊢
        rw [if_neg (show ¬(D2xxCall.read (s.sys ns d queued flushes).buffer.rxNumBytes
          ((s.sys ns d queued flushes).readReply io)).inFull = true from hfull)]
        refine .ok false ⟨⟨?_, rfl, rfl, rfl, rfl, rfl⟩, hspec.2⟩
        change s.lists ns = State.lists (s.afterRead io p) ns
        unfold State.lists
        dsimp only [State.afterRead]
        rw [htx]
        rfl

theorem flush_refines (h : Represents chip ns s t) :
    both (ftBufferFlush io) (TinyXvc.ftBufferFlush io)
      (fun ok s' t' => if ok then Represents chip [] s' t' ∧ s'.cmdBuffer.txBuffer = none ∧
          s'.cmdBuffer.rxBuffer = none
        else Represents chip ns s' t') EndedOom s t := by
  have hboth : both (ftBufferFlush io) (TinyXvc.ftBufferFlush io)
      (fun ok s' t' => Shows (if ok then [] else ns) s' t') EndedOom s t := by
    have henter : (modify fun t : Sys τ =>
        { t with flushes := t.flushes ++ [(t.gFtdi.cmdBuffer, t.usb)] } : TinyXvc.Prog τ PUnit) t =
        .ok (⟨⟩, t.entered) := rfl
    have hentered : Represents chip ns s t.entered := ⟨⟨h.lists, { h.effects with }⟩, h.formed⟩
    unfold ftBufferFlush TinyXvc.ftBufferFlush
    apply both_right henter
    apply both_bind
    refine both_mono (flushTx_refines hentered) ?_ fun _ _ _ he => he
    rintro (_ | _) s₁ t₁ ⟨h₁, htx₁⟩
    · exact both_pure h₁.toShows
    · rw [if_pos rfl, if_pos rfl]
      apply both_bind
      refine both_mono (flushRx_refines h₁ (htx₁ rfl)) ?_ fun _ _ _ he => he
      rintro (_ | _) s₂ t₂ h₂
      · exact both_pure h₂.toShows
      · -- both give the whole pool back
        have hlists : { t₂.buffer with pool := txvcMempoolReclaimAll t₂.buffer.pool } =
            State.lists { s₂ with
              cmdBuffer := { s₂.cmdBuffer with
                pool := txvcMempoolReclaimAll s₂.cmdBuffer.pool }
              blocks := [] } [] := by
          rw [h₂.lists]
          rfl
        exact both_ok rfl rfl ⟨hlists, { h₂.effects with }⟩
  refine both_mono (both_wp hboth (wp_mono (flush_invariant h.formed) (fun _ _ hq => hq)
    fun _ _ _ => trivial)) ?_ fun _ _ _ he => he
  rintro (_ | _) s' t' ⟨hshows, hformed⟩
  · exact ⟨hshows, hformed⟩
  · exact ⟨⟨hshows, hformed.1⟩, hformed.2⟩

theorem ensure_refines (h : Represents chip ns s t) {m n : ℕ} (hm : m ≤ chip) (hn : n ≤ chip) :
    both (ftBufferEnsureCanAppend io m n) (TinyXvc.ftBufferEnsureCanAppend io m n)
      (fun ok s' t' => ∃ ns', Represents chip ns' s' t' ∧
        (ok = true → s'.cmdBuffer.txNumBytes + m ≤ s'.cmdBuffer.maxTxBufferBytes ∧
          s'.cmdBuffer.rxNumBytes + n ≤ s'.cmdBuffer.maxRxBufferBytes)) EndedOom s t := by
  have hassert : (decide (m ≤ s.cmdBuffer.maxRxBufferBytes) &&
      decide (n ≤ s.cmdBuffer.maxRxBufferBytes)) = true := by
    rw [h.formed.maxRx, decide_eq_true hm, decide_eq_true hn]
    rfl
  have hbuffer : (TinyXvc.cmdBuffer : TinyXvc.Prog τ TinyXvc.FtBuffer) t = .ok (s.lists ns, t) :=
    congrArg (fun b => Except.ok (b, t)) h.lists
  unfold ftBufferEnsureCanAppend TinyXvc.ftBufferEnsureCanAppend
  apply both_left (show cmdBuffer s = .ok (s.cmdBuffer, s) from rfl)
  apply both_right hbuffer
  change both (alwaysAssert _ _ >>= _) (alwaysAssert (decide (m ≤ s.cmdBuffer.maxRxBufferBytes) &&
    decide (n ≤ s.cmdBuffer.maxRxBufferBytes)) _ >>= _) _ _ s t
  rw [hassert, alwaysAssert_true, alwaysAssert_true, pure_bind, pure_bind, h.formed.length_txData]
  apply both_ite
  · intro _
    refine both_mono (flush_refines h) ?_ fun _ _ _ he => he
    rintro (_ | _) s' t' h'
    · exact ⟨ns, h', fun hok => absurd hok Bool.false_ne_true⟩
    · obtain ⟨h', htx', hrx'⟩ := h'
      refine ⟨[], h', fun _ => ?_⟩
      rw [h'.formed.tx_null.mp htx', h'.formed.rx_null.mp hrx', h'.formed.maxTx, h'.formed.maxRx]
      omega
  · intro hfits
    refine both_pure ⟨ns, h, fun _ => ?_⟩
    simp only [Bool.or_eq_true, decide_eq_true_eq] at hfits
    omega

end Cells

end TinyXvc
