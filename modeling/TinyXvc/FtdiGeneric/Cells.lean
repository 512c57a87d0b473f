import TinyXvc.FtdiGeneric.Buffer
import TinyXvc.Mempool.Runs
import TinyXvc.Lib.LinkedList
import TinyXvc.Lib.Tiling

/-!
# The command buffer in memory

`struct ft_buffer` and its observer nodes as they lie in memory: the bytes of
the two buffers, and nodes that are linked by pointers.  `calls` and the fields
after it are history, which no function reads: the blocks cut off the pool
since its last reclaim, the part of the RX buffer that each node is for, and
the copies made into a buffer.
-/

namespace TinyXvc

namespace Cells

/-- `struct rx_observer_node`. -/
structure RxObserverNode where
  next : Option ℕ
  fn : RxObserverFn
  data : ℕ
  extra : ℕ
  deriving DecidableEq, Repr

/-- `struct ft_buffer`. -/
structure FtBuffer where
  pool : TxvcMempool
  txBuffer : Option ℕ
  txNumBytes : ℕ
  maxTxBufferBytes : ℕ
  rxBuffer : Option ℕ
  rxNumBytes : ℕ
  maxRxBufferBytes : ℕ
  rxObserverFirst : Option ℕ
  rxObserverLast : Option ℕ
  deriving DecidableEq, Repr

/-- A copy of `len` bytes to `dst`, meant for the `size` bytes from `block` on. -/
structure Copy where
  dst : ℕ
  len : ℕ
  block : ℕ
  size : ℕ
  deriving DecidableEq, Repr

structure State (τ : Type) where
  cmdBuffer : FtBuffer
  bytes : ℕ → UInt8
  nodes : ℕ → RxObserverNode
  mem : Mem
  bitExtras : ℕ → BitCopierRxObserverExtra
  byteExtras : ℕ → ByteCopierRxObserverExtra
  usb : τ
  calls : List D2xxCall
  blocks : List PoolBlock
  slices : List (ℕ × ℕ)
  copies : List Copy

def ftBufferInit (poolStart chipBufferBytes : ℕ) : FtBuffer where
  pool := txvcMempoolInit poolStart (128 * 1024)
  txBuffer := none
  txNumBytes := 0
  maxTxBufferBytes := 3 * chipBufferBytes
  rxBuffer := none
  rxNumBytes := 0
  maxRxBufferBytes := chipBufferBytes
  rxObserverFirst := none
  rxObserverLast := none

/-- `len` bytes from address `p` on. -/
def readBytes (bytes : ℕ → UInt8) (p len : ℕ) : List UInt8 :=
  (List.range len).map fun i => bytes (p + i)

def writeBytes (bytes : ℕ → UInt8) (p : ℕ) (data : List UInt8) : ℕ → UInt8 :=
  fun i => if p ≤ i ∧ i < p + data.length then data.getD (i - p) 0 else bytes i

variable {τ : Type}

abbrev Prog (τ : Type) := Exec Abort (State τ)

def cmdBuffer : Prog τ FtBuffer := do
  let s ← get
  pure s.cmdBuffer

def modifyCmdBuffer (f : FtBuffer → FtBuffer) : Prog τ Unit :=
  modify fun s => { s with cmdBuffer := f s.cmdBuffer }

def deref (p : Option ℕ) : Prog τ ℕ :=
  match p with
  | some addr => pure addr
  | none => Exec.abort .nullPointer

@[simp] theorem deref_some (addr : ℕ) : (deref (some addr) : Prog τ ℕ) = pure addr := rfl

/-- An allocation from `b->pool`. -/
def alloc (alloc : TxvcMempool → Prog τ (Option ℕ × TxvcMempool)) (size align : ℕ) :
    Prog τ (Option ℕ) := do
  let b ← cmdBuffer
  let (p, pool) ← alloc b.pool
  modify fun s =>
    { s with
      cmdBuffer := { s.cmdBuffer with pool := pool }
      blocks := s.blocks ++ (p.map fun addr => ⟨addr, size, align⟩).toList }
  pure p

def allocUnaligned (size : ℕ) : Prog τ (Option ℕ) :=
  alloc (fun pool => txvcMempoolAllocUnaligned pool size) size 1

/-- `txvc_mempool_alloc_object`. -/
def allocObject (size : ℕ) : Prog τ (Option ℕ) :=
  alloc (fun pool => txvcMempoolAllocAligned pool size alignofRecord) size alignofRecord

/-- `o->fn(o->data, o->extra)`.  The observer is given what was received from
its data pointer on. -/
def RxObserverNode.run (s : State τ) (rxEnd : ℕ) (o : RxObserverNode) (m : Mem) : Mem :=
  let rxData := Octets.ofList (readBytes s.bytes o.data (rxEnd - o.data))
  match o.fn with
  | .bitCopier => bitCopierRxObserverFn rxData (s.bitExtras o.extra) m
  | .byteCopier => byteCopierRxObserverFn rxData (s.byteExtras o.extra) m

/-- The loop over the nodes from `o` on, for at most `fuel` rounds. -/
def runObservers (rxEnd : ℕ) : ℕ → Option ℕ → Prog τ Unit
  | _, none => pure ()
  | 0, some _ => Exec.abort .endless
  | fuel + 1, some o => do
      let s ← get
      modify fun s => { s with mem := (s.nodes o).run s rxEnd s.mem }
      runObservers rxEnd fuel (s.nodes o).next

section Operations

variable (io : D2xx τ)

def ftWrite (txBuffer txNumBytes : ℕ) : Prog τ FtWriteReply :=
  modifyGet fun s =>
    let data := readBytes s.bytes txBuffer txNumBytes
    let (reply, usb) := io.ftWrite data s.usb
    (reply, { s with usb := usb, calls := s.calls ++ [.write data reply] })

/-- `FT_Read` puts at most as many bytes into the RX buffer as it is asked for. -/
def ftRead (rxBuffer rxNumBytes size : ℕ) : Prog τ FtReadReply :=
  modifyGet fun s =>
    let (reply, usb) := io.ftRead rxNumBytes s.usb
    (reply,
      { s with
        usb := usb
        calls := s.calls ++ [.read rxNumBytes reply]
        bytes := writeBytes s.bytes rxBuffer (reply.data.take rxNumBytes)
        copies := s.copies ++ [⟨rxBuffer, rxNumBytes, rxBuffer, size⟩] })

/-- The first half of `ft_buffer_flush`. -/
def ftBufferFlushTx : Prog τ Bool := do
  let b ← cmdBuffer
  match b.txBuffer with
  | some txBuffer => do
      let reply ← ftWrite io txBuffer b.txNumBytes
      if !reply.success then pure false
      else if reply.written ≠ b.txNumBytes then pure false
      else
        modifyCmdBuffer fun b => { b with txBuffer := none, txNumBytes := 0 }
        pure true
  | none => pure true

/-- The second half of `ft_buffer_flush`. -/
def ftBufferFlushRx : Prog τ Bool := do
  let b ← cmdBuffer
  match b.rxBuffer with
  | some rxBuffer => do
      let reply ← ftRead io rxBuffer b.rxNumBytes b.maxRxBufferBytes
      if !reply.success then pure false
      else if reply.data.length ≠ b.rxNumBytes then pure false
      else
        runObservers (rxBuffer + b.rxNumBytes) b.rxNumBytes b.rxObserverFirst
        modify fun s =>
          { s with
            cmdBuffer := { s.cmdBuffer with
              rxObserverFirst := none
              rxObserverLast := none
              rxBuffer := none
              rxNumBytes := 0 }
            slices := [] }
        pure true
  | none => pure true

def ftBufferFlush : Prog τ Bool := do
  if ← ftBufferFlushTx io then
    if ← ftBufferFlushRx io then
      modify fun s =>
        { s with
          cmdBuffer := { s.cmdBuffer with pool := txvcMempoolReclaimAll s.cmdBuffer.pool }
          blocks := [] }
      pure true
    else pure false
  else pure false

/-- `memcpy(b->txBuffer + b->txNumBytes, txData, txNumBytes)`. -/
def memcpyTx (txData : List UInt8) : Prog τ Unit := do
  let b ← cmdBuffer
  let txBuffer ← deref b.txBuffer
  modify fun s =>
    { s with
      bytes := writeBytes s.bytes (txBuffer + b.txNumBytes) txData
      copies := s.copies ++
        [⟨txBuffer + b.txNumBytes, txData.length, txBuffer, b.maxTxBufferBytes⟩] }

def ftBufferAppendTx (txData : List UInt8) : Prog τ Unit := do
  if txData.length > 0 then
    let b ← cmdBuffer
    if b.txBuffer.isNone then
      let p ← allocUnaligned b.maxTxBufferBytes
      modifyCmdBuffer fun b => { b with txBuffer := p }
    memcpyTx txData
    modifyCmdBuffer fun b => { b with txNumBytes := b.txNumBytes + txData.length }

/-- A node for the `rxNumBytes` replies that are appended next. -/
def addNode (fn : RxObserverFn) (extra rxNumBytes : ℕ) : Prog τ Unit := do
  let node ← deref (← allocObject sizeofRxObserverNode)
  let b ← cmdBuffer
  let rxBuffer ← deref b.rxBuffer
  modify fun s =>
    { s with
      nodes := Function.update s.nodes node ⟨none, fn, rxBuffer + b.rxNumBytes, extra⟩
      slices := s.slices ++ [(b.rxNumBytes, rxNumBytes)] }
  if b.rxObserverFirst.isNone then
    modifyCmdBuffer fun b => { b with rxObserverFirst := some node, rxObserverLast := some node }
  else
    let last ← deref b.rxObserverLast
    modify fun s =>
      { s with nodes := Function.update s.nodes last { s.nodes last with next := some node } }
    modifyCmdBuffer fun b => { b with rxObserverLast := some node }

def ftBufferAddObserver (observer : Option (RxObserverFn × ℕ)) (rxNumBytes : ℕ) : Prog τ Unit :=
  match observer with
  | none => pure ()
  | some (fn, extra) => addNode fn extra rxNumBytes

def ftBufferAppendRx (observer : Option (RxObserverFn × ℕ)) (rxNumBytes : ℕ) : Prog τ Unit := do
  if rxNumBytes > 0 then
    let b ← cmdBuffer
    if b.rxBuffer.isNone then
      let p ← allocUnaligned b.maxRxBufferBytes
      modifyCmdBuffer fun b => { b with rxBuffer := p }
    ftBufferAddObserver observer rxNumBytes
    modifyCmdBuffer fun b => { b with rxNumBytes := b.rxNumBytes + rxNumBytes }

def ftBufferAppend (txData : List UInt8) (observer : Option (RxObserverFn × ℕ)) (rxNumBytes : ℕ) :
    Prog τ Bool := do
  ftBufferAppendTx txData
  ftBufferAppendRx observer rxNumBytes
  pure true

def ftBufferEnsureCanAppend (txNumBytes rxNumBytes : ℕ) : Prog τ Bool := do
  let b ← cmdBuffer
  alwaysAssert (txNumBytes ≤ b.maxRxBufferBytes && rxNumBytes ≤ b.maxRxBufferBytes)
    "txNumBytes <= b->maxRxBufferBytes && rxNumBytes <= b->maxRxBufferBytes"
  let shouldFlush := b.txNumBytes + txNumBytes > b.maxTxBufferBytes
    || b.rxNumBytes + rxNumBytes > b.maxRxBufferBytes
  if shouldFlush then ftBufferFlush io else pure true

def ftBufferAddWriteToChipWithReadback (txData : List UInt8)
    (observer : Option (RxObserverFn × ℕ)) (rxNumBytes : ℕ) : Prog τ Bool :=
  ftBufferEnsureCanAppend io txData.length rxNumBytes
    <&&> ftBufferAppend txData observer rxNumBytes

def ftBufferAddWriteToChipWithReadbackSimple (txData : List UInt8) (rxData : Ptr)
    (rxNumBytes : ℕ) : Prog τ Bool := do
  if ← ftBufferEnsureCanAppend io txData.length rxNumBytes then
    let e ← deref (← allocObject sizeofByteCopierExtra)
    modify fun s => { s with byteExtras := Function.update s.byteExtras e ⟨rxData, rxNumBytes⟩ }
    ftBufferAppend txData (some (.byteCopier, e)) rxNumBytes
  else pure false

end Operations

/-- A call of the command buffer. -/
inductive Call where
  | add (txData : List UInt8) (observer : Option (RxObserverFn × ℕ)) (rxNumBytes : ℕ)
  | addSimple (txData : List UInt8) (rxData : Ptr) (rxNumBytes : ℕ)
  | flush
  deriving DecidableEq, Repr

def Call.perform (io : D2xx τ) : Call → Prog τ Bool
  | add txData observer rxNumBytes =>
      ftBufferAddWriteToChipWithReadback io txData observer rxNumBytes
  | addSimple txData rxData rxNumBytes =>
      ftBufferAddWriteToChipWithReadbackSimple io txData rxData rxNumBytes
  | flush => ftBufferFlush io

/-- Both sizes fit the chip's buffer, and replies have an observer. -/
def Call.Admissible (chipBufferBytes : ℕ) : Call → Prop
  | add txData observer rxNumBytes => txData.length ≤ chipBufferBytes ∧
      rxNumBytes ≤ chipBufferBytes ∧ (0 < rxNumBytes → observer.isSome = true)
  | addSimple txData _ rxNumBytes =>
      txData.length ≤ chipBufferBytes ∧ rxNumBytes ≤ chipBufferBytes
  | flush => True

end Cells

end TinyXvc
