import TinyXvc.FtdiGeneric.Bits
import TinyXvc.JtagSplitter
import TinyXvc.Mempool

/-!
# The command buffer of the FTDI driver

`struct ft_buffer` of `ftdi_generic.c` and its operations.  The D2XX library is
a parameter: how a write and a read end is up to it.  `calls`, `queued` and
`flushes` are history, which no function reads.
-/

namespace TinyXvc

structure FtWriteReply where
  success : Bool
  written : ℕ
  deriving DecidableEq, Repr

structure FtReadReply where
  success : Bool
  data : List UInt8
  deriving DecidableEq, Repr

/-- The D2XX calls of the command buffer, over the state `τ` of the other side. -/
structure D2xx (τ : Type) where
  ftWrite : List UInt8 → τ → FtWriteReply × τ
  ftRead : ℕ → τ → FtReadReply × τ

inductive D2xxCall where
  | write (data : List UInt8) (reply : FtWriteReply)
  | read (numBytes : ℕ) (reply : FtReadReply)
  deriving DecidableEq, Repr

/-- The call succeeded and transferred what it was asked to. -/
def D2xxCall.inFull : D2xxCall → Bool
  | .write data reply => reply.success && reply.written == data.length
  | .read numBytes reply => reply.success && reply.data.length == numBytes

structure BitCopierRxObserverExtra where
  fromBit : ℕ
  dst : Ptr
  toBit : ℕ
  numBits : ℕ
  deriving DecidableEq, Repr

structure ByteCopierRxObserverExtra where
  dst : Ptr
  numBytes : ℕ
  deriving DecidableEq, Repr

inductive RxObserverFn where
  | bitCopier
  | byteCopier
  deriving DecidableEq, Repr

/-- A queued observer: where its node lies, the offset of its data in the RX
buffer, and the address of its extra record. -/
structure RxObserverNode where
  addr : ℕ
  fn : RxObserverFn
  data : ℕ
  extra : ℕ
  deriving DecidableEq, Repr

/-- `txData` is the first `txNumBytes` bytes of the TX buffer. -/
structure FtBuffer where
  pool : TxvcMempool
  txBuffer : Option ℕ
  txData : List UInt8
  maxTxBufferBytes : ℕ
  rxBuffer : Option ℕ
  rxNumBytes : ℕ
  maxRxBufferBytes : ℕ
  rxObservers : List RxObserverNode
  deriving DecidableEq, Repr

structure Driver where
  chipBufferBytes : ℕ
  highSpeedCapable : Bool
  jtagSplitter : JtagSplitter
  lastTdi : Bool
  pool : TxvcMempool
  cmdBuffer : FtBuffer
  deriving DecidableEq, Repr

/-- What one `ft_buffer_append` was given to send, and what it expects back. -/
structure QueuedData where
  txData : List UInt8
  rxNumBytes : ℕ
  deriving DecidableEq, Repr

/-- Everything the driver reads and writes.  The extra records are found by
their addresses.  `flushes` has the buffer and the other side at the start of
every `ft_buffer_flush`. -/
structure Sys (τ : Type) where
  gFtdi : Driver
  mem : Mem
  bitExtras : ℕ → BitCopierRxObserverExtra
  byteExtras : ℕ → ByteCopierRxObserverExtra
  usb : τ
  calls : List D2xxCall
  queued : List QueuedData
  flushes : List (FtBuffer × τ)

/-- `sizeof` and `alignof` on LP64. -/
def sizeofRxObserverNode : ℕ := 32
def sizeofBitCopierExtra : ℕ := 24
def sizeofByteCopierExtra : ℕ := 16
def alignofRecord : ℕ := 8

def ftBufferInit (poolStart chipBufferBytes : ℕ) : FtBuffer where
  pool := txvcMempoolInit poolStart (128 * 1024)
  txBuffer := none
  txData := []
  maxTxBufferBytes := 3 * chipBufferBytes
  rxBuffer := none
  rxNumBytes := 0
  maxRxBufferBytes := chipBufferBytes
  rxObservers := []

/-- `bit_copier_rx_observer_fn` and `byte_copier_rx_observer_fn`, on the reply
bytes from the observer's data pointer on. -/
def bitCopierRxObserverFn (rxData : Octets) (e : BitCopierRxObserverExtra) (m : Mem) : Mem :=
  m.write e.dst (copyBits rxData e.fromBit (m.view e.dst) e.toBit e.numBits false)

def byteCopierRxObserverFn (rxData : Octets) (e : ByteCopierRxObserverExtra) (m : Mem) : Mem :=
  m.write e.dst fun i => if i < e.numBytes then rxData i else m.view e.dst i

variable {τ : Type}

abbrev Prog (τ : Type) := Exec Abort (Sys τ)

def Sys.setBuffer (s : Sys τ) (b : FtBuffer) : Sys τ :=
  { s with gFtdi := { s.gFtdi with cmdBuffer := b } }

def cmdBuffer : Prog τ FtBuffer := do
  let s ← get
  pure s.gFtdi.cmdBuffer

def modifyCmdBuffer (f : FtBuffer → FtBuffer) : Prog τ Unit :=
  modify fun s => s.setBuffer (f s.gFtdi.cmdBuffer)

/-- An allocation from `cmdBuffer.pool`. -/
def allocCmd (alloc : TxvcMempool → Prog τ (Option ℕ × TxvcMempool)) : Prog τ (Option ℕ) := do
  let b ← cmdBuffer
  let (p, pool) ← alloc b.pool
  modifyCmdBuffer fun b => { b with pool := pool }
  pure p

/-- An allocation from `d->pool`. -/
def allocDriver (alloc : TxvcMempool → Prog τ (Option ℕ × TxvcMempool)) : Prog τ (Option ℕ) := do
  let s ← get
  let (p, pool) ← alloc s.gFtdi.pool
  modify fun s => { s with gFtdi := { s.gFtdi with pool := pool } }
  pure p

/-- Writing the fields of an object needs its address. -/
def deref (p : Option ℕ) : Prog τ ℕ :=
  match p with
  | some addr => pure addr
  | none => Exec.abort .nullPointer

/-- An observer function with its extra record. -/
inductive RxCopy where
  | bits (e : BitCopierRxObserverExtra)
  | bytes (e : ByteCopierRxObserverExtra)
  deriving DecidableEq, Repr

def RxCopy.run (rxData : Octets) : RxCopy → Mem → Mem
  | bits e, m => bitCopierRxObserverFn rxData e m
  | bytes e, m => byteCopierRxObserverFn rxData e m

def RxObserverNode.copy (s : Sys τ) (o : RxObserverNode) : RxCopy :=
  match o.fn with
  | .bitCopier => .bits (s.bitExtras o.extra)
  | .byteCopier => .bytes (s.byteExtras o.extra)

def RxObserverNode.run (s : Sys τ) (rx : List UInt8) (m : Mem) (o : RxObserverNode) : Mem :=
  (o.copy s).run (Octets.ofList (rx.drop o.data)) m

section Operations

variable (io : D2xx τ)

def ftWrite (data : List UInt8) : Prog τ FtWriteReply :=
  modifyGet fun s =>
    let (reply, usb) := io.ftWrite data s.usb
    (reply, { s with usb := usb, calls := s.calls ++ [.write data reply] })

def ftRead (numBytes : ℕ) : Prog τ FtReadReply :=
  modifyGet fun s =>
    let (reply, usb) := io.ftRead numBytes s.usb
    (reply, { s with usb := usb, calls := s.calls ++ [.read numBytes reply] })

/-- The first half of `ft_buffer_flush`. -/
def ftBufferFlushTx : Prog τ Bool := do
  let b ← cmdBuffer
  if b.txBuffer.isSome then
    let reply ← ftWrite io b.txData
    if !reply.success then pure false
    else if reply.written ≠ b.txData.length then pure false
    else
      modifyCmdBuffer fun b => { b with txBuffer := none, txData := [] }
      pure true
  else pure true

/-- The second half of `ft_buffer_flush`. -/
def ftBufferFlushRx : Prog τ Bool := do
  let b ← cmdBuffer
  if b.rxBuffer.isSome then
    let reply ← ftRead io b.rxNumBytes
    if !reply.success then pure false
    else if reply.data.length ≠ b.rxNumBytes then pure false
    else
      modify fun s => { s with mem := b.rxObservers.foldl (RxObserverNode.run s reply.data) s.mem }
      modifyCmdBuffer fun b => { b with rxObservers := [], rxBuffer := none, rxNumBytes := 0 }
      pure true
  else pure true

def ftBufferFlush : Prog τ Bool := do
  modify fun s => { s with flushes := s.flushes ++ [(s.gFtdi.cmdBuffer, s.usb)] }
  if ← ftBufferFlushTx io then
    if ← ftBufferFlushRx io then
      modifyCmdBuffer fun b => { b with pool := txvcMempoolReclaimAll b.pool }
      pure true
    else pure false
  else pure false

def ftBufferAppendTx (txData : List UInt8) : Prog τ Unit := do
  if txData.length > 0 then
    let b ← cmdBuffer
    if b.txBuffer.isNone then
      let p ← allocCmd fun pool => txvcMempoolAllocUnaligned pool b.maxTxBufferBytes
      modifyCmdBuffer fun b => { b with txBuffer := p }
    modifyCmdBuffer fun b => { b with txData := b.txData ++ txData }

/-- Queues an observer of the reply bytes that are appended next. -/
def ftBufferAddObserver : Option (RxObserverFn × ℕ) → Prog τ Unit
  | none => pure ()
  | some (fn, extra) => do
      let node ← deref (← allocCmd fun pool =>
        txvcMempoolAllocAligned pool sizeofRxObserverNode alignofRecord)
      modifyCmdBuffer fun b =>
        { b with rxObservers := b.rxObservers ++ [⟨node, fn, b.rxNumBytes, extra⟩] }

def ftBufferAppendRx (observer : Option (RxObserverFn × ℕ)) (rxNumBytes : ℕ) : Prog τ Unit := do
  if rxNumBytes > 0 then
    let b ← cmdBuffer
    if b.rxBuffer.isNone then
      let p ← allocCmd fun pool => txvcMempoolAllocUnaligned pool b.maxRxBufferBytes
      modifyCmdBuffer fun b => { b with rxBuffer := p }
    ftBufferAddObserver observer
    modifyCmdBuffer fun b => { b with rxNumBytes := b.rxNumBytes + rxNumBytes }

def ftBufferAppend (txData : List UInt8) (observer : Option (RxObserverFn × ℕ)) (rxNumBytes : ℕ) :
    Prog τ Bool := do
  ftBufferAppendTx txData
  ftBufferAppendRx observer rxNumBytes
  modify fun s => { s with queued := s.queued ++ [⟨txData, rxNumBytes⟩] }
  pure true

def ftBufferEnsureCanAppend (txNumBytes rxNumBytes : ℕ) : Prog τ Bool := do
  let b ← cmdBuffer
  alwaysAssert (txNumBytes ≤ b.maxRxBufferBytes && rxNumBytes ≤ b.maxRxBufferBytes)
    "txNumBytes <= b->maxRxBufferBytes && rxNumBytes <= b->maxRxBufferBytes"
  let shouldFlush := b.txData.length + txNumBytes > b.maxTxBufferBytes
    || b.rxNumBytes + rxNumBytes > b.maxRxBufferBytes
  if shouldFlush then ftBufferFlush io else pure true

def ftBufferAddWriteToChipWithReadback (txData : List UInt8)
    (observer : Option (RxObserverFn × ℕ)) (rxNumBytes : ℕ) : Prog τ Bool :=
  ftBufferEnsureCanAppend io txData.length rxNumBytes
    <&&> ftBufferAppend txData observer rxNumBytes

def ftBufferAddWriteToChip (txData : List UInt8) : Prog τ Bool :=
  ftBufferAddWriteToChipWithReadback io txData none 0

def ftBufferAddWriteToChipWithReadbackSimple (txData : List UInt8) (rxData : Ptr)
    (rxNumBytes : ℕ) : Prog τ Bool := do
  if ← ftBufferEnsureCanAppend io txData.length rxNumBytes then
    let e ← deref (← allocCmd fun pool =>
      txvcMempoolAllocAligned pool sizeofByteCopierExtra alignofRecord)
    modify fun s => { s with byteExtras := Function.update s.byteExtras e ⟨rxData, rxNumBytes⟩ }
    ftBufferAppend txData (some (.byteCopier, e)) rxNumBytes
  else pure false

end Operations

end TinyXvc
