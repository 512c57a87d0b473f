import TinyXvc.Defs

/-!
# A connection of the server

The handlers and the loop of `server.c` for one client.  The socket is a queue:
the client's bytes arrive one after the other, `MSG_PEEK` shows a part of those
that have arrived, `MSG_WAITALL` waits for those it is asked for, and what is sent
is sent whole.  The terminate flag is never set.
-/

namespace TinyXvc.Server

/-- What others see of the connection: calls of the driver and what is sent. -/
inductive Event where
  | maxVectorBits
  | setTckPeriod (tckPeriodNs : ℤ)
  | shiftBits (numBits : ℕ) (tms tdi : List UInt8)
  | response (bytes : List UInt8)
  deriving DecidableEq, Repr

/-- The methods of `struct txvc_driver`, over the state `δ`.  `shiftBits` gets the
octets of the TMS and TDI vectors, and writes to the TDO vector. -/
structure Driver (δ : Type) where
  maxVectorBits : δ → ℤ × δ
  setTckPeriod : ℤ → δ → ℤ × δ
  shiftBits : ℕ → List UInt8 → List UInt8 → Octets → δ → Bool × Octets × δ

/-- At the `k`-th peek `arrived k` bytes of the client have arrived, and the peek
shows at most `shown k` of those that are unread. -/
structure Arrivals where
  arrived : ℕ → ℕ
  shown : ℕ → ℕ
  shown_pos : ∀ k, 0 < shown k

/-- The bytes that a client sends, and whether it closes its side afterwards. -/
structure Client where
  stream : List UInt8
  closes : Bool
  arrivals : Arrivals

/-- What the connection hands to the driver: the driver's state, and the TDO vector
with its size.  `allocs` counts the allocations. -/
structure Backend (δ : Type) where
  driver : δ
  vectorNumBytes : ℕ
  tdoVector : Octets
  allocs : ℕ

structure Conn (δ : Type) where
  unread : List UInt8
  peeks : ℕ
  backend : Backend δ
  trace : List Event

/-- `recv` waits for bytes that the client does not send. -/
inductive Stall where
  | waiting
  deriving DecidableEq, Repr

abbrev ConnM (δ : Type) := Exec Stall (Conn δ)

variable {δ : Type}

section Socket

variable (io : Client)

/-- How many unread bytes have arrived at the `k`-th peek; it waits for the first. -/
def Client.ready (k unread : ℕ) : ℕ :=
  max 1 (min (io.arrivals.arrived k) io.stream.length - (io.stream.length - unread))

/-- `recv` with `MSG_PEEK`. -/
def recvPeek (sz : ℕ) : ConnM δ (List UInt8) := do
  let s ← get
  set { s with peeks := s.peeks + 1 }
  if s.unread = [] then
    if io.closes then pure [] else Exec.abort .waiting
  else
    let visible := min (io.arrivals.shown s.peeks) (io.ready s.peeks s.unread.length)
    pure (s.unread.take (min sz visible))

/-- `recv` with `MSG_WAITALL`; it returns less at the end of the stream only. -/
def recvWaitAll (sz : ℕ) : ConnM δ (List UInt8) := do
  let s ← get
  if s.unread.length < sz ∧ io.closes = false then Exec.abort .waiting
  else
    set { s with unread := s.unread.drop sz }
    pure (s.unread.take sz)

/-- `send_data`. -/
def sendData (buf : List UInt8) : ConnM δ Bool := do
  modify fun s => { s with trace := s.trace ++ [.response buf] }
  pure true

/-- `recv_data`; `none` is its `false`. -/
def recvData (sz : ℕ) : ConnM δ (Option (List UInt8)) := do
  let buf ← recvWaitAll io sz
  pure (if buf.length = sz then some buf else none)

/-- The `int` of four octets. -/
def xvcInt (payload : List UInt8) : ℤ :=
  ((payload.getD 3 0).toUInt32 <<< 24 ||| (payload.getD 2 0).toUInt32 <<< 16 |||
    (payload.getD 1 0).toUInt32 <<< 8 ||| (payload.getD 0 0).toUInt32 <<< 0).toInt32.toInt

def recvXvcInt : ConnM δ ℤ := do
  match ← recvData io 4 with
  | some payload => pure (xvcInt payload)
  | none => pure (-1)

end Socket

section Handlers

variable (D : Driver δ) (heap : ℕ → Octets) (io : Client)

/-- The octets of a text. -/
def octets (s : CString) : List UInt8 := s.map fun c => UInt8.ofNat c.toNat

/-- `%d` of a number that is not negative. -/
def decimal (n : ℤ) : CString := Nat.toDigits 10 n.toNat

def cmdGetinfo : ConnM δ Bool := do
  let s ← get
  let (maxVectorBits, driver) := D.maxVectorBits s.backend.driver
  set { s with
    backend := { s.backend with driver := driver }, trace := s.trace ++ [Event.maxVectorBits] }
  if maxVectorBits ≤ 0 then pure false
  else sendData (octets ("xvcServer_v1.0:".toList ++ decimal maxVectorBits ++ ['\n']))

def cmdSettck : ConnM δ Bool := do
  let suggestedTckPeriod ← recvXvcInt io
  if suggestedTckPeriod < 0 then pure false
  else
    let s ← get
    let (tckPeriod, driver) := D.setTckPeriod suggestedTckPeriod s.backend.driver
    set { s with
      backend := { s.backend with driver := driver }
      trace := s.trace ++ [Event.setTckPeriod suggestedTckPeriod] }
    if tckPeriod ≤ 0 then pure false
    else sendData [UInt8.ofInt (tckPeriod >>> (0 : ℕ)), UInt8.ofInt (tckPeriod >>> (8 : ℕ)),
      UInt8.ofInt (tckPeriod >>> (16 : ℕ)), UInt8.ofInt (tckPeriod >>> (24 : ℕ))]

/-- `allocate_vectors`; the memory of the `k`-th TDO vector is `heap k`. -/
def allocateVectors (numBytes : ℕ) (b : Backend δ) : Backend δ :=
  { b with vectorNumBytes := numBytes, tdoVector := heap b.allocs, allocs := b.allocs + 1 }

def cmdShift : ConnM δ Bool := do
  let numBits ← recvXvcInt io
  if numBits ≤ 0 then pure false
  else
    let bytesPerVector := numBits.toNat / 8 + if numBits.toNat % 8 ≠ 0 then 1 else 0
    modify fun s =>
      if bytesPerVector > s.backend.vectorNumBytes then
        { s with backend := allocateVectors heap bytesPerVector s.backend }
      else s
    match ← recvData io bytesPerVector with
    | none => pure false
    | some tms =>
        match ← recvData io bytesPerVector with
        | none => pure false
        | some tdi =>
            let s ← get
            let (ok, tdo, driver) :=
              D.shiftBits numBits.toNat tms tdi s.backend.tdoVector s.backend.driver
            set { s with
              backend := { s.backend with driver := driver, tdoVector := tdo }
              trace := s.trace ++ [Event.shiftBits numBits.toNat tms tdi] }
            if ok then sendData ((List.range bytesPerVector).map tdo) else pure false

/-- The entries of `commands`. -/
inductive Cmd where
  | getinfo
  | settck
  | shift
  deriving DecidableEq, Repr

/-- The text that a command begins with. -/
def Cmd.word : Cmd → List UInt8
  | .getinfo => octets "getinfo:".toList
  | .settck => octets "settck:".toList
  | .shift => octets "shift:".toList

def Cmd.handler : Cmd → ConnM δ Bool
  | .getinfo => cmdGetinfo D
  | .settck => cmdSettck D io
  | .shift => cmdShift D heap io

/-- What the loop over `commands` comes to. -/
inductive Dispatch where
  | handle (c : Cmd)
  | peekAgain
  | notRecognized
  deriving DecidableEq, Repr

/-- The loop over `commands`. -/
def dispatch (command : List UInt8) : List Cmd → (shouldContinue : Bool) → Dispatch
  | [], shouldContinue => if shouldContinue then .peekAgain else .notRecognized
  | c :: cs, shouldContinue =>
      if command.length < c.word.length then dispatch command cs true
      else if command.take c.word.length = c.word then .handle c
      else dispatch command cs shouldContinue

def commands : List Cmd := [.getinfo, .settck, .shift]

/-- One round of the loop of `run_connectin`; `true` is its `return`. -/
def connectionRound : ConnM δ Bool := do
  let command ← recvPeek io 16
  if command = [] then pure true
  else
    match dispatch command commands false with
    | .notRecognized => pure true
    | .peekAgain => pure false
    | .handle c => do
        let popped ← recvWaitAll io c.word.length
        if popped.length ≠ c.word.length then pure true
        else if ← c.handler D heap io then pure false
        else pure true

/-- At most `n` rounds of the loop; `true` if it has returned. -/
def runConnectin : ℕ → ConnM δ Bool
  | 0 => pure false
  | n + 1 => do
      if ← connectionRound D heap io then pure true else runConnectin n

/-- The state that the loop starts in. -/
def Client.start (b : Backend δ) : Conn δ := ⟨io.stream, 0, b, []⟩

end Handlers

end TinyXvc.Server
