import TinyXvc.Server.Connection

/-!
# The life of the server

The accept loop of `run_with_address` from the moment the server listens, and the
connections in it, over system calls that may fail or transfer less than they were
asked to at any time.  `received` and `actions` are history; no function reads them.
-/

namespace TinyXvc.Server.Life

/-- The system calls of the server, over the state `ν` of everything around it; a
result below zero is `none`.  What `MSG_PEEK` shows is what the next `recv` begins
with. -/
structure Sockets (ν : Type) where
  shouldTerminate : ν → Bool × ν
  accept : ν → Option (ℕ × Bool) × ν
  recvPeek : ℕ → ℕ → ν → Option (List UInt8) × ν
  recvWaitAll : ℕ → ℕ → ν → Option (List UInt8) × ν
  send : ℕ → List UInt8 → ν → Option ℕ × ν
  malloc : ℕ → ν → Bool × ν
  length_recvWaitAll : ∀ socket sz u bs, (recvWaitAll socket sz u).1 = some bs → bs.length ≤ sz
  send_le : ∀ socket buf u k, (send socket buf u).1 = some k → k ≤ buf.length
  peek_agrees : ∀ socket sz sz' u bs cs, (recvPeek socket sz u).1 = some bs →
    (recvWaitAll socket sz' (recvPeek socket sz u).2).1 = some cs → cs <+: bs ∨ bs <+: cs

/-- What the server does to its surroundings. -/
inductive Action where
  | accepted (socket : ℕ)
  | event (e : Event)
  | malloc (block sz : ℕ)
  | free (block : ℕ)
  | shutdown (socket : ℕ)
  | close (socket : ℕ)
  deriving DecidableEq, Repr

/-- `struct connection`; `vectors` has the blocks of the vectors that are not
`NULL`, and `backend` what `struct connection` shares with the driver. -/
structure Connection (ν δ : Type) where
  os : ν
  socket : ℕ
  vectors : List ℕ
  backend : Backend δ
  received : List UInt8
  actions : List Action

/-- `FATAL` ends the process. -/
inductive Stop where
  | fatal
  deriving DecidableEq, Repr

abbrev ConnectionM (ν δ : Type) := Exec Stop (Connection ν δ)

variable {ν δ : Type}

section Calls

variable (S : Sockets ν)

def shouldTerminate : ConnectionM ν δ Bool :=
  modifyGet fun c =>
    let (stop, os) := S.shouldTerminate c.os
    (stop, { c with os := os })

def recvPeek (sz : ℕ) : ConnectionM ν δ (Option (List UInt8)) :=
  modifyGet fun c =>
    let (res, os) := S.recvPeek c.socket sz c.os
    (res, { c with os := os })

def recvWaitAll (sz : ℕ) : ConnectionM ν δ (Option (List UInt8)) :=
  modifyGet fun c =>
    let (res, os) := S.recvWaitAll c.socket sz c.os
    (res, { c with os := os, received := c.received ++ res.getD [] })

def act (a : Action) : ConnectionM ν δ Unit :=
  modify fun c => { c with actions := c.actions ++ [a] }

/-- `send_data`. -/
def sendData (buf : List UInt8) : ConnectionM ν δ Bool := do
  let res ← modifyGet fun c =>
    let (res, os) := S.send c.socket buf c.os
    (res, { c with os := os })
  let sent := res.getD 0
  act (.event (.response (buf.take sent)))
  pure (sent == buf.length)

/-- `recv_data`; `none` is its `false`. -/
def recvData (sz : ℕ) : ConnectionM ν δ (Option (List UInt8)) := do
  let res ← recvWaitAll S sz
  let buf := res.getD []
  pure (if buf.length = sz then some buf else none)

def recvXvcInt : ConnectionM ν δ ℤ := do
  match ← recvData S 4 with
  | some payload => pure (xvcInt payload)
  | none => pure (-1)

/-- `deallocate_vectors`; the pointers stay as they are. -/
def deallocateVectors : ConnectionM ν δ Unit :=
  modify fun c =>
    { c with
      actions := c.actions ++ c.vectors.map Action.free
      backend := { c.backend with vectorNumBytes := 0 } }

/-- `ALLOC_VECTOR`, for the vector whose block is `block`. -/
def allocVector (numBytes block : ℕ) : ConnectionM ν δ Unit := do
  let ok ← modifyGet fun c =>
    let (ok, os) := S.malloc numBytes c.os
    (ok, { c with os := os })
  if ok then act (.malloc block numBytes) else Exec.abort .fatal

/-- `allocate_vectors`; allocation `k` gets the blocks `3 * k` to `3 * k + 2`. -/
def allocateVectors (heap : ℕ → Octets) (numBytes : ℕ) : ConnectionM ν δ Unit := do
  deallocateVectors
  let c ← get
  let k := 3 * c.backend.allocs
  allocVector S numBytes k
  allocVector S numBytes (k + 1)
  allocVector S numBytes (k + 2)
  modify fun c =>
    { c with
      vectors := [k, k + 1, k + 2]
      backend := Server.allocateVectors heap numBytes c.backend }

end Calls

section Handlers

variable (S : Sockets ν) (D : Driver δ) (heap : ℕ → Octets)

def cmdGetinfo : ConnectionM ν δ Bool := do
  let c ← get
  let (maxVectorBits, driver) := D.maxVectorBits c.backend.driver
  set { c with backend := { c.backend with driver := driver } }
  act (.event .maxVectorBits)
  if maxVectorBits ≤ 0 then pure false
  else sendData S (octets ("xvcServer_v1.0:".toList ++ decimal maxVectorBits ++ ['\n']))

def cmdSettck : ConnectionM ν δ Bool := do
  let suggestedTckPeriod ← recvXvcInt S
  if suggestedTckPeriod < 0 then pure false
  else
    let c ← get
    let (tckPeriod, driver) := D.setTckPeriod suggestedTckPeriod c.backend.driver
    set { c with backend := { c.backend with driver := driver } }
    act (.event (.setTckPeriod suggestedTckPeriod))
    if tckPeriod ≤ 0 then pure false
    else sendData S [UInt8.ofInt (tckPeriod >>> (0 : ℕ)), UInt8.ofInt (tckPeriod >>> (8 : ℕ)),
      UInt8.ofInt (tckPeriod >>> (16 : ℕ)), UInt8.ofInt (tckPeriod >>> (24 : ℕ))]

/-- `cmd_shift` once the vectors are large enough. -/
def shiftVectors (numBits bytesPerVector : ℕ) : ConnectionM ν δ Bool := do
  match ← recvData S bytesPerVector with
  | none => pure false
  | some tms =>
      match ← recvData S bytesPerVector with
      | none => pure false
      | some tdi =>
          let c ← get
          let (ok, tdo, driver) :=
            D.shiftBits numBits tms tdi c.backend.tdoVector c.backend.driver
          set { c with backend := { c.backend with driver := driver, tdoVector := tdo } }
          act (.event (.shiftBits numBits tms tdi))
          if ok then sendData S ((List.range bytesPerVector).map tdo) else pure false

def cmdShift : ConnectionM ν δ Bool := do
  let numBits ← recvXvcInt S
  if numBits ≤ 0 then pure false
  else
    let bytesPerVector := numBits.toNat / 8 + if numBits.toNat % 8 ≠ 0 then 1 else 0
    let c ← get
    if bytesPerVector > c.backend.vectorNumBytes then allocateVectors S heap bytesPerVector
    shiftVectors S D numBits.toNat bytesPerVector

def handler : Cmd → ConnectionM ν δ Bool
  | .getinfo => cmdGetinfo S D
  | .settck => cmdSettck S D
  | .shift => cmdShift S D heap

/-- One round of the loop of `run_connectin`; `true` if it ends there. -/
def connectionRound : ConnectionM ν δ Bool := do
  if ← shouldTerminate S then pure true
  else
    match ← recvPeek S 16 with
    | none => pure true
    | some command =>
        if command = [] then pure true
        else
          match dispatch command commands false with
          | .notRecognized => pure true
          | .peekAgain => pure false
          | .handle cmd => do
              let res ← recvWaitAll S cmd.word.length
              if (res.getD []).length ≠ cmd.word.length then pure true
              else if ← handler S D heap cmd then pure false
              else pure true

/-- At most `n` rounds of the loop; `true` if it has returned. -/
def runConnectin : ℕ → ConnectionM ν δ Bool
  | 0 => pure false
  | n + 1 => do
      if ← connectionRound S D heap then pure true else runConnectin n

end Handlers

/-- Where the server is between two rounds of its loops. -/
inductive Phase where
  | listening
  | connected (socket : ℕ) (vectors : List ℕ) (vectorNumBytes : ℕ) (tdoVector : Octets)
      (received : List UInt8)
  | returned

/-- The server; `allocs` counts the allocations of vectors, and `received` has what the
connections that are over have read. -/
structure State (ν δ : Type) where
  os : ν
  driver : δ
  allocs : ℕ
  phase : Phase
  received : List (List UInt8)
  actions : List Action

section Rounds

variable (S : Sockets ν) (D : Driver δ) (heap : ℕ → Octets)

/-- One round of the accept loop up to `run_connectin`. -/
def acceptRound (s : State ν δ) : State ν δ :=
  let (stop, os) := S.shouldTerminate s.os
  if stop then { s with os := os, phase := .returned }
  else
    match S.accept os with
    | (none, os) => { s with os := os }
    | (some (socket, inet), os) =>
        if inet then
          { s with
            os := os
            phase := .connected socket [] 0 (fun _ => 0) []
            actions := s.actions ++ [.accepted socket] }
        else
          { s with
            os := os
            actions := s.actions ++ [.accepted socket, .shutdown socket, .close socket] }

/-- `struct connection` in a phase of the server. -/
def State.connection (s : State ν δ) (socket : ℕ) (vectors : List ℕ) (vectorNumBytes : ℕ)
    (tdoVector : Octets) (received : List UInt8) : Connection ν δ where
  os := s.os
  socket := socket
  vectors := vectors
  backend := ⟨s.driver, vectorNumBytes, tdoVector, s.allocs⟩
  received := received
  actions := s.actions

/-- The connection goes on. -/
def State.goOn (s : State ν δ) (c : Connection ν δ) : State ν δ :=
  { s with
    os := c.os
    driver := c.backend.driver
    allocs := c.backend.allocs
    phase := .connected c.socket c.vectors c.backend.vectorNumBytes c.backend.tdoVector c.received
    actions := c.actions }

/-- What follows `run_connectin` in the accept loop. -/
def State.hangUp (s : State ν δ) (c : Connection ν δ) : State ν δ :=
  { s with
    os := c.os
    driver := c.backend.driver
    allocs := c.backend.allocs
    phase := .listening
    received := s.received ++ [c.received]
    actions := c.actions ++ c.vectors.map Action.free ++ [.shutdown c.socket, .close c.socket] }

/-- One round of the loop the server is in; an error is the end of the process. -/
def serverRound (s : State ν δ) : Except (List Action) (State ν δ) :=
  match s.phase with
  | .returned => .ok s
  | .listening => .ok (acceptRound S s)
  | .connected socket vectors vectorNumBytes tdoVector received =>
      match connectionRound S D heap
        (s.connection socket vectors vectorNumBytes tdoVector received) with
      | .error (.fatal, c) => .error c.actions
      | .ok (true, c) => .ok (s.hangUp c)
      | .ok (false, c) => .ok (s.goOn c)

/-- The server as it begins to listen. -/
def State.start (os : ν) (d : δ) : State ν δ := ⟨os, d, 0, .listening, [], []⟩

/-- At most `n` rounds. -/
def serverRun : ℕ → State ν δ → Except (List Action) (State ν δ)
  | 0, s => .ok s
  | n + 1, s => (serverRound S D heap s).bind (serverRun n)

end Rounds

end TinyXvc.Server.Life
