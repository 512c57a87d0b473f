import TinyXvc.Server.Framing
import TinyXvc.Server.Life

/-!
# Handlers over faulty sockets

Each handler reads from the socket what there is, and either serves a whole
command or ends the connection.  What it allocates it also records, so that one
specification covers the protocol and the memory.
-/

namespace TinyXvc.Server.Life

variable {ν δ : Type}

/-! ## What a handler may come to -/

section Outcomes

variable (D : Driver δ) (heap : ℕ → Octets)

/-- What a command leaves behind, also where the driver fails. -/
def attempted (b : Backend δ) : Command → Backend δ
  | .getinfo => { b with driver := (D.maxVectorBits b.driver).2 }
  | .settck tckPeriodNs => { b with driver := (D.setTckPeriod tckPeriodNs b.driver).2 }
  | .shift numBits tms tdi =>
      let size := vectorOctets numBits
      let b := if b.vectorNumBytes < size then Server.allocateVectors heap size b else b
      let (_, tdo, driver) := D.shiftBits numBits tms tdi b.tdoVector b.driver
      { b with driver := driver, tdoVector := tdo }

/-- How a connection ends after the octets that `parsed` is read from: they are no
command, the driver fails, or the response is cut. -/
inductive Closing (b : Backend δ) :
    Option (Command × List UInt8) → List Event → Backend δ → Prop where
  | nothing {b' : Backend δ} (h : b' = b ∨ ∃ n, b' = Server.allocateVectors heap n b) :
      Closing b none [] b'
  | refused {c : Command} {es : List Event} (h : serve D heap b c = (es, none)) :
      Closing b (some (c, [])) es (attempted D heap b c)
  | cut {c : Command} {es : List Event} {r : List UInt8} {k : ℕ} {b' : Backend δ}
      (h : serve D heap b c = (es ++ [.response r], some b')) (hk : k < r.length) :
      Closing b (some (c, [])) (es ++ [.response (r.take k)]) b'

/-- The command has been served, or the connection ends. -/
def Outcome (b : Backend δ) (parsed : Option (Command × List UInt8)) (es : List Event)
    (ok : Bool) (b' : Backend δ) : Prop :=
  if ok then ∃ c, parsed = some (c, []) ∧ serve D heap b c = (es, some b')
  else Closing D heap b parsed es b'

/-- The vectors have stayed, or have been replaced by larger ones. -/
def Moves (c : Connection ν δ) (mem : List Action) (c' : Connection ν δ) : Prop :=
  (mem = [] ∧ c'.vectors = c.vectors ∧ c'.backend.vectorNumBytes = c.backend.vectorNumBytes) ∨
    ∃ k sz, mem = c.vectors.map Action.free ++
      [.malloc k sz, .malloc (k + 1) sz, .malloc (k + 2) sz] ∧
      c'.vectors = [k, k + 1, k + 2] ∧ c'.backend.vectorNumBytes = sz

/-- Every shift has bits, and its vectors fit in `vectorNumBytes` octets. -/
def Fits (es : List Event) (vectorNumBytes : ℕ) : Prop :=
  ∀ numBits tms tdi, .shiftBits numBits tms tdi ∈ es →
    0 < numBits ∧ vectorOctets numBits ≤ vectorNumBytes

/-- What a handler has done after it has read `payload`. -/
structure Handled (parse : List UInt8 → Option (Command × List UInt8)) (c : Connection ν δ)
    (payload : List UInt8) (mem : List Action) (es : List Event) (ok : Bool)
    (c' : Connection ν δ) : Prop where
  socket : c'.socket = c.socket
  received : c'.received = c.received ++ payload
  actions : c'.actions = c.actions ++ mem ++ es.map Action.event
  moves : Moves c mem c'
  fits : Fits es c'.backend.vectorNumBytes
  outcome : Outcome D heap c.backend (parse payload) es ok c'.backend

/-- The process ends while it allocates. -/
def Aborted (c c' : Connection ν δ) : Prop :=
  ∃ k sz mem, mem <+: c.vectors.map Action.free ++
      [.malloc k sz, .malloc (k + 1) sz, .malloc (k + 2) sz] ∧
    c'.actions = c.actions ++ mem

end Outcomes

/-! ## The system calls -/

section Calls

variable {S : Sockets ν} {c : Connection ν δ}

theorem wp_recvWaitAll {sz : ℕ} {Q : Option (List UInt8) → Connection ν δ → Prop}
    {E : Stop → Connection ν δ → Prop}
    (h : ∀ res os, (res.getD []).length ≤ sz →
      Q res { c with os := os, received := c.received ++ res.getD [] }) :
    Exec.wp (recvWaitAll S sz) Q E c := by
  refine h _ _ ?_
  cases hres : (S.recvWaitAll c.socket sz c.os).1 with
  | none => exact Nat.zero_le sz
  | some bs => exact S.length_recvWaitAll _ _ _ _ hres

theorem wp_recvData {sz : ℕ} {Q : Option (List UInt8) → Connection ν δ → Prop}
    {E : Stop → Connection ν δ → Prop}
    (hall : ∀ os buf, buf.length = sz →
      Q (some buf) { c with os := os, received := c.received ++ buf })
    (hshort : ∀ os buf, buf.length < sz →
      Q none { c with os := os, received := c.received ++ buf }) :
    Exec.wp (recvData S sz) Q E c := by
  unfold recvData
  rw [Exec.wp_bind]
  refine wp_recvWaitAll fun res os hle => ?_
  rw [Exec.wp_pure]
  by_cases hlen : (res.getD []).length = sz
  · rw [if_pos hlen]
    exact hall os _ hlen
  · rw [if_neg hlen]
    exact hshort os _ (lt_of_le_of_ne hle hlen)

theorem readInt_of_length {p : List UInt8} (h : p.length = 4) (rest : List UInt8) :
    readInt (p ++ rest) = some (xvcInt p, rest) := by
  have hle : 4 ≤ (p ++ rest).length := by simp [h]
  rw [readInt, if_pos hle, List.take_left' h, List.drop_left' h, xvcInt_eq h]

theorem readInt_of_short {p : List UInt8} (h : p.length < 4) : readInt p = none :=
  if_neg (not_le.mpr h)

/-- An `int` is read whole, or the handler gets -1. -/
theorem wp_recvXvcInt {Q : ℤ → Connection ν δ → Prop} {E : Stop → Connection ν δ → Prop}
    (hint : ∀ os p n, (∀ rest, readInt (p ++ rest) = some (n, rest)) →
      Q n { c with os := os, received := c.received ++ p })
    (hshort : ∀ os p, readInt p = none →
      Q (-1) { c with os := os, received := c.received ++ p }) :
    Exec.wp (recvXvcInt S) Q E c := by
  unfold recvXvcInt
  rw [Exec.wp_bind]
  refine wp_recvData (fun os p hp => ?_) (fun os p hp => ?_)
  · exact hint os p _ (readInt_of_length hp)
  · exact hshort os p (readInt_of_short hp)

theorem wp_sendData {buf : List UInt8} {Q : Bool → Connection ν δ → Prop}
    {E : Stop → Connection ν δ → Prop}
    (hsent : ∀ os, Q true { c with os := os, actions := c.actions ++ [.event (.response buf)] })
    (hcut : ∀ os k, k < buf.length →
      Q false { c with os := os, actions := c.actions ++ [.event (.response (buf.take k))] }) :
    Exec.wp (sendData S buf) Q E c := by
  have hle : (S.send c.socket buf c.os).1.getD 0 ≤ buf.length := by
    cases hres : (S.send c.socket buf c.os).1 with
    | none => exact Nat.zero_le _
    | some k => exact S.send_le _ _ _ _ hres
  simp only [sendData, act, Exec.wp_bind, Exec.wp_modifyGet, Exec.wp_modify, Exec.wp_pure]
  generalize (S.send c.socket buf c.os).1.getD 0 = k at hle
  by_cases hk : k = buf.length
  · subst hk
    simpa using hsent (S.send c.socket buf c.os).2
  · have hfalse : (k == buf.length) = false := by simpa using hk
    rw [hfalse]
    exact hcut _ k (lt_of_le_of_ne hle hk)

theorem wp_allocateVectors {heap : ℕ → Octets} {sz : ℕ} {Q : Unit → Connection ν δ → Prop}
    {E : Stop → Connection ν δ → Prop}
    (hall : ∀ os k, Q () { c with
      os := os
      vectors := [k, k + 1, k + 2]
      backend := Server.allocateVectors heap sz c.backend
      actions := c.actions ++ (c.vectors.map Action.free ++
        [.malloc k sz, .malloc (k + 1) sz, .malloc (k + 2) sz]) })
    (hfatal : ∀ c', Aborted c c' → E .fatal c') :
    Exec.wp (allocateVectors S heap sz) Q E c := by
  have halloc : ∀ (t : Connection ν δ) (block : ℕ) (Q : Unit → Connection ν δ → Prop),
      (∀ os, Q () { t with os := os, actions := t.actions ++ [.malloc block sz] }) →
        (∀ os, E .fatal { t with os := os }) → Exec.wp (allocVector S sz block) Q E t := by
    intro t block Q hok hbad
    simp only [allocVector, act, Exec.wp_bind, Exec.wp_modifyGet]
    exact Exec.wp_ite (fun _ => hok _) fun _ => hbad _
  simp only [allocateVectors, deallocateVectors, Exec.wp_bind, Exec.wp_modify, Exec.wp_get]
  generalize 3 * c.backend.allocs = k
  refine halloc _ _ _ (fun os => halloc _ _ _ (fun os => halloc _ _ _ (fun os => ?_) fun os => ?_)
    fun os => ?_) fun os => ?_
  · simpa [Server.allocateVectors] using hall os k
  · exact hfatal _ ⟨k, sz, c.vectors.map Action.free ++ [.malloc k sz, .malloc (k + 1) sz],
      by simp, by simp⟩
  · exact hfatal _ ⟨k, sz, c.vectors.map Action.free ++ [.malloc k sz], by simp, by simp⟩
  · exact hfatal _ ⟨k, sz, c.vectors.map Action.free, by simp, rfl⟩

end Calls

/-! ## The handlers -/

section Handlers

variable {S : Sockets ν} {D : Driver δ} {heap : ℕ → Octets}

variable (D heap) in
/-- A handler reads from `c` what `parse` makes something of. -/
def HandledFrom (parse : List UInt8 → Option (Command × List UInt8)) (c : Connection ν δ)
    (ok : Bool) (c' : Connection ν δ) : Prop :=
  ∃ payload mem es, Handled D heap parse c payload mem es ok c'

theorem Moves.refl {c c' : Connection ν δ} (h : c'.vectors = c.vectors)
    (hsize : c'.backend.vectorNumBytes = c.backend.vectorNumBytes) : Moves c [] c' :=
  .inl ⟨rfl, h, hsize⟩

variable (D heap) in
/-- The driver has been asked for what the handler has read, and `t` is not answered yet. -/
structure Asked (parse : List UInt8 → Option (Command × List UInt8)) (c : Connection ν δ)
    (payload : List UInt8) (mem : List Action) (command : Command) (e : Event)
    (t : Connection ν δ) : Prop where
  socket : t.socket = c.socket
  received : t.received = c.received ++ payload
  actions : t.actions = c.actions ++ mem ++ [.event e]
  moves : Moves c mem t
  fits : Fits [e] t.backend.vectorNumBytes
  parsed : parse payload = some (command, [])
  backend : t.backend = attempted D heap c.backend command

section Asked

variable {parse : List UInt8 → Option (Command × List UInt8)} {c t : Connection ν δ}
  {payload : List UInt8} {mem : List Action} {command : Command} {e : Event}

theorem Fits.response {es : List Event} {n : ℕ} (h : Fits es n) (r : List UInt8) :
    Fits (es ++ [.response r]) n := by
  intro numBits tms tdi hmem
  exact h numBits tms tdi (by simpa using hmem)

theorem Moves.of_eq {c' : Connection ν δ} (h : Moves c mem t) (hvectors : c'.vectors = t.vectors)
    (hsize : c'.backend.vectorNumBytes = t.backend.vectorNumBytes) : Moves c mem c' := by
  unfold Moves
  rw [hvectors, hsize]
  exact h

/-- The driver has failed. -/
theorem Asked.refused (h : Asked D heap parse c payload mem command e t)
    (hserve : serve D heap c.backend command = ([e], none)) :
    HandledFrom D heap parse c false t := by
  refine ⟨payload, mem, [e], h.socket, h.received, h.actions, h.moves, h.fits, ?_⟩
  rw [h.parsed, h.backend]
  exact .refused hserve

/-- The driver has succeeded; the response is sent whole, or cut. -/
theorem Asked.answered (h : Asked D heap parse c payload mem command e t) {r : List UInt8}
    (hserve : serve D heap c.backend command = ([e, .response r], some t.backend)) :
    Exec.wp (sendData S r) (HandledFrom D heap parse c) (fun _ => Aborted c) t := by
  refine wp_sendData (fun os => ?_) (fun os k hk => ?_)
  · refine ⟨payload, mem, [e] ++ [.response r], h.socket, h.received, ?_, h.moves.of_eq rfl rfl,
      h.fits.response r, command, h.parsed, hserve⟩
    simp [h.actions]
  · refine ⟨payload, mem, [e] ++ [.response (r.take k)], h.socket, h.received, ?_,
      h.moves.of_eq rfl rfl, h.fits.response _, ?_⟩
    · simp [h.actions]
    · rw [h.parsed]
      exact .cut hserve hk

end Asked

/-- The handler gives up; it has read no command. -/
theorem handledFrom_nothing {parse : List UInt8 → Option (Command × List UInt8)}
    {c t : Connection ν δ} (payload : List UInt8) (mem : List Action)
    (hsocket : t.socket = c.socket) (hreceived : t.received = c.received ++ payload)
    (hactions : t.actions = c.actions ++ mem) (hmoves : Moves c mem t)
    (hparse : parse payload = none)
    (hbackend : t.backend = c.backend ∨ ∃ n, t.backend = Server.allocateVectors heap n c.backend) :
    HandledFrom D heap parse c false t := by
  refine ⟨payload, mem, [], hsocket, hreceived, by simp [hactions], hmoves, ?_, ?_⟩
  · simp [Fits]
  · rw [hparse]
    exact .nothing hbackend

theorem cmdGetinfo_spec (c : Connection ν δ) :
    Exec.wp (cmdGetinfo S D) (HandledFrom D heap (fun s => some (.getinfo, s)) c)
      (fun _ => Aborted c) c := by
  simp only [cmdGetinfo, act, Exec.wp_bind, Exec.wp_get, Exec.wp_set, Exec.wp_modify]
  have hasked : Asked D heap (fun s => some (.getinfo, s)) c [] [] .getinfo .maxVectorBits
      { c with
        backend := { c.backend with driver := (D.maxVectorBits c.backend.driver).2 }
        actions := c.actions ++ [.event .maxVectorBits] } :=
    ⟨rfl, by simp, by simp, .refl rfl rfl, by simp [Fits], rfl, rfl⟩
  by_cases hpos : 0 < (D.maxVectorBits c.backend.driver).1
  · rw [if_neg (not_le.mpr hpos), octets_infoLine hpos]
    exact hasked.answered (if_pos hpos)
  · rw [if_pos (not_lt.mp hpos)]
    exact hasked.refused (if_neg hpos)

/-- The response to `settck`. -/
theorem tckPeriod_octets {n : ℤ} (h : 0 < n) :
    [UInt8.ofInt (n >>> (0 : ℕ)), UInt8.ofInt (n >>> (8 : ℕ)), UInt8.ofInt (n >>> (16 : ℕ)),
      UInt8.ofInt (n >>> (24 : ℕ))] = LittleEndian.octets n.toNat := by
  have hoctet := LittleEndian.ofInt_shift h
  simp only [LittleEndian.octets, List.range, List.range.loop, List.map]
  exact congrArg₂ List.cons (hoctet 0) (congrArg₂ List.cons (hoctet 1)
    (congrArg₂ List.cons (hoctet 2) (congrArg₂ List.cons (hoctet 3) rfl)))

theorem cmdSettck_spec (c : Connection ν δ) :
    Exec.wp (cmdSettck S D) (HandledFrom D heap readSettck c) (fun _ => Aborted c) c := by
  unfold cmdSettck
  rw [Exec.wp_bind]
  refine wp_recvXvcInt (fun os p period hint => ?_) (fun os p hnone => ?_)
  · have hread : readSettck p = if 0 ≤ period then some (.settck period.toNat, []) else none := by
      have hp := hint []
      rw [List.append_nil] at hp
      rw [readSettck, hp, Option.bind_some]
    by_cases hneg : period < 0
    · rw [if_pos hneg]
      rw [if_neg (not_le.mpr hneg)] at hread
      exact handledFrom_nothing p [] rfl rfl (by simp) (.refl rfl rfl) hread (.inl rfl)
    · have hnonneg := not_lt.mp hneg
      have hcast : ((period.toNat : ℕ) : ℤ) = period := Int.toNat_of_nonneg hnonneg
      rw [if_neg hneg]
      rw [if_pos hnonneg] at hread
      simp only [act, Exec.wp_bind, Exec.wp_get, Exec.wp_set, Exec.wp_modify]
      have hasked : Asked D heap readSettck c p [] (.settck period.toNat) (.setTckPeriod period)
          { c with
            os := os
            received := c.received ++ p
            backend := { c.backend with driver := (D.setTckPeriod period c.backend.driver).2 }
            actions := c.actions ++ [.event (.setTckPeriod period)] } :=
        ⟨rfl, rfl, by simp, .refl rfl rfl, by simp [Fits], hread, by simp [attempted, hcast]⟩
      by_cases hpos : 0 < (D.setTckPeriod period c.backend.driver).1
      · rw [if_neg (not_le.mpr hpos), tckPeriod_octets hpos]
        exact hasked.answered (by simp [serve, hcast, hpos])
      · rw [if_pos (not_lt.mp hpos)]
        exact hasked.refused (by simp [serve, hcast, hpos])
  · have hread : readSettck p = none := by rw [readSettck, hnone, Option.bind_none]
    exact handledFrom_nothing p [] rfl rfl (by simp) (.refl rfl rfl) hread (.inl rfl)

variable (heap) in
/-- The vectors are large enough for the bits that are about to be shifted. -/
structure Ready (c : Connection ν δ) (p : List UInt8) (mem : List Action) (size : ℕ)
    (t : Connection ν δ) : Prop where
  socket : t.socket = c.socket
  received : t.received = c.received ++ p
  actions : t.actions = c.actions ++ mem
  moves : Moves c mem t
  room : size ≤ t.backend.vectorNumBytes
  backend : t.backend = if c.backend.vectorNumBytes < size then
    Server.allocateVectors heap size c.backend else c.backend

theorem Ready.backend_cases {c t : Connection ν δ} {p : List UInt8} {mem : List Action} {size : ℕ}
    (h : Ready heap c p mem size t) :
    t.backend = c.backend ∨ ∃ n, t.backend = Server.allocateVectors heap n c.backend := by
  rw [h.backend]
  split
  · exact .inr ⟨size, rfl⟩
  · exact .inl rfl

/-- The vectors are read, one after the other, and shifted. -/
theorem shiftVectors_spec {c t : Connection ν δ} {p : List UInt8} {mem : List Action} {n : ℤ}
    (hint : ∀ rest, readInt (p ++ rest) = some (n, rest)) (hpos : 0 < n)
    (h : Ready heap c p mem (vectorOctets n.toNat) t) :
    Exec.wp (shiftVectors S D n.toNat (vectorOctets n.toNat)) (HandledFrom D heap readShift c)
      (fun _ => Aborted c) t := by
  generalize hsize : vectorOctets n.toNat = size at h
  have hshort : ∀ rest, rest.length < 2 * size → readShift (p ++ rest) = none := by
    intro rest hlt
    have hnot : ¬(0 < n ∧ 2 * size ≤ rest.length) := by omega
    simp only [readShift, hint rest, Option.bind_some, hsize, if_neg hnot]
  unfold shiftVectors
  rw [Exec.wp_bind]
  refine wp_recvData (fun os tms htms => ?_) (fun os part hpart => ?_)
  · rw [Exec.wp_bind]
    refine wp_recvData (fun os tdi htdi => ?_) (fun os part hpart => ?_)
    · have hread : readShift (p ++ (tms ++ tdi)) = some (.shift n.toNat tms tdi, []) := by
        have hall : 0 < n ∧ 2 * size ≤ (tms ++ tdi).length := by
          rw [List.length_append]
          omega
        have hrest : (tms ++ tdi).drop (2 * size) = [] :=
          List.drop_of_length_le (by rw [List.length_append]; omega)
        simp only [readShift, hint, Option.bind_some, hsize, if_pos hall, hrest,
          List.take_left' htms, List.drop_left' htms, List.take_of_length_le htdi.le]
      simp only [act, Exec.wp_bind, Exec.wp_get, Exec.wp_set, Exec.wp_modify]
      have hasked : Asked D heap readShift c (p ++ (tms ++ tdi)) mem (.shift n.toNat tms tdi)
          (.shiftBits n.toNat tms tdi)
          { t with
            os := os
            received := t.received ++ tms ++ tdi
            backend := { t.backend with
              driver :=
                (D.shiftBits n.toNat tms tdi t.backend.tdoVector t.backend.driver).2.2
              tdoVector :=
                (D.shiftBits n.toNat tms tdi t.backend.tdoVector t.backend.driver).2.1 }
            actions := t.actions ++ [.event (.shiftBits n.toNat tms tdi)] } := by
        refine ⟨h.socket, ?_, by rw [h.actions], ?_, ?_, hread, ?_⟩
        · simp [h.received]
        · exact h.moves.of_eq rfl rfl
        · intro numBits tms' tdi' hmem
          obtain ⟨rfl, -, -⟩ : numBits = n.toNat ∧ tms' = tms ∧ tdi' = tdi := by simpa using hmem
          rw [hsize]
          exact ⟨by omega, h.room⟩
        · simp only [attempted, hsize, h.backend]
      refine Exec.wp_ite (fun hok => ?_) fun hbad => ?_
      · refine hasked.answered ?_
        simp only [serve, hsize, ← h.backend, if_pos hok]
      · refine hasked.refused ?_
        simp only [serve, hsize, ← h.backend, if_neg hbad]
    · exact handledFrom_nothing (p ++ (tms ++ part)) mem h.socket (by simp [h.received]) h.actions
        h.moves (hshort _ (by rw [List.length_append]; omega)) h.backend_cases
  · exact handledFrom_nothing (p ++ part) mem h.socket (by simp [h.received]) h.actions h.moves
      (hshort _ (by omega)) h.backend_cases

theorem cmdShift_spec (c : Connection ν δ) :
    Exec.wp (cmdShift S D heap) (HandledFrom D heap readShift c) (fun _ => Aborted c) c := by
  unfold cmdShift
  rw [Exec.wp_bind]
  refine wp_recvXvcInt (fun os p n hint => ?_) (fun os p hnone => ?_)
  · by_cases hneg : n ≤ 0
    · have hread : readShift p = none := by
        have hp := hint []
        rw [List.append_nil] at hp
        simp [readShift, hp, not_lt.mpr hneg]
      rw [if_pos hneg]
      exact handledFrom_nothing p [] rfl rfl (by simp) (.refl rfl rfl) hread (.inl rfl)
    · have hpos := not_le.mp hneg
      rw [if_neg hneg, vectorOctets_eq, Exec.wp_bind, Exec.wp_get]
      refine Exec.wp_ite (fun hsmall => ?_) fun hlarge => ?_
      · rw [Exec.wp_bind]
        refine wp_allocateVectors (fun os k => ?_) fun c' habort => habort
        exact shiftVectors_spec hint hpos
          ⟨rfl, rfl, rfl, .inr ⟨k, _, rfl, rfl, rfl⟩, le_rfl, (if_pos hsmall).symm⟩
      · exact shiftVectors_spec hint hpos
          ⟨rfl, rfl, by simp, .refl rfl rfl, not_lt.mp hlarge, (if_neg hlarge).symm⟩
  · have hread : readShift p = none := by rw [readShift, hnone, Option.bind_none]
    exact handledFrom_nothing p [] rfl rfl (by simp) (.refl rfl rfl) hread (.inl rfl)

theorem handler_spec (cmd : Cmd) (c : Connection ν δ) :
    Exec.wp (handler S D heap cmd) (HandledFrom D heap (afterWord cmd) c)
      (fun _ => Aborted c) c := by
  cases cmd with
  | getinfo => exact cmdGetinfo_spec c
  | settck => exact cmdSettck_spec c
  | shift => exact cmdShift_spec c

end Handlers

/-! ## The rounds -/

section Rounds

variable {S : Sockets ν} {D : Driver δ} {heap : ℕ → Octets}

variable (D heap) in
/-- A round waits, serves one command, or ends the connection. -/
def RoundEnd (c : Connection ν δ) (returned : Bool) (c' : Connection ν δ) : Prop :=
  (returned = false ∧ ∃ os, c' = { c with os := os }) ∨
    HandledFrom D heap nextCommand c (!returned) c'

theorem RoundEnd.nothing {c : Connection ν δ} {os : ν} (part : List UInt8)
    (h : nextCommand part = none) :
    RoundEnd D heap c true { c with os := os, received := c.received ++ part } :=
  .inr (handledFrom_nothing part [] rfl rfl (by simp) (.refl rfl rfl) h (.inl rfl))

/-- A part of a word is no command. -/
theorem nextCommand_of_part {part : List UInt8} {cmd : Cmd} (h : part <+: cmd.word)
    (hlt : part.length < cmd.word.length) : nextCommand part = none := by
  refine nextCommand_of_no_word fun cmd' hword => ?_
  cases word_cases (hword.trans h) (List.prefix_refl cmd.word)
  exact absurd hword.length_le (not_le.mpr hlt)

/-- What is popped is the word that the peek has shown, or a part of it. -/
theorem wp_popWord {c : Connection ν δ} {cmd : Cmd} {command : List UInt8} {sz : ℕ}
    (hword : cmd.word <+: command) (hpeek : (S.recvPeek c.socket sz c.os).1 = some command)
    {Q : Option (List UInt8) → Connection ν δ → Prop} {E : Stop → Connection ν δ → Prop}
    (h : ∀ res os, res.getD [] <+: cmd.word →
      Q res { c with os := os, received := c.received ++ res.getD [] }) :
    Exec.wp (recvWaitAll S cmd.word.length) Q E
      { c with os := (S.recvPeek c.socket sz c.os).2 } := by
  refine h _ _ ?_
  dsimp only
  cases hres : (S.recvWaitAll c.socket cmd.word.length (S.recvPeek c.socket sz c.os).2).1 with
  | none => exact List.nil_prefix
  | some bs =>
      have hle : bs.length ≤ cmd.word.length := S.length_recvWaitAll _ _ _ _ hres
      have hbs : bs <+: command := by
        rcases S.peek_agrees _ _ _ _ _ _ hpeek hres with hprefix | hprefix
        · exact hprefix
        · have heq := hprefix.eq_of_length_le (hle.trans hword.length_le)
          exact heq ▸ List.prefix_refl _
      exact List.prefix_of_prefix_length_le hbs hword hle

theorem HandledFrom.of_word {c : Connection ν δ} {os : ν} {cmd : Cmd} {ok : Bool}
    {c' : Connection ν δ}
    (h : HandledFrom D heap (afterWord cmd)
      { c with os := os, received := c.received ++ cmd.word } ok c') :
    HandledFrom D heap nextCommand c ok c' := by
  obtain ⟨payload, mem, es, h⟩ := h
  refine ⟨cmd.word ++ payload, mem, es, h.socket, ?_, h.actions, h.moves, h.fits, ?_⟩
  · rw [h.received, List.append_assoc]
  · rw [nextCommand_word_append]
    exact h.outcome

variable (S D heap) in
theorem connectionRound_spec (c : Connection ν δ) :
    Exec.wp (connectionRound S D heap) (RoundEnd D heap c) (fun _ => Aborted c) c := by
  have hnothing : ∀ os, RoundEnd D heap c true { c with os := os } := by
    intro os
    have hend : RoundEnd D heap c true { c with os := os, received := c.received ++ [] } :=
      .nothing [] (by decide)
    rw [List.append_nil] at hend
    exact hend
  simp only [connectionRound, shouldTerminate, recvPeek, Exec.wp_bind, Exec.wp_modifyGet]
  refine Exec.wp_ite (fun _ => hnothing _) fun _ => ?_
  rw [Exec.wp_bind, Exec.wp_modifyGet]
  generalize (S.shouldTerminate c.os).2 = os
  cases hpeek : (S.recvPeek c.socket 16 os).1 with
  | none => exact hnothing _
  | some command =>
      refine Exec.wp_ite (fun _ => hnothing _) fun _ => ?_
      by_cases hword : ∃ cmd : Cmd, cmd.word <+: command
      · obtain ⟨cmd, hcmd⟩ := hword
        rw [dispatch_of_word hcmd false commands (by cases cmd <;> decide)]
        dsimp only
        rw [Exec.wp_bind]
        refine wp_popWord (c := { c with os := os }) hcmd hpeek fun res os' hres => ?_
        refine Exec.wp_ite (fun hlen => ?_) fun hlen => ?_
        · rw [Exec.wp_pure]
          have hpart := nextCommand_of_part hres (lt_of_le_of_ne hres.length_le hlen)
          exact RoundEnd.nothing (c := c) _ hpart
        · have heq : res.getD [] = cmd.word := hres.eq_of_length (not_not.mp hlen)
          rw [heq, Exec.wp_bind]
          refine Exec.wp_mono (handler_spec cmd _) ?_ fun _ c' habort => habort
          intro ok c' hhandled
          have hend : HandledFrom D heap nextCommand c ok c' := .of_word (c := c) hhandled
          cases ok with
          | false => exact .inr hend
          | true => exact .inr hend
      · rw [dispatch_commands_of_no_word (not_exists.mp hword)]
        by_cases hshort : command.length < 8
        · rw [if_pos hshort]
          exact .inl ⟨rfl, _, rfl⟩
        · rw [if_neg hshort]
          exact hnothing _

/-- What every round keeps holds of every run, or held when the process ended. -/
theorem serverRun_invariant {J : State ν δ → Prop} {K : List Action → Prop}
    (hround : ∀ s, J s → match serverRound S D heap s with
      | .ok s' => J s'
      | .error actions => K actions) (n : ℕ) {s : State ν δ} (h : J s) :
    match serverRun S D heap n s with
    | .ok s' => J s'
    | .error actions => K actions := by
  induction n generalizing s with
  | zero => exact h
  | succ n ih =>
      have hone := hround s h
      rw [serverRun]
      cases hs : serverRound S D heap s with
      | error actions => simpa [hs, Except.bind] using hone
      | ok s' =>
          rw [hs] at hone
          exact ih hone

end Rounds

end TinyXvc.Server.Life
