import TinyXvc.Lib.Lockstep
import TinyXvc.Server.Conformance
import TinyXvc.Server.Life

/-!
# Sockets without faults

The sockets that a client of the fault-free connection is on, as system calls.  Over
them a connection that can fail at any time does what the fault-free connection
does, as long as that one does not wait for bytes that never come.
-/

namespace TinyXvc.Server.Life

open Exec

variable {δ : Type}

/-- The bytes that are unread, and the number of peeks. -/
abbrev Queue := List UInt8 × ℕ

def healthyPeek (io : Client) (sz : ℕ) (q : Queue) : List UInt8 :=
  q.1.take (min sz (min (io.arrivals.shown q.2) (io.ready q.2 q.1.length)))

/-- Every call succeeds, and nobody else connects. -/
def healthy (io : Client) : Sockets Queue where
  shouldTerminate q := (false, q)
  accept q := (none, q)
  recvPeek _ sz q := (some (healthyPeek io sz q), (q.1, q.2 + 1))
  recvWaitAll _ sz q := (some (q.1.take sz), (q.1.drop sz, q.2))
  send _ buf q := (some buf.length, q)
  malloc _ q := (true, q)
  length_recvWaitAll := by
    rintro _ sz q _ ⟨⟩
    exact List.length_take_le sz q.1
  send_le := by
    rintro _ buf _ _ ⟨⟩
    exact le_rfl
  peek_agrees := by
    rintro _ sz sz' q _ _ ⟨⟩ ⟨⟩
    exact (List.prefix_or_prefix_of_prefix (List.take_prefix ..) (List.take_prefix ..))

/-- The driver calls and the responses. -/
def eventsOf (as : List Action) : List Event :=
  as.filterMap fun
    | .event e => some e
    | _ => none

@[simp] theorem eventsOf_append (as bs : List Action) :
    eventsOf (as ++ bs) = eventsOf as ++ eventsOf bs := List.filterMap_append

@[simp] theorem eventsOf_event (e : Event) : eventsOf [.event e] = [e] := rfl

@[simp] theorem eventsOf_frees (blocks : List ℕ) : eventsOf (blocks.map Action.free) = [] := by
  simp [eventsOf]

/-- Both connections have come to the same point. -/
structure Agree (s : Conn δ) (c : Connection Queue δ) : Prop where
  os : c.os = (s.unread, s.peeks)
  backend : c.backend = s.backend
  events : eventsOf c.actions = s.trace

variable {D : Driver δ} {heap : ℕ → Octets} {io : Client} {s : Conn δ} {c : Connection Queue δ}

theorem recvWaitAll_follows (h : Agree s c) (sz : ℕ) :
    Follows (Server.recvWaitAll io sz) (recvWaitAll (healthy io) sz)
      (fun bs res s' c' => res = some bs ∧ Agree s' c') s c := by
  have hrun : recvWaitAll (healthy io) sz c = .ok (some (s.unread.take sz),
      { c with
        os := (s.unread.drop sz, s.peeks)
        received := c.received ++ s.unread.take sz }) := by
    change Except.ok (some (c.os.1.take sz), { c with
      os := (c.os.1.drop sz, c.os.2), received := c.received ++ c.os.1.take sz }) = _
    rw [h.os]
  refine follows_of_wp (Server.wp_recvWaitAll (fun _ => ?_) (fun hlt => ?_) fun _ _ => trivial)
  · exact ⟨_, _, hrun, rfl, rfl, h.backend, h.events⟩
  · rw [List.take_of_length_le hlt.le, List.drop_of_length_le hlt.le] at hrun
    exact ⟨_, _, hrun, rfl, rfl, h.backend, h.events⟩

theorem recvData_follows (h : Agree s c) (sz : ℕ) :
    Follows (Server.recvData io sz) (recvData (healthy io) sz)
      (fun bs res s' c' => res = bs ∧ Agree s' c') s c := by
  refine follows_bind (follows_mono (recvWaitAll_follows h sz) ?_)
  rintro bs _ s' c' ⟨rfl, h'⟩
  exact follows_pure ⟨rfl, h'⟩

theorem recvXvcInt_follows (h : Agree s c) :
    Follows (Server.recvXvcInt io) (recvXvcInt (healthy io)) (fun n m s' c' => m = n ∧ Agree s' c')
      s c := by
  refine follows_bind (follows_mono (recvData_follows h 4) ?_)
  rintro _ bs s' c' ⟨rfl, h'⟩
  cases bs with
  | none => exact follows_pure ⟨rfl, h'⟩
  | some payload => exact follows_pure ⟨rfl, h'⟩

theorem sendData_follows (h : Agree s c) (buf : List UInt8) :
    Follows (Server.sendData buf) (sendData (healthy io) buf)
      (fun ok ok' s' c' => ok' = ok ∧ Agree s' c')
      s c := by
  rintro _ _ ⟨⟩
  refine ⟨_, _, rfl, ?_, ?_, ?_, ?_⟩
  · exact beq_self_eq_true _
  · exact h.os
  · exact h.backend
  · simpa [healthy] using h.events

variable (heap io) in
theorem allocateVectors_agree (h : Agree s c) (sz : ℕ) :
    ∃ c', allocateVectors (healthy io) heap sz c = .ok ((), c') ∧
      Agree { s with backend := Server.allocateVectors heap sz s.backend } c' := by
  let k := 3 * c.backend.allocs
  refine ⟨{ c with
    vectors := [k, k + 1, k + 2]
    backend := Server.allocateVectors heap sz c.backend
    actions := c.actions ++ c.vectors.map Action.free ++ [.malloc k sz] ++ [.malloc (k + 1) sz] ++
      [.malloc (k + 2) sz] }, rfl, h.os, ?_, ?_⟩
  · rw [h.backend]
  · simp [h.events]
    rfl

/-- What both connections do with the answer of the driver. -/
theorem driverCall_agree (h : Agree s c) (driver : δ) (tdo : Octets) (e : Event) :
    Agree
      { s with
        backend := { s.backend with driver := driver, tdoVector := tdo }
        trace := s.trace ++ [e] }
      { c with
        backend := { c.backend with driver := driver, tdoVector := tdo }
        actions := c.actions ++ [.event e] } :=
  ⟨h.os, by rw [h.backend], by simp [h.events]⟩

theorem cmdGetinfo_follows (h : Agree s c) :
    Follows (Server.cmdGetinfo D) (cmdGetinfo (healthy io) D)
      (fun ok ok' s' c' => ok' = ok ∧ Agree s' c') s c := by
  unfold Server.cmdGetinfo cmdGetinfo
  refine follows_get_bind ?_
  rw [h.backend]
  refine follows_set_bind (follows_right rfl ?_)
  have hcall := driverCall_agree h (D.maxVectorBits s.backend.driver).2 s.backend.tdoVector
    .maxVectorBits
  rw [h.backend] at hcall
  exact follows_ite Iff.rfl (fun _ => follows_pure ⟨rfl, hcall⟩) fun _ => sendData_follows hcall _

theorem cmdSettck_follows (h : Agree s c) :
    Follows (Server.cmdSettck D io) (cmdSettck (healthy io) D)
      (fun ok ok' s' c' => ok' = ok ∧ Agree s' c') s c := by
  unfold Server.cmdSettck cmdSettck
  refine follows_bind (follows_mono (recvXvcInt_follows h) ?_)
  rintro _ period s c ⟨rfl, h⟩
  refine follows_ite Iff.rfl (fun _ => follows_pure ⟨rfl, h⟩) fun _ => ?_
  refine follows_get_bind ?_
  rw [h.backend]
  refine follows_set_bind (follows_right rfl ?_)
  have hcall := driverCall_agree h (D.setTckPeriod period s.backend.driver).2 s.backend.tdoVector
    (.setTckPeriod period)
  rw [h.backend] at hcall
  exact follows_ite Iff.rfl (fun _ => follows_pure ⟨rfl, hcall⟩) fun _ => sendData_follows hcall _

theorem cmdShift_follows (h : Agree s c) :
    Follows (Server.cmdShift D heap io) (cmdShift (healthy io) D heap)
      (fun ok ok' s' c' => ok' = ok ∧ Agree s' c') s c := by
  unfold Server.cmdShift cmdShift
  refine follows_bind (follows_mono (recvXvcInt_follows h) ?_)
  rintro _ numBits s c ⟨rfl, h⟩
  refine follows_ite Iff.rfl (fun _ => follows_pure ⟨rfl, h⟩) fun _ => ?_
  dsimp only
  generalize (numBits.toNat / 8 + if numBits.toNat % 8 ≠ 0 then 1 else 0) = size
  refine follows_modify_bind ?_
  -- the vectors are large enough on both sides
  obtain ⟨c₁, h₁, hc₁⟩ : ∃ c₁, Agree (if size > s.backend.vectorNumBytes then
      { s with backend := Server.allocateVectors heap size s.backend } else s) c₁ ∧
      (do
        let c : Connection Queue δ ← get
        if size > c.backend.vectorNumBytes then allocateVectors (healthy io) heap size
        shiftVectors (healthy io) D numBits.toNat size : ConnectionM Queue δ Bool) c =
      shiftVectors (healthy io) D numBits.toNat size c₁ := by
    rw [get_bind, h.backend]
    by_cases hsize : size > s.backend.vectorNumBytes
    · obtain ⟨c₁, hrun, h₁⟩ := allocateVectors_agree heap io h size
      rw [if_pos hsize, if_pos hsize]
      exact ⟨c₁, h₁, bind_ok hrun⟩
    · rw [if_neg hsize, if_neg hsize]
      exact ⟨c, h, rfl⟩
  refine follows_congr_right hc₁ ?_
  unfold shiftVectors
  refine follows_bind (follows_mono (recvData_follows h₁ size) ?_)
  rintro _ tms s c ⟨rfl, h⟩
  cases tms with
  | none => exact follows_pure ⟨rfl, h⟩
  | some tms =>
      refine follows_bind (follows_mono (recvData_follows h size) ?_)
      rintro _ tdi s c ⟨rfl, h⟩
      cases tdi with
      | none => exact follows_pure ⟨rfl, h⟩
      | some tdi =>
          refine follows_get_bind ?_
          dsimp only
          rw [h.backend]
          refine follows_set_bind (follows_right rfl ?_)
          have hcall := driverCall_agree h
            (D.shiftBits numBits.toNat tms tdi s.backend.tdoVector s.backend.driver).2.2
            (D.shiftBits numBits.toNat tms tdi s.backend.tdoVector s.backend.driver).2.1
            (.shiftBits numBits.toNat tms tdi)
          rw [h.backend] at hcall
          exact follows_ite Iff.rfl (fun _ => sendData_follows hcall _) fun _ =>
            follows_pure ⟨rfl, hcall⟩

theorem handler_follows (cmd : Cmd) (h : Agree s c) :
    Follows (cmd.handler D heap io) (handler (healthy io) D heap cmd)
      (fun ok ok' s' c' => ok' = ok ∧ Agree s' c') s c := by
  cases cmd with
  | getinfo => exact cmdGetinfo_follows h
  | settck => exact cmdSettck_follows h
  | shift => exact cmdShift_follows h

theorem recvPeek_follows (h : Agree s c) (sz : ℕ) :
    Follows (Server.recvPeek io sz) (recvPeek (healthy io) sz)
      (fun bs res s' c' => res = some bs ∧ Agree s' c') s c := by
  have hrun : recvPeek (healthy io) sz c = .ok (some (healthyPeek io sz (s.unread, s.peeks)),
      { c with os := (s.unread, s.peeks + 1) }) := by
    change Except.ok (some (healthyPeek io sz c.os), { c with os := (c.os.1, c.os.2 + 1) }) = _
    rw [h.os]
  have hagree : Agree { s with peeks := s.peeks + 1 } { c with os := (s.unread, s.peeks + 1) } :=
    ⟨rfl, h.backend, h.events⟩
  refine follows_of_wp ?_
  rw [Server.recvPeek, wp_bind, wp_get, wp_bind, wp_set]
  refine wp_ite (fun hnil => wp_ite (fun _ => ?_) fun _ => trivial) fun _ => ?_
  · rw [wp_pure]
    refine ⟨_, _, hrun, ?_, hagree⟩
    simp [healthyPeek, hnil]
  · exact ⟨_, _, hrun, rfl, hagree⟩

theorem connectionRound_follows (h : Agree s c) :
    Follows (Server.connectionRound D heap io) (connectionRound (healthy io) D heap)
      (fun returned returned' s' c' => returned' = returned ∧ Agree s' c') s c := by
  unfold Server.connectionRound connectionRound
  have hstop : shouldTerminate (healthy io) c = .ok (false, c) := rfl
  refine follows_right hstop ?_
  refine follows_bind (follows_mono (recvPeek_follows h 16) ?_)
  rintro command _ s c ⟨rfl, h⟩
  refine follows_ite Iff.rfl (fun _ => follows_pure ⟨rfl, h⟩) fun _ => ?_
  cases dispatch command commands false with
  | notRecognized => exact follows_pure ⟨rfl, h⟩
  | peekAgain => exact follows_pure ⟨rfl, h⟩
  | handle cmd =>
      refine follows_bind (follows_mono (recvWaitAll_follows h cmd.word.length) ?_)
      rintro popped _ s c ⟨rfl, h⟩
      refine follows_ite Iff.rfl (fun _ => follows_pure ⟨rfl, h⟩) fun _ => ?_
      refine follows_bind (follows_mono (handler_follows cmd h) ?_)
      rintro _ ok s c ⟨rfl, h⟩
      cases ok with
      | false => exact follows_pure ⟨rfl, h⟩
      | true => exact follows_pure ⟨rfl, h⟩

theorem runConnectin_follows (n : ℕ) (h : Agree s c) :
    Follows (Server.runConnectin D heap io n) (runConnectin (healthy io) D heap n)
      (fun returned returned' s' c' => returned' = returned ∧ Agree s' c') s c := by
  induction n generalizing s c with
  | zero => exact follows_pure ⟨rfl, h⟩
  | succ n ih =>
      rw [Server.runConnectin, runConnectin]
      refine follows_bind (follows_mono (connectionRound_follows h) ?_)
      rintro _ returned s c ⟨rfl, h⟩
      cases returned with
      | true => exact follows_pure ⟨rfl, h⟩
      | false => exact ih h

variable (D heap) in
/-- A connection whose client closes its side does not wait for ever. -/
theorem runConnectin_never_stalls (hcloses : io.closes = true) (n : ℕ) (s : Conn δ) :
    wp (Server.runConnectin D heap io n) (fun _ _ => True) (fun _ _ => False) s := by
  induction n generalizing s with
  | zero => trivial
  | succ n ih =>
      rw [Server.runConnectin, wp_bind]
      refine wp_mono (Server.connectionRound_spec s) ?_ ?_
      · rintro returned s' -
        cases returned with
        | true => trivial
        | false => exact ih s'
      · rintro _ s' ⟨hopen, -⟩
        exact absurd hopen (by simp [hcloses])

/-- Over sockets without faults the connection does what the fault-free one does.  The
client that closes its side gets the answers of the protocol, however its bytes arrive. -/
theorem connection_without_faults (D : Driver δ) (heap : ℕ → Octets) (stream : List UInt8)
    (sch : Schedule) (socket : ℕ) (b : Backend δ) :
    let io closes : Client := ⟨stream, closes, sch.toArrivals⟩
    let c : Connection Queue δ := ⟨(stream, 0), socket, [], b, [], [.accepted socket]⟩
    (∀ closes n, Follows (Server.runConnectin D heap (io closes) n)
      (runConnectin (healthy (io closes)) D heap n)
      (fun returned returned' s' c' => returned' = returned ∧ Agree s' c')
      ((io closes).start b) c) ∧
      ∃ m, ∀ n ≥ m, ∃ returned c',
        runConnectin (healthy (io true)) D heap n c = .ok (returned, c') ∧
        eventsOf c'.actions = (xvc D heap).answers stream b := by
  intro io c
  have hagree : ∀ closes, Agree ((io closes).start b) c := fun _ => ⟨rfl, rfl, rfl⟩
  refine ⟨fun closes n => runConnectin_follows n (hagree closes), ?_⟩
  have hstart : Remains D heap (io true) ((xvc D heap).answers stream b)
      ((xvc D heap).leftover stream b) ((io true).start b) := start_remains b
  obtain ⟨m, hm⟩ := trace_complete (sch.exists_showsAll stream true) hstart
  refine ⟨m, fun n hn => ?_⟩
  have hcloses : (io true).closes = true := rfl
  obtain ⟨returned, s', hrun, -⟩ :=
    exists_ok (runConnectin_never_stalls D heap hcloses n ((io true).start b))
  obtain ⟨_, c', hrun', rfl, h'⟩ := runConnectin_follows n (hagree true) returned s' hrun
  refine ⟨_, c', hrun', h'.events.trans ?_⟩
  have htrace := hm n hn
  rw [hrun] at htrace
  exact htrace

end TinyXvc.Server.Life
