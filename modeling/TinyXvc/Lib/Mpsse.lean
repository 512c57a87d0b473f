import TinyXvc.Lib.Octets

/-!
# The serial engine of FTDI chips

The multi-protocol synchronous serial engine executes an octet stream.  A
command is an opcode and up to two operands; a byte-mode command announces a
payload that follows it.  Missing octets are waited for.  Only the commands of
an LSB-first JTAG port are told apart; every other opcode is a bad one.
-/

namespace Mpsse

/-- One TCK cycle as the pins see it. -/
structure Cycle where
  tms : Bool
  tdi : Bool
  tdo : Bool
  deriving DecidableEq, Repr

/-- What is connected to the pins: the TDO level of a cycle, and the stale bits
of the octet that collects the samples, may depend on all earlier cycles. -/
structure Device where
  tdo : List Cycle → (tms tdi : Bool) → Bool
  residue : List Cycle → UInt8

inductive Opcode where
  | shiftTms (read : Bool)
  | shiftBits
  | shiftOctets
  | setLowPins
  | setDivisor
  | disableDivideBy5
  | bad
  deriving DecidableEq, Repr

def Opcode.decode (b : UInt8) : Opcode :=
  if b = 0x4b then .shiftTms false
  else if b = 0x6b then .shiftTms true
  else if b = 0x3b then .shiftBits
  else if b = 0x39 then .shiftOctets
  else if b = 0x80 then .setLowPins
  else if b = 0x86 then .setDivisor
  else if b = 0x8a then .disableDivideBy5
  else .bad

/-- What the engine waits for; `payload n` is for `n + 1` octets. -/
inductive Awaiting where
  | opcode
  | first (op : Opcode)
  | second (op : Opcode) (a : UInt8)
  | payload (n : ℕ)
  deriving DecidableEq, Repr

def Awaiting.next : Awaiting → UInt8 → Awaiting
  | opcode, b =>
      match Opcode.decode b with
      | .disableDivideBy5 => opcode
      | .bad => opcode
      | op => first op
  | first op, a => second op a
  | second .shiftOctets a, b => payload (a.toNat + 256 * b.toNat)
  | second _ _, _ => opcode
  | payload 0, _ => opcode
  | payload (n + 1), _ => payload n

structure Engine where
  awaiting : Awaiting
  tmsLevel : Bool
  cycles : List Cycle
  deriving DecidableEq, Repr

namespace Device

variable (dev : Device)

/-- The cycles that clock TMS and TDI levels after the cycles `h`. -/
def clock (h : List Cycle) : List (Bool × Bool) → List Cycle
  | [] => []
  | (tms, tdi) :: ls =>
      ⟨tms, tdi, dev.tdo h tms tdi⟩ :: clock (h ++ [⟨tms, tdi, dev.tdo h tms tdi⟩]) ls

theorem clock_append (h : List Cycle) (xs ys : List (Bool × Bool)) :
    dev.clock h (xs ++ ys) = dev.clock h xs ++ dev.clock (h ++ dev.clock h xs) ys := by
  induction xs generalizing h with
  | nil => simp [clock]
  | cons x xs ih => simp [clock, ih]

/-- A clocked cycle has the levels it was asked for. -/
theorem map_clock (h : List Cycle) (ls : List (Bool × Bool)) :
    (dev.clock h ls).map (fun c => (c.tms, c.tdi)) = ls := by
  induction ls generalizing h with
  | nil => rfl
  | cons l ls ih => simp [clock, ih]

@[simp] theorem length_clock (h : List Cycle) (ls : List (Bool × Bool)) :
    (dev.clock h ls).length = ls.length := by
  rw [← List.length_map (f := fun c : Cycle => (c.tms, c.tdi)), map_clock]

end Device

/-- The levels of the first `n` bits of an octet on TDI, at a fixed TMS level. -/
def tdiLevels (tms : Bool) (b : UInt8) (n : ℕ) : List (Bool × Bool) :=
  (List.range n).map fun i => (tms, Octet.bit b i)

/-- The levels of the first `n` bits of an octet on TMS; its bit 7 is on TDI. -/
def tmsLevels (b : UInt8) (n : ℕ) : List (Bool × Bool) :=
  (List.range n).map fun i => (Octet.bit b i, Octet.bit b 7)

/-- The samples enter the reply octet from the high end. -/
def bitReply (residue : UInt8) (cs : List Cycle) : UInt8 :=
  Octet.ofBits fun i =>
    if i < 8 - cs.length then Octet.bit residue i
    else ((cs.map Cycle.tdo)[i - (8 - cs.length)]?).getD false

theorem bits_bitReply (residue : UInt8) {cs : List Cycle} (hlen : cs.length ≤ 8) :
    (List.range cs.length).map (fun i => Octet.bit (bitReply residue cs) (8 - cs.length + i)) =
      cs.map Cycle.tdo := by
  apply List.ext_getElem
  · simp
  · intro i hi _
    rw [List.length_map, List.length_range] at hi
    have hge : ¬ 8 - cs.length + i < 8 - cs.length := by omega
    have hsub : 8 - cs.length + i - (8 - cs.length) = i := by omega
    rw [List.getElem_map, List.getElem_range, bitReply, Octet.bit_ofBits _ (by omega), if_neg hge,
      hsub]
    simp [hi]

namespace Engine

variable (dev : Device)

def pulse (e : Engine) (ls : List (Bool × Bool)) : Engine :=
  { e with cycles := e.cycles ++ dev.clock e.cycles ls }

/-- The reply to a pulse: the samples, and what was left of earlier ones. -/
def sampled (e : Engine) (ls : List (Bool × Bool)) : UInt8 :=
  bitReply (dev.residue e.cycles) (dev.clock e.cycles ls)

/-- A command with two operands. -/
def execute (e : Engine) (op : Opcode) (a b : UInt8) : Engine × List UInt8 :=
  let n := a.toNat % 8
  match op with
  | .shiftTms read =>
      let ls := tmsLevels b (n + 1)
      ({ e.pulse dev ls with tmsLevel := Octet.bit b n }, if read then [e.sampled dev ls] else [])
  | .shiftBits =>
      let ls := tdiLevels e.tmsLevel b (n + 1)
      (e.pulse dev ls, [e.sampled dev ls])
  | .setLowPins => ({ e with tmsLevel := Octet.bit a 3 }, [])
  | _ => (e, [])

def recv (e : Engine) (b : UInt8) : Engine × List UInt8 :=
  let (e', rx) : Engine × List UInt8 :=
    match e.awaiting with
    | .opcode => (e, if Opcode.decode b = .bad then [0xfa, b] else [])
    | .first _ => (e, [])
    | .second op a => e.execute dev op a b
    | .payload _ =>
        (e.pulse dev (tdiLevels e.tmsLevel b 8), [e.sampled dev (tdiLevels e.tmsLevel b 8)])
  ({ e' with awaiting := e.awaiting.next b }, rx)

/-- The engine after an octet stream, and what it has replied. -/
def feed (e : Engine) (bs : List UInt8) : Engine := bs.foldl (fun e b => (e.recv dev b).1) e

def replies (e : Engine) : List UInt8 → List UInt8
  | [] => []
  | b :: bs => (e.recv dev b).2 ++ replies (e.recv dev b).1 bs

@[simp] theorem feed_nil (e : Engine) : e.feed dev [] = e := rfl

theorem feed_cons (e : Engine) (b : UInt8) (bs : List UInt8) :
    e.feed dev (b :: bs) = (e.recv dev b).1.feed dev bs := rfl

theorem feed_append (e : Engine) (xs ys : List UInt8) :
    e.feed dev (xs ++ ys) = (e.feed dev xs).feed dev ys := List.foldl_append

@[simp] theorem replies_nil (e : Engine) : e.replies dev [] = [] := rfl

theorem replies_append (e : Engine) (xs ys : List UInt8) :
    e.replies dev (xs ++ ys) = e.replies dev xs ++ (e.feed dev xs).replies dev ys := by
  induction xs generalizing e with
  | nil => rfl
  | cons x xs ih => rw [List.cons_append, replies, replies, ih, List.append_assoc, feed_cons]

/-- The engine after it has clocked `ls` and executed all it received. -/
def clocked (e : Engine) (ls : List (Bool × Bool)) : Engine where
  awaiting := .opcode
  tmsLevel := (ls.getLast?.map Prod.fst).getD e.tmsLevel
  cycles := e.cycles ++ dev.clock e.cycles ls

theorem clocked_append (e : Engine) (xs ys : List (Bool × Bool)) :
    (e.clocked dev xs).clocked dev ys = e.clocked dev (xs ++ ys) := by
  simp only [clocked, dev.clock_append, List.append_assoc, Engine.mk.injEq, true_and, and_true]
  rw [List.getLast?_append]
  cases ys.getLast? <;> rfl

theorem clocked_nil {e : Engine} (he : e.awaiting = .opcode) : e.clocked dev [] = e := by
  obtain ⟨awaiting, tmsLevel, cycles⟩ := e
  dsimp only at he
  subst he
  simp [clocked, Device.clock]

theorem clocked_of_level {e : Engine} {ls : List (Bool × Bool)} (h : ∀ l ∈ ls, l.1 = e.tmsLevel) :
    e.clocked dev ls = { e.pulse dev ls with awaiting := .opcode } := by
  simp only [clocked, pulse, Engine.mk.injEq, true_and, and_true]
  cases hl : ls.getLast? with
  | none => rfl
  | some l => exact h l (List.mem_of_getLast? hl)

/-- The framing of the stream does not depend on what the engine executes. -/
theorem awaiting_recv (e : Engine) (b : UInt8) :
    (e.recv dev b).1.awaiting = e.awaiting.next b := rfl

theorem awaiting_feed (e : Engine) (bs : List UInt8) :
    (e.feed dev bs).awaiting = bs.foldl Awaiting.next e.awaiting := by
  induction bs generalizing e with
  | nil => rfl
  | cons b bs ih => rw [feed_cons, ih, awaiting_recv, List.foldl_cons]

/-- A whole command with two operands. -/
theorem feed_command {e : Engine} (he : e.awaiting = .opcode) {b : UInt8} {op : Opcode}
    (hop : Opcode.decode b = op) (hbad : op ≠ .bad) (hdiv : op ≠ .disableDivideBy5) (x y : UInt8) :
    e.feed dev [b, x, y] =
        { (e.execute dev op x y).1 with awaiting := (Awaiting.second op x).next y } ∧
      e.replies dev [b, x, y] = (e.execute dev op x y).2 := by
  obtain ⟨awaiting, tmsLevel, cycles⟩ := e
  dsimp only at he
  subst he
  have hnext : Awaiting.opcode.next b = .first op := by
    rw [Awaiting.next, hop]
    cases op with
    | bad => exact absurd rfl hbad
    | disableDivideBy5 => exact absurd rfl hdiv
    | _ => rfl
  have hfirst : recv dev ⟨.opcode, tmsLevel, cycles⟩ b = (⟨.first op, tmsLevel, cycles⟩, []) := by
    simp only [recv, hop, hnext, if_neg hbad]
  refine ⟨?_, ?_⟩
  · simp only [feed_cons, hfirst, feed_nil]
    cases op <;> rfl
  · simp only [replies, hfirst]
    cases op <;> simp [recv, execute, Awaiting.next, sampled]

/-- A command that clocks TMS levels. -/
theorem feed_shiftTms {e : Engine} (he : e.awaiting = .opcode) {b : UInt8} {read : Bool}
    (hop : Opcode.decode b = .shiftTms read) (x y : UInt8) :
    e.feed dev [b, x, y] = e.clocked dev (tmsLevels y (x.toNat % 8 + 1)) ∧
      e.replies dev [b, x, y] =
        if read then [e.sampled dev (tmsLevels y (x.toNat % 8 + 1))] else [] := by
  obtain ⟨hfeed, hreplies⟩ := e.feed_command dev he hop (by simp) (by simp) x y
  refine ⟨hfeed.trans ?_, hreplies⟩
  simp [execute, clocked, pulse, tmsLevels, Awaiting.next, List.range_succ]

/-- A bit-mode command that clocks TDI levels. -/
theorem feed_shiftBits {e : Engine} (he : e.awaiting = .opcode) {b : UInt8}
    (hop : Opcode.decode b = .shiftBits) (x y : UInt8) :
    e.feed dev [b, x, y] = e.clocked dev (tdiLevels e.tmsLevel y (x.toNat % 8 + 1)) ∧
      e.replies dev [b, x, y] = [e.sampled dev (tdiLevels e.tmsLevel y (x.toNat % 8 + 1))] := by
  obtain ⟨hfeed, hreplies⟩ := e.feed_command dev he hop (by simp) (by simp) x y
  refine ⟨hfeed.trans ?_, hreplies⟩
  simp [execute, clocked, pulse, tdiLevels, Awaiting.next, List.range_succ]

/-- The levels of a payload, octet after octet. -/
def payloadLevels (tms : Bool) (bs : List UInt8) : List (Bool × Bool) :=
  bs.flatMap fun b => tdiLevels tms b 8

theorem bits_sampled_octet (e : Engine) (b : UInt8) :
    (List.range 8).map (Octet.bit (e.sampled dev (tdiLevels e.tmsLevel b 8))) =
      (dev.clock e.cycles (tdiLevels e.tmsLevel b 8)).map Cycle.tdo := by
  have hlen : (dev.clock e.cycles (tdiLevels e.tmsLevel b 8)).length = 8 := by
    simp [tdiLevels]
  have h := bits_bitReply (dev.residue e.cycles) hlen.le
  simp only [hlen, Nat.sub_self, Nat.zero_add] at h
  exact h

/-- A whole payload: each of its octets is clocked and answered. -/
theorem feed_payload {e : Engine} {n : ℕ} (he : e.awaiting = .payload n) {bs : List UInt8}
    (hbs : bs.length = n + 1) :
    e.feed dev bs = { e.pulse dev (payloadLevels e.tmsLevel bs) with awaiting := .opcode } ∧
      (e.replies dev bs).length = n + 1 ∧
      (Octets.ofList (e.replies dev bs)).bits 0 (8 * bs.length) =
        (dev.clock e.cycles (payloadLevels e.tmsLevel bs)).map Cycle.tdo := by
  induction n generalizing e bs with
  | zero =>
      obtain ⟨b, rfl⟩ := List.length_eq_one_iff.mp hbs
      obtain ⟨awaiting, tmsLevel, cycles⟩ := e
      dsimp only at he
      subst he
      refine ⟨?_, rfl, ?_⟩
      · simp [feed_cons, recv, Awaiting.next, payloadLevels, pulse]
      · have hreply : replies dev ⟨.payload 0, tmsLevel, cycles⟩ [b] =
            [sampled dev ⟨.payload 0, tmsLevel, cycles⟩ (tdiLevels tmsLevel b 8)] := rfl
        rw [hreply, List.length_singleton, Octets.bits_ofList_cons, bits_sampled_octet]
        simp [payloadLevels]
  | succ n ih =>
      cases bs with
      | nil => cases hbs
      | cons b bs =>
          rw [List.length_cons, Nat.add_right_cancel_iff] at hbs
          obtain ⟨awaiting, tmsLevel, cycles⟩ := e
          dsimp only at he
          subst he
          have hrecv : recv dev ⟨.payload (n + 1), tmsLevel, cycles⟩ b =
              (⟨.payload n, tmsLevel, cycles ++ dev.clock cycles (tdiLevels tmsLevel b 8)⟩,
                [sampled dev ⟨.payload (n + 1), tmsLevel, cycles⟩ (tdiLevels tmsLevel b 8)]) := rfl
          obtain ⟨hfeed, hlen, hbits⟩ := ih (e := ⟨.payload n, tmsLevel,
            cycles ++ dev.clock cycles (tdiLevels tmsLevel b 8)⟩) rfl hbs
          refine ⟨?_, ?_, ?_⟩
          · rw [feed_cons, hrecv, hfeed]
            simp [pulse, payloadLevels, dev.clock_append]
          · rw [replies, hrecv, List.length_append, hlen]
            simp [Nat.add_comm]
          · rw [replies, hrecv, List.singleton_append, List.length_cons, Octets.bits_ofList_cons,
              bits_sampled_octet, hbits]
            simp [payloadLevels, dev.clock_append]

end Engine

end Mpsse
