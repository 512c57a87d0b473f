import TinyXvc.FtdiGeneric.Recovery

/-!
# The call that was cut

A `shift_bits` whose reset is accepted has failed at one D2XX call.  `ft_buffer_flush` keeps
what that call was to send, and the next write offers it again from its start.
-/

namespace TinyXvc

open Mpsse Resend Jtag

/-- The received octets are whole commands out of `commands`, in their order and each at
most once. -/
def ExecutedOnce (received : List UInt8) (commands : List (List UInt8)) : Prop :=
  ∃ executed, frames received = (executed, []) ∧ executed.Sublist commands

section Carried

variable {τ : Type}

/-- From `s` to `t` the chip got commands that the driver had queued, the last of them the
reset, each at most once and nothing else; its TAP is in Test-Logic-Reset, as the splitter has
recorded. -/
def Recovered (engine : τ → Engine) (tap₀ : Tap) (s t : Sys τ) : Prop :=
  (∃ cs vector lastTdi, History s t cs (vector ++ [⟨tapResetCmd lastTdi, 0⟩]) ∧
    ExecutedOnce (arrived (attempts cs))
      ((frames (pendingBytes s vector)).1 ++ [tapResetCmd lastTdi])) ∧
    tapOf tap₀ (engine t.usb) = .testLogicReset ∧
    t.gFtdi.jtagSplitter.state = .testLogicReset

/-- A call that transferred everything has settled what it was to send. -/
theorem settled_of_inFull {cs : List D2xxCall} (h : ∀ d ∈ cs, d.inFull = true) :
    settled (attempts cs) = cs.flatMap D2xxCall.offered := by
  induction cs with
  | nil => rfl
  | cons c cs ih =>
      obtain ⟨hc, hcs⟩ := List.forall_mem_cons.mp h
      have hone : settled (attempts [c]) = c.offered := by
        cases c with
        | read n reply => rfl
        | write data reply => exact settled_of_acknowledged (a := ⟨_, _, _⟩) hc
      rw [List.flatMap_cons, ← ih hcs, ← hone, ← settled_append, ← attempts_append]
      rfl

theorem acknowledged_of_attempt {c : D2xxCall} {a : Attempt UInt8} (h : c.attempt = some a) :
    a.acknowledged = c.inFull := by
  cases c with
  | read n reply => cases h
  | write data reply =>
      cases h
      rfl

namespace GivenUp

variable {dev : Device} {engine : τ → Engine} {s t : Sys τ} {before after : List D2xxCall}
  {cut : D2xxCall} {vector : List QueuedData} {lastTdi : Bool}

/-- Whether anything got through in part is up to the call that was cut. -/
theorem allOrNothing_iff (h : GivenUp dev engine s t before cut after vector lastTdi) :
    AllOrNothing (attempts (before ++ cut :: after)) ↔ arrived (attempts [cut]) = [] := by
  constructor
  · intro hall
    refine List.flatMap_eq_nil_iff.mpr fun a ha => ?_
    obtain ⟨c, hc, hattempt⟩ := List.mem_filterMap.mp ha
    obtain rfl := List.mem_singleton.mp hc
    refine hall a (List.mem_filterMap.mpr ⟨c, by simp, hattempt⟩) ?_
    exact (acknowledged_of_attempt hattempt).trans h.cut_failed
  · intro hnothing a ha hfailed
    obtain ⟨c, hc, hattempt⟩ := List.mem_filterMap.mp ha
    rw [acknowledged_of_attempt hattempt] at hfailed
    rcases List.mem_append.mp hc with hc | hc
    · rw [h.before_full c hc] at hfailed
      cases hfailed
    · rcases List.mem_cons.mp hc with rfl | hc
      · have hmem : a ∈ attempts [c] := List.mem_filterMap.mpr ⟨c, by simp, hattempt⟩
        exact List.flatMap_eq_nil_iff.mp hnothing a hmem
      · rw [h.after_full c hc] at hfailed
        cases hfailed

/-- What was queued before the reset is what the calls up to the cut one were to send. -/
theorem pending_eq (h : GivenUp dev engine s t before cut after vector lastTdi) :
    pendingBytes s vector = (before ++ [cut]).flatMap D2xxCall.offered := by
  rw [h.pending, settled_of_inFull h.before_full, List.flatMap_append, List.flatMap_singleton]

/-- A recovery has repeated nothing, and has broken off no command. -/
theorem of_recovered (h : GivenUp dev engine s t before cut after vector lastTdi) {tap₀ : Tap}
    (hrec : Recovered engine tap₀ s t) :
    AllOrNothing (attempts (before ++ cut :: after)) ∧ (frames (pendingBytes s vector)).2 = [] := by
  obtain ⟨⟨cs, vector', lastTdi', hhist, executed, hframes, hsub⟩, -, -⟩ := hrec
  obtain rfl := List.append_cancel_left (hhist.calls.symm.trans h.hist.calls)
  have hqueued := List.append_cancel_left (hhist.queued.symm.trans h.hist.queued)
  obtain ⟨hvector, hlast⟩ := List.append_inj' hqueued
    (List.length_singleton.trans List.length_singleton.symm)
  have hcmd : tapResetCmd lastTdi' = tapResetCmd lastTdi :=
    congrArg QueuedData.txData (List.singleton_inj.mp hlast)
  rw [hvector, hcmd] at hsub
  exact allOrNothing_of_executed (fun _ => honest_of_mem_attempts) h.settled hframes hsub

theorem recovered (h : GivenUp dev engine s t before cut after vector lastTdi) (tap₀ : Tap)
    (hidle : (engine s.usb).awaiting = .opcode)
    (hall : AllOrNothing (attempts (before ++ cut :: after)))
    (hwhole : (frames (pendingBytes s vector)).2 = []) : Recovered engine tap₀ s t := by
  have hframes := frames_arrived (fun _ => honest_of_mem_attempts) h.settled
    (isFrame_tapResetCmd lastTdi) hall hwhole
  refine ⟨⟨_, vector, lastTdi, h.hist, _, hframes, List.Sublist.refl _⟩, ?_, h.recorded⟩
  exact h.tapOf_eq tap₀ hidle hall hwhole

end GivenUp

/-- If `shift_bits` fails and the reset after it is reported successful, one D2XX call was cut.
The chip has recovered exactly if nothing of that call got through, and what the calls up to it
were to send ends with a whole command. -/
theorem cut_call_recovered_iff {io : D2xx τ} {dev : Device} {engine : τ → Engine}
    (hio : Carries io dev engine) (tap₀ : Tap) (r : SplitRequest) {s t : Sys τ} (hs : Sound s)
    (hidle : (engine s.usb).awaiting = .opcode) (hrun : shiftBits io r s = .ok (false, t))
    (hreset : t.buffer.Empty) :
    ∃ before cut after, t.calls = s.calls ++ (before ++ cut :: after) ∧
      (∀ d ∈ before ++ after, d.inFull = true) ∧ cut.inFull = false ∧
      (Recovered engine tap₀ s t ↔ arrived (attempts [cut]) = [] ∧
        (frames ((before ++ [cut]).flatMap D2xxCall.offered)).2 = []) := by
  obtain ⟨before, cut, after, vector, lastTdi, h⟩ :=
    Exec.wp_ok (shiftBits_failed hio r hs) hrun rfl hreset
  refine ⟨before, cut, after, h.hist.calls, ?_, h.cut_failed, ?_⟩
  · intro d hd
    rcases List.mem_append.mp hd with hd | hd
    · exact h.before_full d hd
    · exact h.after_full d hd
  · rw [← h.allOrNothing_iff, ← h.pending_eq]
    constructor
    · exact h.of_recovered
    · rintro ⟨hall, hwhole⟩
      exact h.recovered tap₀ hidle hall hwhole

end Carried

/-- A vector whose first write gets nothing through, and whose reset is accepted. -/
theorem exists_lost_scan :
    ∃ t, shiftBits (lossy tdoHigh (writeLost 0)) scanFour plugged = .ok (false, t) ∧
      t.buffer.Empty := by
  obtain ⟨ok, t, hrun, htest⟩ := Exec.exists_ok_of_test
    (x := shiftBits (lossy tdoHigh (writeLost 0)) scanFour) (s := plugged)
    (fun ok t => !ok && t.buffer == plugged.buffer) (by decide +kernel)
  rw [Bool.and_eq_true, Bool.not_eq_true', beq_iff_eq] at htest
  obtain ⟨rfl, hbuffer⟩ := htest
  exact ⟨t, hrun, hbuffer ▸ empty_plugged⟩

theorem cut_call_recovered_iff_lost_scan :
    ∃ t, shiftBits (lossy tdoHigh (writeLost 0)) scanFour plugged = .ok (false, t) ∧
      ∃ before cut after, t.calls = plugged.calls ++ (before ++ cut :: after) ∧
        (∀ d ∈ before ++ after, d.inFull = true) ∧ cut.inFull = false ∧
        (Recovered LossyUsb.engine .testLogicReset plugged t ↔ arrived (attempts [cut]) = [] ∧
          (frames ((before ++ [cut]).flatMap D2xxCall.offered)).2 = []) := by
  obtain ⟨t, hrun, hempty⟩ := exists_lost_scan
  exact ⟨t, hrun, cut_call_recovered_iff (carries_lossy tdoHigh (writeLost 0)) .testLogicReset
    scanFour sound_plugged rfl hrun hempty⟩

/-- One byte of write `k` gets through. -/
def firstByteOf (k : ℕ) : ℕ → Option ℕ := fun n => if n = k then some 1 else none

/-- The opcode that got through takes the repeated bytes for its operands. -/
theorem opcode_sent_twice :
    ∃ t, shiftBits (lossy tdoHigh (firstByteOf 0)) idleBit plugged = .ok (false, t) ∧
      t.buffer.Empty ∧ ¬Recovered LossyUsb.engine .testLogicReset plugged t := by
  obtain ⟨ok, t, hrun, htest⟩ := Exec.exists_ok_of_test
    (x := shiftBits (lossy tdoHigh (firstByteOf 0)) idleBit) (s := plugged)
    (fun ok t => !ok && t.buffer == plugged.buffer && !decide (AllOrNothing (attempts t.calls)))
    (by decide +kernel)
  simp only [Bool.and_eq_true, Bool.not_eq_true', beq_iff_eq, decide_eq_false_iff_not] at htest
  obtain ⟨⟨rfl, hbuffer⟩, hpart⟩ := htest
  have hempty : t.buffer.Empty := hbuffer ▸ empty_plugged
  refine ⟨t, hrun, hempty, fun hrec => hpart ?_⟩
  obtain ⟨before, cut, after, vector, lastTdi, h⟩ := Exec.wp_ok
    (shiftBits_failed (carries_lossy tdoHigh (firstByteOf 0)) idleBit sound_plugged) hrun rfl hempty
  rw [h.hist.calls]
  exact (h.of_recovered hrec).1

end TinyXvc
