import TinyXvc.FtdiGeneric.Requests
import TinyXvc.Lib.Alike

/-!
# The driver does not look at the vectors it fills

From two states that differ in some blocks of the memory only, `shift_bits` does
the same, and leaves two such states behind.  So does `set_tck_period`, if the
response buffer is none of these blocks.
-/

namespace TinyXvc

open Exec

variable {τ : Type} {B : Set Block}

/-- An opened device, with two contents of the memory that agree on the blocks `B`. -/
def MemTwins (B : Set Block) (s t : Sys τ) : Prop :=
  0 < s.gFtdi.chipBufferBytes ∧ ∃ m : Mem, (∀ b ∈ B, m b = s.mem b) ∧ t = { s with mem := m }

section Steps

/-- What an observer leaves in a block depends on this block only. -/
theorem copy_run_congr (rx : Octets) (c : RxCopy) {m m' : Mem} {b : Block} (h : m b = m' b) :
    c.run rx m b = c.run rx m' b := by
  have hwrite : ∀ (p : Ptr) (f : Octets → Octets),
      m.write p (f (m.view p)) b = m'.write p (f (m'.view p)) b := by
    intro p f
    by_cases hb : b = p.block
    · subst hb
      have hview : m.view p = m'.view p := by
        funext i
        exact congrFun h _
      funext i
      rw [hview, Mem.write, Mem.write, Function.update_self, Function.update_self, h]
    · rw [Mem.write_of_ne _ _ _ hb, Mem.write_of_ne _ _ _ hb, h]
  cases c with
  | bits e => exact hwrite e.dst fun v => copyBits rx e.fromBit v e.toBit e.numBits false
  | bytes e => exact hwrite e.dst fun v i => if i < e.numBytes then rx i else v i

theorem foldl_run_congr (s : Sys τ) (rx : List UInt8) (os : List RxObserverNode) {m m' : Mem}
    {b : Block} (h : m b = m' b) :
    os.foldl (RxObserverNode.run s rx) m b = os.foldl (RxObserverNode.run s rx) m' b := by
  induction os generalizing m m' with
  | nil => exact h
  | cons o os ih => exact ih (copy_run_congr _ _ h)

theorem alike_modify {f : Sys τ → Sys τ}
    (hchip : ∀ s, (f s).gFtdi.chipBufferBytes = s.gFtdi.chipBufferBytes)
    (hmem : ∀ s m, (∀ b ∈ B, m b = s.mem b) →
      ∃ m', (∀ b ∈ B, m' b = (f s).mem b) ∧ f { s with mem := m } = { f s with mem := m' }) :
    Alike (MemTwins B) (modify f : Prog τ Unit) := by
  apply Alike.modify
  rintro s t ⟨hpos, m, hm, rfl⟩
  exact ⟨(hchip s).symm ▸ hpos, hmem s m hm⟩

theorem alike_cmdBuffer : Alike (MemTwins B) (cmdBuffer : Prog τ FtBuffer) := by
  refine Alike.get_bind ?_ fun s => Alike.pure _
  rintro s t ⟨-, m, -, rfl⟩
  rfl

theorem alike_modifyCmdBuffer (f : FtBuffer → FtBuffer) :
    Alike (MemTwins B) (modifyCmdBuffer f : Prog τ Unit) :=
  alike_modify (fun _ => rfl) fun _ m hm => ⟨m, hm, rfl⟩

variable (io : D2xx τ)

theorem flushSteps_alike : FlushSteps io fun α (x : Prog τ α) => Alike (MemTwins B) x where
  toCompositional := Alike.compositional
  buffer := alike_cmdBuffer
  setBuffer := alike_modifyCmdBuffer
  write := by
    intro data
    apply Alike.modifyGet
    · rintro s t ⟨-, m, -, rfl⟩
      rfl
    · rintro s t ⟨hpos, m, hm, rfl⟩
      exact ⟨hpos, m, hm, rfl⟩
  read := by
    intro n
    apply Alike.modifyGet
    · rintro s t ⟨-, m, -, rfl⟩
      rfl
    · rintro s t ⟨hpos, m, hm, rfl⟩
      exact ⟨hpos, m, hm, rfl⟩
  observe := fun os rx => alike_modify (fun _ => rfl) fun s _ hm =>
    ⟨_, fun b hb => foldl_run_congr s rx os (hm b hb), rfl⟩
  record := alike_modify (fun _ => rfl) fun _ m hm => ⟨m, hm, rfl⟩

theorem appendSteps_alike : AppendSteps fun α (x : Prog τ α) => Alike (MemTwins B) x where
  toCompositional := Alike.compositional
  abort := fun e _ => Alike.abort e
  buffer := alike_cmdBuffer
  setBuffer := alike_modifyCmdBuffer

theorem requestSteps_alike : RequestSteps io fun α (x : Prog τ α) => Alike (MemTwins B) x := by
  have halloc := fun pool sz align => allocAligned_compositional (τ := τ)
    (Alike.compositional (R := MemTwins B)) (fun e _ => Alike.abort e) pool sz align
  refine
    { Alike.compositional with
      abort := fun e _ => Alike.abort e
      buffer := alike_cmdBuffer
      driver := fun sz align => ?_
      cmd := fun sz align => ?_
      bitExtra := fun _ _ => alike_modify (fun _ => rfl) fun _ m hm => ⟨m, hm, rfl⟩
      byteExtra := fun _ _ => alike_modify (fun _ => rfl) fun _ m hm => ⟨m, hm, rfl⟩
      flush := (flushSteps_alike io).flush
      append := appendSteps_alike.append fun _ =>
        alike_modify (fun _ => rfl) fun _ m hm => ⟨m, hm, rfl⟩ }
  · refine Alike.get_bind ?_ fun s => (halloc _ _ _).bind fun _ =>
      Alike.bind ?_ fun _ => Alike.pure _
    · rintro s t ⟨-, m, -, rfl⟩
      rfl
    · exact alike_modify (fun _ => rfl) fun _ m hm => ⟨m, hm, rfl⟩
  · refine alike_cmdBuffer.bind fun b => (halloc _ _ _).bind fun _ => ?_
    exact (alike_modifyCmdBuffer _).bind fun _ => Alike.pure _

end Steps

section Operations

variable (io : D2xx τ)

theorem tmsShift_alike (tms : Octets) (fromBitIdx toBitIdx : ℕ) :
    Alike (MemTwins B) (appendTmsShiftToTransaction io tms fromBitIdx toBitIdx) := by
  by_cases hlt : fromBitIdx < toBitIdx
  · rintro s t ⟨hpos, m, hm, rfl⟩
    rw [appendTmsShift_eq io tms hlt, appendTmsShift_eq io tms hlt]
    exact Alike.compositional.allM (requestSteps_alike io).queue _ ⟨hpos, m, hm, rfl⟩
  · unfold appendTmsShiftToTransaction
    rw [decide_eq_false hlt]
    exact Alike.abort_bind _ _

theorem tdiShift_alike (t : TdiShift) :
    Alike (MemTwins B) (appendTdiShiftToTransaction io t) := by
  have hfinish : ∀ ok, Alike (MemTwins B) (t.finish ok : Prog τ Bool) := by
    intro ok
    refine Alike.compositional.ite (Alike.bind ?_ fun _ => Alike.pure _) (Alike.pure _)
    exact alike_modify (fun _ => rfl) fun _ m hm => ⟨m, hm, rfl⟩
  by_cases hlt : t.fromBitIdx < t.toBitIdx
  · rintro s u ⟨hpos, m, hm, rfl⟩
    rw [appendTdiShift_eq io hlt s hpos, appendTdiShift_eq io hlt { s with mem := m } hpos]
    exact Alike.bind (Alike.compositional.allM (requestSteps_alike io).queue _) hfinish
      ⟨hpos, m, hm, rfl⟩
  · unfold appendTdiShiftToTransaction
    rw [decide_eq_false hlt]
    exact Alike.abort_bind _ _

theorem callback_alike (e : JtagSplitEvent) : Alike (MemTwins B) (jtagSplitterCallback io e) := by
  cases e with
  | shiftTms tms fromBitIdx toBitIdx => exact tmsShift_alike io tms fromBitIdx toBitIdx
  | shiftTdi tdi tdo fromBitIdx toBitIdx incomplete => exact tdiShift_alike io _
  | flushAll =>
      refine (flushSteps_alike io).flush.bind fun res => Alike.bind ?_ fun _ => Alike.pure _
      exact alike_modify (fun _ => rfl) fun _ m hm => ⟨m, hm, rfl⟩

/-- `shift_bits` does not look at the memory. -/
theorem shiftBits_alike (r : SplitRequest) : Alike (MemTwins B) (shiftBits io r) := by
  refine Alike.get_bind ?_ fun s => Alike.bind ?_ fun p => Alike.bind ?_ fun _ => Alike.pure _
  · rintro s t ⟨-, m, -, rfl⟩
    rfl
  · exact process_compositional _ r Alike.compositional (callback_alike io) (Alike.abort _) _
  · exact alike_modify (fun _ => rfl) fun _ m hm => ⟨m, hm, rfl⟩

theorem checkDeviceInSync_alike (hresp : .resp ∈ B) :
    Alike (MemTwins B) (checkDeviceInSync io) := by
  refine Alike.bind ((requestSteps_alike io).queue (.readBytes [0xab] ⟨.resp, 0⟩ 2)) fun ok =>
    Alike.compositional.ite ?_ (Alike.pure _)
  refine (flushSteps_alike io).flush.bind fun ok => Alike.compositional.ite ?_ (Alike.pure _)
  refine Alike.get_bind ?_ fun s => Alike.pure _
  rintro s t ⟨-, m, hm, rfl⟩
  have hview : m.view ⟨.resp, 0⟩ = s.mem.view ⟨.resp, 0⟩ := by
    funext i
    exact congrFun (hm .resp hresp) _
  dsimp only
  rw [hview]

/-- `set_tck_period` looks at the response buffer only. -/
theorem setTckPeriod_alike (hresp : .resp ∈ B) (tckPeriodNs : ℤ) :
    Alike (MemTwins B) (setTckPeriod io tckPeriodNs) := by
  have hcheck : ∀ n : ℤ, Alike (MemTwins B) (checkSignedInt n : Prog τ Unit) := fun n =>
    Alike.compositional.ite (Alike.pure _) (Alike.abort _)
  refine Alike.get_bind ?_ fun s => Alike.bind ?_ fun setting => Alike.bind ?_ fun ok =>
    Alike.compositional.ite (Alike.pure _) (Alike.pure _)
  · rintro s t ⟨-, m, -, rfl⟩
    rfl
  · refine (hcheck _).bind fun _ => (hcheck _).bind fun _ => Alike.compositional.ite
      (Alike.abort _) ((hcheck _).bind fun _ => Alike.pure _)
  · exact Alike.compositional.andM ((requestSteps_alike io).queue (.write _))
      (checkDeviceInSync_alike io hresp)

end Operations

end TinyXvc
