import TinyXvc.Lib.Mpsse
import TinyXvc.Lib.Tap

/-!
# Scans through a test access port

A cable clocks a vector of TMS levels.  In the cycles in which the controller
shifts, the levels of a second vector go to TDI, and the levels on TDO are the
result; in the others both are anything.  Two cables that scan the same vectors
read the same from a device that looks at TDI only while it shifts.
-/

namespace Jtag

open Mpsse

/-- The items of the cycles that find the controller in a shift state. -/
def shifted {α : Type} (tap : Tap) : List Bool → List α → List α
  | tms :: tmss, x :: xs =>
      if tap.IsShift then x :: shifted (tap.clock tms) tmss xs else shifted (tap.clock tms) tmss xs
  | _, _ => []

/-- The cycles scan TMS and TDI vectors, with a TDO vector as the result. -/
inductive Scan : Tap → (tms tdi tdo : List Bool) → List Cycle → Prop
  | nil (tap : Tap) : Scan tap [] [] [] []
  | cons {tap : Tap} {tmss tdis tdos : List Bool} {cs : List Cycle} (c : Cycle) (tdi tdo : Bool) :
      (tap.IsShift → c.tdi = tdi ∧ tdo = c.tdo) → Scan (tap.clock c.tms) tmss tdis tdos cs →
        Scan tap (c.tms :: tmss) (tdi :: tdis) (tdo :: tdos) (c :: cs)

section Scans

variable {tap : Tap} {tms tdi tdo tms' tdi' tdo' : List Bool} {cs cs' : List Cycle}

theorem Scan.append (h : Scan tap tms tdi tdo cs) (h' : Scan (tap.run tms) tms' tdi' tdo' cs') :
    Scan tap (tms ++ tms') (tdi ++ tdi') (tdo ++ tdo') (cs ++ cs') := by
  induction h with
  | nil tap => exact h'
  | cons c tdi tdo hc _ ih => exact .cons c tdi tdo hc (ih h')

theorem Scan.map_tms (h : Scan tap tms tdi tdo cs) : cs.map Cycle.tms = tms := by
  induction h with
  | nil tap => rfl
  | cons c tdi tdo hc _ ih => exact congrArg (c.tms :: ·) ih

/-- The register gets the TDI vector. -/
theorem Scan.shifted_tdi (h : Scan tap tms tdi tdo cs) :
    shifted tap tms (cs.map Cycle.tdi) = shifted tap tms tdi := by
  induction h with
  | nil tap => rfl
  | cons c tdi tdo hc _ ih =>
      rw [List.map_cons, shifted, shifted, ih]
      split
      · rw [(hc ‹_›).1]
      · rfl

/-- The result has what comes out of the register. -/
theorem Scan.shifted_tdo (h : Scan tap tms tdi tdo cs) :
    shifted tap tms tdo = shifted tap tms (cs.map Cycle.tdo) := by
  induction h with
  | nil tap => rfl
  | cons c tdi tdo hc _ ih =>
      rw [List.map_cons, shifted, shifted, ih]
      split
      · rw [(hc ‹_›).2]
      · rfl

theorem Scan.exists_cons {m : Bool} (h : Scan tap (m :: tms) tdi tdo cs) :
    ∃ c d o tdi' tdo' cs', tdi = d :: tdi' ∧ tdo = o :: tdo' ∧ cs = c :: cs' ∧ c.tms = m ∧
      (tap.IsShift → c.tdi = d ∧ o = c.tdo) ∧ Scan (tap.clock m) tms tdi' tdo' cs' := by
  cases h with
  | cons c d o hc hrest => exact ⟨c, d, o, _, _, _, rfl, rfl, rfl, rfl, hc, hrest⟩

theorem scan_of_getElem (htms : cs.map Cycle.tms = tms) (htdi : tdi.length = cs.length)
    (htdo : tdo.length = cs.length)
    (h : ∀ k (hk : k < cs.length), (tap.run (tms.take k)).IsShift →
      cs[k].tdi = tdi[k] ∧ tdo[k] = cs[k].tdo) : Scan tap tms tdi tdo cs := by
  subst htms
  induction cs generalizing tap tdi tdo with
  | nil =>
      rw [List.eq_nil_of_length_eq_zero htdi, List.eq_nil_of_length_eq_zero htdo]
      exact .nil tap
  | cons c cs ih =>
      obtain ⟨d, tdi, rfl⟩ := List.exists_cons_of_length_eq_add_one htdi
      obtain ⟨o, tdo, rfl⟩ := List.exists_cons_of_length_eq_add_one htdo
      have hzero := h 0 (Nat.zero_lt_succ _)
      refine .cons c d o hzero (ih ?_ ?_ ?_)
      · exact Nat.succ_inj.mp htdi
      · exact Nat.succ_inj.mp htdo
      · intro k hk hshift
        exact h (k + 1) (Nat.succ_lt_succ hk) hshift

end Scans

/-! ## Devices that look at TDI while they shift -/

/-- Cycles that a register can not tell apart. -/
inductive SamePins : Tap → List Cycle → List Cycle → Prop
  | nil (tap : Tap) : SamePins tap [] []
  | cons {tap : Tap} {cs cs' : List Cycle} {c c' : Cycle} : c'.tms = c.tms →
      (tap.IsShift → c'.tdi = c.tdi) → c'.tdo = c.tdo → SamePins (tap.clock c.tms) cs cs' →
        SamePins tap (c :: cs) (c' :: cs')

/-- The controller of the device is in `tap₀` before the first cycle, and TDO does not
depend on the TDI levels of the cycles in which it does not shift. -/
def Registers (tap₀ : Tap) (dev : Device) : Prop :=
  ∀ h h' tms tdi tdi', SamePins tap₀ h h' →
    ((tap₀.run (h.map Cycle.tms)).IsShift → tdi' = tdi) → dev.tdo h' tms tdi' = dev.tdo h tms tdi

section Registers

variable {tap₀ tap : Tap} {dev : Device} {tms tdi tdo tdo' : List Bool} {h h' cs cs' : List Cycle}

theorem SamePins.refl (tap : Tap) (cs : List Cycle) : SamePins tap cs cs := by
  induction cs generalizing tap with
  | nil => exact .nil tap
  | cons c cs ih => exact .cons rfl (fun _ => rfl) rfl (ih _)

theorem SamePins.append (h₁ : SamePins tap h h')
    (h₂ : SamePins (tap.run (h.map Cycle.tms)) cs cs') : SamePins tap (h ++ cs) (h' ++ cs') := by
  induction h₁ with
  | nil tap => exact h₂
  | cons htms htdi htdo _ ih => exact .cons htms htdi htdo (ih h₂)

theorem clock_eq_cons {h cs : List Cycle} {ls : List (Bool × Bool)} {c : Cycle}
    (heq : dev.clock h ls = c :: cs) :
    c.tdo = dev.tdo h c.tms c.tdi ∧ ∃ ls', cs = dev.clock (h ++ [c]) ls' := by
  cases ls with
  | nil => cases heq
  | cons l ls =>
      obtain ⟨htop, htail⟩ := List.cons.inj heq
      subst htop
      exact ⟨rfl, ls, htail.symm⟩

/-- The same vectors give the same cycles, but for TDI between the shifts. -/
theorem Scan.samePins (hdev : Registers tap₀ dev) {ls ls' : List (Bool × Bool)}
    (hpins : SamePins tap₀ h h') (htap : tap₀.run (h.map Cycle.tms) = tap)
    (hscan : Scan tap tms tdi tdo (dev.clock h ls))
    (hscan' : Scan tap tms tdi tdo' (dev.clock h' ls')) :
    SamePins tap (dev.clock h ls) (dev.clock h' ls') := by
  induction tms generalizing tap tdi tdo tdo' h h' ls ls' with
  | nil =>
      rw [List.map_eq_nil_iff.mp hscan.map_tms, List.map_eq_nil_iff.mp hscan'.map_tms]
      exact .nil tap
  | cons m tms ih =>
      obtain ⟨c, d, o, tdi₁, tdo₁, cs, rfl, rfl, hclock, hm, hc, hrest⟩ := hscan.exists_cons
      obtain ⟨c', d', o', tdi₂, tdo₂, cs', htdi, rfl, hclock', hm', hc', hrest'⟩ :=
        hscan'.exists_cons
      obtain ⟨rfl, rfl⟩ := List.cons.inj htdi
      obtain ⟨hout, lt, rfl⟩ := clock_eq_cons hclock
      obtain ⟨hout', lt', rfl⟩ := clock_eq_cons hclock'
      have hin : tap.IsShift → c'.tdi = c.tdi := fun hs => (hc' hs).1.trans (hc hs).1.symm
      have htms : c'.tms = c.tms := hm'.trans hm.symm
      have htdo : c'.tdo = c.tdo := by
        rw [hout, hout', htms]
        exact hdev h h' c.tms c.tdi c'.tdi hpins (by rw [htap]; exact hin)
      have hone : SamePins (tap₀.run (h.map Cycle.tms)) [c] [c'] := by
        rw [htap]
        exact .cons htms hin htdo (.nil _)
      rw [hclock, hclock']
      refine .cons htms hin htdo ?_
      rw [hm]
      refine ih (hpins.append hone) ?_ hrest hrest'
      rw [List.map_append, Tap.run_append, htap, List.map_singleton, hm]
      rfl

theorem SamePins.map_tdo (hsame : SamePins tap cs cs') :
    cs'.map Cycle.tdo = cs.map Cycle.tdo := by
  induction hsame with
  | nil tap => rfl
  | cons htms htdi htdo _ ih => rw [List.map_cons, List.map_cons, htdo, ih]

/-- The same vectors read the same from the registers. -/
theorem Scan.shifted_eq (hdev : Registers tap₀ dev) {ls ls' : List (Bool × Bool)}
    (htap : tap₀.run (h.map Cycle.tms) = tap)
    (hscan : Scan tap tms tdi tdo (dev.clock h ls))
    (hscan' : Scan tap tms tdi tdo' (dev.clock h ls')) :
    shifted tap tms tdo' = shifted tap tms tdo := by
  have hsame := hscan.samePins hdev (SamePins.refl tap₀ h) htap hscan'
  rw [hscan.shifted_tdo, hscan'.shifted_tdo, hsame.map_tdo]

end Registers

end Jtag
