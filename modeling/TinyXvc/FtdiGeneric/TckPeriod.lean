import TinyXvc.FtdiGeneric.Requests
import TinyXvc.Lib.ClockDivider

/-!
# The arithmetic of TCK periods

`set_tck_period` computes a clock divider in `int`s.  It stays in their range,
and finds a divider, for the periods from 1 ns up to the quotient of `INT_MAX`
and the frequency.
-/

namespace TinyXvc

open ClockDivider

/-- The greatest divider that its two octets can hold. -/
def maxDivider : ℕ := 0xffff

section Setting

variable {σ : Type} {f p : ℕ}

theorem tckDivider_eq (hfp : 0 < f * p) : tckDivider f p = ((f * p - 1) / 1000 : ℕ) := by
  have hcast : (f : ℤ) * p = (f * p : ℕ) := by push_cast; rfl
  have hnonneg : (0 : ℤ) ≤ (f * p : ℕ) := by positivity
  rw [tckDivider, hcast, Int.tdiv_eq_ediv_of_nonneg hnonneg, Int.tmod_eq_emod_of_nonneg hnonneg]
  split <;> omega

theorem checkSignedInt_of_range {n : ℤ} (hlow : -2 ^ 31 ≤ n) (hhigh : n < 2 ^ 31) :
    (checkSignedInt n : Exec Abort σ Unit) = pure () := if_pos ⟨hlow, hhigh⟩

theorem tckSetting_eq (hf : 0 < f) (hp : 0 < p) (hfit : f * p ≤ intMax) :
    (tckSetting f p : Exec Abort σ (ℤ × ℤ)) =
      pure (((divider f 1000 maxDivider p : ℕ) : ℤ),
        ((period f 1000 (divider f 1000 maxDivider p) : ℕ) : ℤ)) := by
  have hfp : 0 < f * p := Nat.mul_pos hf hp
  have hcast : (f : ℤ) * p = (f * p : ℕ) := by push_cast; rfl
  have hrange : f * p < 2 ^ 31 := by
    rw [intMax] at hfit
    omega
  have hclamp : (if (((f * p - 1) / 1000 : ℕ) : ℤ) > 0xffff then 0xffff
      else (((f * p - 1) / 1000 : ℕ) : ℤ)) = (divider f 1000 maxDivider p : ℕ) := by
    rw [divider, maxDivider]
    split <;> omega
  have hle : divider f 1000 maxDivider p ≤ 65535 := min_le_right _ _
  have hperiod : ((1 + ((divider f 1000 maxDivider p : ℕ) : ℤ)) * 1000).tdiv f =
      (period f 1000 (divider f 1000 maxDivider p) : ℕ) := by
    rw [period, Int.natCast_ediv, ← Int.tdiv_eq_ediv_of_nonneg (by positivity)]
    push_cast
    rfl
  rw [tckSetting, hcast, checkSignedInt_of_range (by omega) (by exact_mod_cast hrange), pure_bind,
    tckDivider_eq hfp]
  dsimp only
  rw [checkSignedInt_of_range (by omega) (by omega), pure_bind, if_neg (by omega), hclamp,
    checkSignedInt_of_range (by omega) (by omega), pure_bind, hperiod]

theorem tckSetting_zero (f : ℕ) :
    (tckSetting f 0 : Exec Abort σ (ℤ × ℤ)) = Exec.abort .unreachable := by
  have hdivider : tckDivider f 0 = -1 := by simp [tckDivider]
  rw [tckSetting, mul_zero, checkSignedInt_of_range (by decide) (by decide), pure_bind, hdivider]
  dsimp only
  rw [checkSignedInt_of_range (by decide) (by decide), pure_bind]
  rfl

theorem tckSetting_overflow (h : intMax < f * p) (s : σ) :
    tckSetting (f : ℤ) p s = .error (.signedOverflow, s) := by
  have hrange : ¬(-2 ^ 31 ≤ (f : ℤ) * p ∧ (f : ℤ) * p < 2 ^ 31) := by
    have hcast : (f : ℤ) * p = (f * p : ℕ) := by push_cast; rfl
    rw [hcast]
    rw [intMax] at h
    omega
  have hcheck : (checkSignedInt ((f : ℤ) * p) : Exec Abort σ Unit) s =
      .error (.signedOverflow, s) := by
    rw [checkSignedInt, if_neg hrange]
    rfl
  rw [tckSetting, Exec.bind_error hcheck]

/-- The two ways in which the arithmetic can end the process. -/
def Abort.OfSetting (e : Abort) : Prop := e = .signedOverflow ∨ e = .unreachable

/-- The arithmetic changes no state. -/
theorem wp_tckSetting {maxFreqMHz tckPeriodNs : ℤ} {Q : ℤ × ℤ → σ → Prop}
    {E : Abort → σ → Prop} {s : σ} (hQ : ∀ x, Q x s) (hE : ∀ e, e.OfSetting → E e s) :
    Exec.wp (tckSetting maxFreqMHz tckPeriodNs) Q E s := by
  have hcheck : ∀ (n : ℤ) (Q : Unit → σ → Prop), Q () s → Exec.wp (checkSignedInt n) Q E s := by
    intro n Q hn
    exact Exec.wp_ite (fun _ => hn) (fun _ => hE _ (.inl rfl))
  rw [tckSetting, Exec.wp_bind]
  refine hcheck _ _ ?_
  rw [Exec.wp_bind]
  refine hcheck _ _ ?_
  refine Exec.wp_ite (fun _ => hE _ (.inr rfl)) (fun _ => ?_)
  rw [Exec.wp_bind]
  exact hcheck _ _ (hQ _)

end Setting

/-! ## The whole operation -/

section Operation

variable {τ : Type} (io : D2xx τ)

theorem not_ofSetting_of_ofBuffer {e : Abort} (h : e.OfBuffer) : ¬e.OfSetting := by
  rintro (rfl | rfl)
  · exact h
  · exact h

theorem flush_noTrap :
    Exec.Preserves (fun _ => True) (fun e _ => ¬e.OfSetting) (ftBufferFlush io) :=
  ftBufferFlush_preserves io (fun _ _ h => h) (fun _ _ _ _ _ h => h)

theorem queue_noTrap (q : Request) :
    Exec.Preserves (fun _ => True) (fun e _ => ¬e.OfSetting) (q.queue io) :=
  q.queue_preserves (fun _ _ he _ => not_ofSetting_of_ofBuffer he) io
    ⟨fun _ _ h => h, fun _ _ h => h, fun _ _ h => h, fun _ _ h => h⟩ (flush_noTrap io)
    (ftBufferAppend_preserves (fun _ _ he _ => not_ofSetting_of_ofBuffer he) (fun _ _ h => h)
      (fun _ _ h => h))

theorem checkDeviceInSync_noTrap :
    Exec.Preserves (fun _ => True) (fun e _ => ¬e.OfSetting) (checkDeviceInSync io) := by
  refine (queue_noTrap io (.readBytes [0xab] ⟨.resp, 0⟩ 2)).bind fun _ =>
    Exec.Preserves.ite ?_ (Exec.Preserves.pure _)
  refine (flush_noTrap io).bind fun _ => Exec.Preserves.ite ?_ (Exec.Preserves.pure _)
  exact Exec.Preserves.get.bind fun _ => Exec.Preserves.pure _

end Operation

end TinyXvc
