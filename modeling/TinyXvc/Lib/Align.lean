import Mathlib.Algebra.Order.Floor.Div
import Mathlib.Tactic

/-!
# Rounding up to a multiple
-/

/-- The least multiple of `a` from `n` on. -/
def alignUp (n a : ℕ) : ℕ := a * (n ⌈/⌉ a)

theorem dvd_alignUp (n a : ℕ) : a ∣ alignUp n a := Dvd.intro _ rfl

theorem alignUp_le_iff {n a m : ℕ} (ha : 0 < a) (hm : a ∣ m) : alignUp n a ≤ m ↔ n ≤ m := by
  obtain ⟨k, rfl⟩ := hm
  rw [alignUp, Nat.mul_le_mul_left_iff ha, ceilDiv_le_iff_le_mul ha]

theorem le_alignUp {n a : ℕ} (ha : 0 < a) : n ≤ alignUp n a :=
  (alignUp_le_iff ha (dvd_alignUp n a)).mp le_rfl

/-- The padding goes up to the next multiple, if `n` is not one. -/
theorem alignUp_eq {n a : ℕ} (ha : 0 < a) :
    alignUp n a = n + if n % a ≠ 0 then a - n % a else 0 := by
  have hmod := Nat.mod_lt n ha
  have hdiv := Nat.div_add_mod n a
  split
  · have hnext : a ∣ n + (a - n % a) := by
      refine ⟨n / a + 1, ?_⟩
      rw [Nat.mul_add, Nat.mul_one]
      omega
    apply le_antisymm
    · exact (alignUp_le_iff ha hnext).mpr (Nat.le_add_right _ _)
    · obtain ⟨k, hk⟩ := dvd_alignUp n a
      have hle : n ≤ a * k := hk ▸ le_alignUp ha
      have hlt : n / a < k := by
        rw [Nat.div_lt_iff_lt_mul ha, Nat.mul_comm]
        refine lt_of_le_of_ne hle ?_
        rintro rfl
        exact ‹a * k % a ≠ 0› (Nat.mul_mod_right a k)
      have hmul : a * (n / a + 1) ≤ a * k := Nat.mul_le_mul_left a hlt
      rw [Nat.mul_add, Nat.mul_one] at hmul
      omega
  · rename_i hzero
    have hself : a ∣ n := Nat.dvd_of_mod_eq_zero (not_not.mp hzero)
    exact le_antisymm ((alignUp_le_iff ha hself).mpr le_rfl) (le_alignUp ha)
