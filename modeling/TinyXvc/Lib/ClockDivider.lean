import Mathlib.Data.Rat.Cast.Order
import Mathlib.Tactic

/-!
# Clock dividers

A clock of `f` ticks in `u` units of time is divided by `1 + d`, for a divider
`d ≤ m`.  The divider for a wanted period is the least one whose exact period
is not below it; the reported period is the exact one rounded down.
-/

namespace ClockDivider

def exactPeriod (f u d : ℕ) : ℚ := (1 + d) * u / f

/-- The reported period. -/
def period (f u d : ℕ) : ℕ := (1 + d) * u / f

/-- The divider for the period `p`. -/
def divider (f u m p : ℕ) : ℕ := min ((f * p - 1) / u) m

/-- `d` has the least period that is not below `p`, or every period is below. -/
structure Nearest (f u m p d : ℕ) : Prop where
  le_max : d ≤ m
  nearest : ((p : ℚ) ≤ exactPeriod f u d ∧
      ∀ d' ≤ m, (p : ℚ) ≤ exactPeriod f u d' → exactPeriod f u d ≤ exactPeriod f u d') ∨
    (d = m ∧ ∀ d' ≤ m, exactPeriod f u d' < p)

variable {f u m p d : ℕ}

theorem le_exactPeriod_iff (hf : 0 < f) : (p : ℚ) ≤ exactPeriod f u d ↔ f * p ≤ (1 + d) * u := by
  have hf' : (0 : ℚ) < f := by exact_mod_cast hf
  rw [exactPeriod, le_div_iff₀ hf', mul_comm]
  exact_mod_cast Iff.rfl

theorem exactPeriod_mono {d' : ℕ} (h : d ≤ d') : exactPeriod f u d ≤ exactPeriod f u d' := by
  have hd : (d : ℚ) ≤ d' := by exact_mod_cast h
  unfold exactPeriod
  gcongr

/-- Which dividers have a period that is not below `p`. -/
theorem mul_le_iff (hu : 0 < u) (hp : 0 < f * p) : f * p ≤ (1 + d) * u ↔ (f * p - 1) / u ≤ d := by
  rw [Nat.div_le_iff_le_mul_add_pred hu, Nat.add_mul, Nat.one_mul, Nat.mul_comm d u]
  omega

theorem nearest_divider (hf : 0 < f) (hu : 0 < u) (hp : 0 < p) :
    Nearest f u m p (divider f u m p) := by
  have hfp : 0 < f * p := Nat.mul_pos hf hp
  refine ⟨min_le_right _ _, ?_⟩
  by_cases hm : (f * p - 1) / u ≤ m
  · left
    have hmin : divider f u m p = (f * p - 1) / u := min_eq_left hm
    rw [hmin]
    constructor
    · exact (le_exactPeriod_iff hf).mpr ((mul_le_iff hu hfp).mpr le_rfl)
    · intro d' _ hd'
      exact exactPeriod_mono ((mul_le_iff hu hfp).mp ((le_exactPeriod_iff hf).mp hd'))
  · right
    constructor
    · exact min_eq_right (Nat.le_of_not_le hm)
    · intro d' hd'
      apply lt_of_not_ge
      intro hge
      exact hm (((mul_le_iff hu hfp).mp ((le_exactPeriod_iff hf).mp hge)).trans hd')

/-- The reported period is not below what was asked for, when any period is not. -/
theorem le_period_iff (hf : 0 < f) : p ≤ period f u d ↔ (p : ℚ) ≤ exactPeriod f u d := by
  rw [le_exactPeriod_iff hf, period, Nat.le_div_iff_mul_le hf, Nat.mul_comm]

theorem period_mono {d' : ℕ} (h : d ≤ d') : period f u d ≤ period f u d' :=
  Nat.div_le_div_right (Nat.mul_le_mul_right u (Nat.add_le_add_left h 1))

theorem divider_mono {q : ℕ} (h : p ≤ q) : divider f u m p ≤ divider f u m q :=
  min_le_min_right m (Nat.div_le_div_right (Nat.sub_le_sub_right (Nat.mul_le_mul_left f h) 1))

/-- The reported period is less than one unit below the exact one. -/
theorem period_bounds (hf : 0 < f) :
    f * period f u d ≤ (1 + d) * u ∧ (1 + d) * u < f * period f u d + f :=
  ⟨Nat.mul_div_le _ _, Nat.lt_mul_div_succ _ hf⟩

/-- Asking for the reported period again finds the same divider. -/
theorem divider_period (hf : 0 < f) (hfu : f ≤ u) (hd : d ≤ m) :
    divider f u m (period f u d) = d := by
  obtain ⟨hlow, hhigh⟩ := period_bounds (f := f) (u := u) (d := d) hf
  have hdiv : (f * period f u d - 1) / u = d := by
    rw [Nat.add_mul, Nat.one_mul] at hlow hhigh
    rw [Nat.div_eq_iff (by omega)]
    omega
  rw [divider, hdiv]
  exact min_eq_left hd

theorem period_pos (hf : 0 < f) (hfu : f ≤ u) : 0 < period f u d :=
  Nat.div_pos (hfu.trans (Nat.le_mul_of_pos_left u (by omega))) hf

end ClockDivider
