import Mathlib.Data.List.Basic
import Mathlib.Tactic

/-!
# Tilings of a range

A slice is given by its start and its length.  Slices tile a range if each of
them starts where the one before it ends.
-/

namespace Tiling

/-- The slices tile the range from `a` to `b`, and none of them is empty. -/
def Tiles : ℕ → ℕ → List (ℕ × ℕ) → Prop
  | a, b, [] => a = b
  | a, b, x :: xs => x.1 = a ∧ 0 < x.2 ∧ Tiles (a + x.2) b xs

/-- Position `k` lies in the slice. -/
def Covers (k : ℕ) (x : ℕ × ℕ) : Bool := decide (x.1 ≤ k) && decide (k < x.1 + x.2)

variable {a b c k : ℕ} {xs ys : List (ℕ × ℕ)}

theorem tiles_singleton {n : ℕ} (hn : 0 < n) : Tiles a (a + n) [(a, n)] := ⟨rfl, hn, rfl⟩

namespace Tiles

theorem le (h : Tiles a b xs) : a ≤ b := by
  induction xs generalizing a with
  | nil => exact h.le
  | cons x xs ih =>
      obtain ⟨-, -, hrest⟩ := h
      exact (Nat.le_add_right a x.2).trans (ih hrest)

theorem append (h : Tiles a b xs) (h' : Tiles b c ys) : Tiles a c (xs ++ ys) := by
  induction xs generalizing a with
  | nil =>
      cases h
      exact h'
  | cons x xs ih => exact ⟨h.1, h.2.1, ih h.2.2⟩

theorem concat (h : Tiles a b xs) {n : ℕ} (hn : 0 < n) : Tiles a (b + n) (xs ++ [(b, n)]) :=
  h.append (tiles_singleton hn)

theorem length_le (h : Tiles a b xs) : a + xs.length ≤ b := by
  induction xs generalizing a with
  | nil => exact h.le
  | cons x xs ih =>
      obtain ⟨-, hpos, hrest⟩ := h
      have hle := ih hrest
      rw [List.length_cons]
      omega

theorem eq_nil_iff (h : Tiles a b xs) : xs = [] ↔ a = b := by
  cases xs with
  | nil => exact iff_of_true rfl h
  | cons x xs =>
      obtain ⟨-, hpos, hrest⟩ := h
      have hle := hrest.le
      exact iff_of_false (List.cons_ne_nil x xs) (by omega)

/-- Each position of the range lies in exactly one slice, and no other position
in any. -/
theorem countP_covers (h : Tiles a b xs) :
    xs.countP (Covers k) = if a ≤ k ∧ k < b then 1 else 0 := by
  induction xs generalizing a with
  | nil =>
      cases h
      rw [List.countP_nil, if_neg (by omega)]
  | cons x xs ih =>
      obtain ⟨rfl, hpos, hrest⟩ := h
      have hle := hrest.le
      rw [List.countP_cons, ih hrest]
      simp only [Covers, Bool.and_eq_true, decide_eq_true_eq]
      by_cases hk : x.1 ≤ k ∧ k < x.1 + x.2
      · rw [if_pos hk, if_neg (by omega), if_pos (by omega)]
      · rw [if_neg hk]
        by_cases hlater : x.1 + x.2 ≤ k ∧ k < b
        · rw [if_pos hlater, if_pos (by omega)]
        · rw [if_neg hlater, if_neg (by omega)]

end Tiles

end Tiling
