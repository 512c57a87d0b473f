import Mathlib.Data.List.Basic
import Mathlib.Tactic

/-!
# Searches with a partial test

A linear search that stops at the first item that passes a test.  Some items
can not be tested, and a search that meets one of them is stuck.
-/

namespace Search

variable {α : Type}

/-- The index of the first item that passes; `none` is a stuck search. -/
def firstIdx (test : α → Option Bool) : List α → Option (Option ℕ)
  | [] => some none
  | x :: xs =>
      match test x with
      | none => none
      | some true => some (some 0)
      | some false => (firstIdx test xs).map (Option.map (· + 1))

/-- Every item before the first that passes can be tested. -/
def Testable (test : α → Option Bool) (xs : List α) : Prop :=
  ∀ x ∈ xs.takeWhile (fun x => test x != some true), (test x).isSome = true

instance (test : α → Option Bool) (xs : List α) : Decidable (Testable test xs) :=
  inferInstanceAs (Decidable (∀ x ∈ xs.takeWhile _, _))

variable {test : α → Option Bool} {x : α} {xs : List α}

theorem testable_nil : Testable test [] := List.forall_mem_nil _

theorem testable_cons_true (hx : test x = some true) : Testable test (x :: xs) := by
  have hstop : ¬(test x != some true) = true := by simp [hx]
  unfold Testable
  rw [List.takeWhile_cons_of_neg (p := fun x => test x != some true) hstop]
  exact List.forall_mem_nil _

theorem testable_cons_false (hx : test x = some false) :
    Testable test (x :: xs) ↔ Testable test xs := by
  have hgo : (test x != some true) = true := by simp [hx]
  have hsome : (test x).isSome = true := by simp [hx]
  unfold Testable
  rw [List.takeWhile_cons_of_pos (p := fun x => test x != some true) hgo, List.forall_mem_cons]
  exact and_iff_right hsome

theorem not_testable_cons_none (hx : test x = none) : ¬Testable test (x :: xs) := by
  intro h
  have hgo : (test x != some true) = true := by simp [hx]
  have hmem : x ∈ (x :: xs).takeWhile (fun x => test x != some true) := by
    rw [List.takeWhile_cons_of_pos (p := fun x => test x != some true) hgo]
    exact List.mem_cons_self
  have hsome := h x hmem
  rw [hx] at hsome
  cases hsome

/-- A search that is not stuck finds what a search with a total test finds. -/
theorem firstIdx_of_testable (h : Testable test xs) :
    firstIdx test xs = some (xs.findIdx? fun x => test x == some true) := by
  induction xs with
  | nil => rfl
  | cons x xs ih =>
      rw [firstIdx, List.findIdx?_cons]
      cases hx : test x with
      | none => exact absurd h (not_testable_cons_none hx)
      | some pass =>
          cases pass with
          | true => rfl
          | false =>
              have hrest := ih ((testable_cons_false hx).mp h)
              simp [hrest]

theorem firstIdx_of_not_testable (h : ¬Testable test xs) : firstIdx test xs = none := by
  induction xs with
  | nil => exact absurd testable_nil h
  | cons x xs ih =>
      rw [firstIdx]
      cases hx : test x with
      | none => rfl
      | some pass =>
          cases pass with
          | true => exact absurd (testable_cons_true hx) h
          | false =>
              have hrest := ih fun ht => h ((testable_cons_false hx).mpr ht)
              simp [hrest]

/-- A search is stuck exactly when an item that can not be tested comes before
every item that passes. -/
theorem firstIdx_eq_none_iff : firstIdx test xs = none ↔ ¬Testable test xs := by
  constructor
  · intro hstuck htestable
    rw [firstIdx_of_testable htestable] at hstuck
    cases hstuck
  · exact firstIdx_of_not_testable

end Search
