import Mathlib.Data.List.Basic
import Mathlib.Data.List.TakeWhile
import Mathlib.Tactic

/-!
# Strings in a buffer

A character buffer holds many strings, each one up to its NUL.  A pointer is an
index into the buffer.  Writing a NUL cuts a string in two.
-/

namespace CBuffer

/-! Lists at their first `c`. -/

theorem all_ne {c : Char} {a : List Char} (ha : c ∉ a) : ∀ x ∈ a, decide (x ≠ c) = true := by
  intro x hx
  apply decide_eq_true
  rintro rfl
  exact ha hx

theorem takeWhile_cut {c : Char} {a : List Char} (ha : c ∉ a) (b : List Char) :
    (a ++ c :: b).takeWhile (· ≠ c) = a := by
  rw [List.takeWhile_append_of_pos (all_ne ha), List.takeWhile_cons_of_neg (by simp),
    List.append_nil]

theorem dropWhile_cut {c : Char} {a : List Char} (ha : c ∉ a) (b : List Char) :
    (a ++ c :: b).dropWhile (· ≠ c) = c :: b := by
  rw [List.dropWhile_append_of_pos (all_ne ha), List.dropWhile_cons_of_neg (by simp)]

theorem takeWhile_uncut {c : Char} {a : List Char} (ha : c ∉ a) : a.takeWhile (· ≠ c) = a :=
  List.takeWhile_eq_self_iff.mpr (all_ne ha)

theorem dropWhile_uncut {c : Char} {a : List Char} (ha : c ∉ a) : a.dropWhile (· ≠ c) = [] :=
  List.dropWhile_eq_nil_iff.mpr (all_ne ha)

/-- The string at `i`. -/
def str (buf : List Char) (i : ℕ) : List Char := (buf.drop i).takeWhile (· ≠ '\x00')

/-- `strchr`, for a character other than NUL. -/
def strchr (buf : List Char) (i : ℕ) (c : Char) : Option ℕ :=
  if c ∈ str buf i then some (i + (str buf i).idxOf c) else none

theorem str_append {p s q : List Char} (hs : '\x00' ∉ s) :
    str (p ++ (s ++ '\x00' :: q)) p.length = s := by
  rw [str, List.drop_left]
  exact takeWhile_cut hs q

theorem strchr_eq_none {p s q : List Char} {c : Char} (hs : '\x00' ∉ s) (hc : c ∉ s) :
    strchr (p ++ (s ++ '\x00' :: q)) p.length c = none := by
  rw [strchr, str_append hs, if_neg hc]

/-- The first `c` is the one that no other comes before. -/
theorem strchr_eq_some {p s s' q : List Char} {c : Char} (hs : '\x00' ∉ s ++ c :: s')
    (hc : c ∉ s) :
    strchr (p ++ (s ++ c :: s' ++ '\x00' :: q)) p.length c = some (p.length + s.length) := by
  have hmem : c ∈ s ++ c :: s' := List.mem_append_right _ List.mem_cons_self
  rw [strchr, str_append hs, if_pos hmem, List.idxOf_append, if_neg hc, List.idxOf_cons_self,
    Nat.zero_add]

theorem strchr_bounds {buf : List Char} {i j : ℕ} {c : Char} (h : strchr buf i c = some j) :
    i ≤ j ∧ j < buf.length := by
  unfold strchr at h
  split at h
  · rename_i hmem
    have hlt := List.idxOf_lt_length_of_mem hmem
    have hle : (str buf i).length ≤ (buf.drop i).length :=
      (List.takeWhile_prefix (l := buf.drop i) _).length_le
    rw [List.length_drop] at hle
    cases h
    omega
  · cases h

theorem set_append (pre : List Char) (a b : Char) (post : List Char) :
    (pre ++ a :: post).set pre.length b = pre ++ b :: post := by
  rw [List.set_append_right _ _ le_rfl, Nat.sub_self, List.set_cons_zero]

end CBuffer
