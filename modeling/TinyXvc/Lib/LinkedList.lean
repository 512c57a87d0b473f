import Mathlib.Data.List.Basic
import Mathlib.Tactic

/-!
# Singly linked lists

A list in a heap is a pointer to its first node, where `next` gives the pointer
that each node holds.  It is extended at its end by a store to the node there.
-/

namespace LinkedList

variable {α : Type}

/-- The nodes that are met from the pointer `p` on, up to a null pointer. -/
def Links (next : α → Option α) : Option α → List α → Prop
  | p, [] => p = none
  | p, a :: as => p = some a ∧ Links next (next a) as

variable {next next' : α → Option α} {p : Option α} {a b : α} {as : List α}

namespace Links

theorem eq_none_iff (h : Links next p as) : p = none ↔ as = [] := by
  cases as with
  | nil => exact iff_of_true h rfl
  | cons a as =>
      rw [h.1]
      exact iff_of_false (Option.some_ne_none a) (List.cons_ne_nil a as)

theorem congr (h : Links next p as) (hsame : ∀ a ∈ as, next' a = next a) : Links next' p as := by
  induction as generalizing p with
  | nil => exact h
  | cons a as ih =>
      refine ⟨h.1, ?_⟩
      rw [hsame a List.mem_cons_self]
      exact ih h.2 fun b hb => hsame b (List.mem_cons_of_mem a hb)

/-- The node at the end gets a successor. -/
theorem snoc (h : Links next p (as ++ [a])) (hsame : ∀ c ∈ as, next' c = next c)
    (hlast : next' a = some b) (hnew : next' b = none) : Links next' p (as ++ [a, b]) := by
  induction as generalizing p with
  | nil => exact ⟨h.1, hlast, hnew⟩
  | cons c as ih =>
      refine ⟨h.1, ?_⟩
      rw [hsame c List.mem_cons_self]
      exact ih h.2 fun d hd => hsame d (List.mem_cons_of_mem c hd)

end Links

end LinkedList
