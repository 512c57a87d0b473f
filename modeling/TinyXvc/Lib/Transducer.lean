import Mathlib.Data.List.Basic

/-!
# Stream transducers

A machine reads items one by one, and answers each with any number of items.
-/

structure Transducer (ι α β : Type) where
  recv : ι → α → ι × List β

namespace Transducer

variable {ι α β : Type} (T : Transducer ι α β)

/-- The state after `xs`. -/
def feed (c : ι) (xs : List α) : ι := xs.foldl (fun c x => (T.recv c x).1) c

/-- All answers to `xs`. -/
def replies (c : ι) : List α → List β
  | [] => []
  | x :: xs => (T.recv c x).2 ++ replies (T.recv c x).1 xs

@[simp] theorem feed_nil (c : ι) : T.feed c [] = c := rfl

theorem feed_cons (c : ι) (x : α) (xs : List α) :
    T.feed c (x :: xs) = T.feed (T.recv c x).1 xs := rfl

theorem feed_append (c : ι) (xs ys : List α) :
    T.feed c (xs ++ ys) = T.feed (T.feed c xs) ys := List.foldl_append

@[simp] theorem replies_nil (c : ι) : T.replies c [] = [] := rfl

theorem replies_append (c : ι) (xs ys : List α) :
    T.replies c (xs ++ ys) = T.replies c xs ++ T.replies (T.feed c xs) ys := by
  induction xs generalizing c with
  | nil => rfl
  | cons x xs ih =>
      rw [List.cons_append, replies, replies, ih, List.append_assoc]
      rfl

section Pipe

variable {κ γ : Type} (U : Transducer κ β γ)

end Pipe

end Transducer
