import Mathlib.Data.List.Basic
import Mathlib.Tactic

/-!
# Coalescing neighbours

Neighbours in a list are joined where a partial operation `join` is defined.
If `join` is associative, and defined on a joined item where it is on its
parts, then it does not matter in which order a list is coalesced; a list may
be cut anywhere and its pieces coalesced first.
-/

namespace Coalesce

variable {α β : Type} (join : α → α → Option α)

/-- Puts `x` in front of a coalesced list. -/
def push (x : α) : List α → List α
  | [] => [x]
  | y :: ys =>
      match join x y with
      | some z => z :: ys
      | none => x :: y :: ys

def coalesce (xs : List α) : List α := xs.foldr (push join) []

/-- Where a joined item joins, and with what result. -/
structure Lawful : Prop where
  join_join : ∀ {x y z w}, join x y = some z → join z w = (join y w).bind (join x)
  join_isSome : ∀ {x y z w v}, join x y = some z → join y w = some v → (join x v).isSome = true

variable {join}

@[simp] theorem coalesce_nil : coalesce join [] = [] := rfl

@[simp] theorem coalesce_cons (x : α) (xs : List α) :
    coalesce join (x :: xs) = push join x (coalesce join xs) := rfl

theorem push_some {x y z : α} (h : join x y = some z) (ys : List α) :
    push join x (y :: ys) = z :: ys := by
  simp only [push, h]

theorem push_none {x y : α} (h : join x y = none) (ys : List α) :
    push join x (y :: ys) = x :: y :: ys := by
  simp only [push, h]

/-- Two items that join may be joined before they are pushed. -/
theorem Lawful.push_push (hl : Lawful join) {x y z : α} (h : join x y = some z) (zs : List α) :
    push join x (push join y zs) = push join z zs := by
  cases zs with
  | nil => exact push_some h []
  | cons w ws =>
      have hzw := hl.join_join (w := w) h
      cases hyw : join y w with
      | none =>
          rw [hyw] at hzw
          rw [push_none hyw, push_some h, push_none hzw]
      | some v =>
          obtain ⟨u, hu⟩ := Option.isSome_iff_exists.mp (hl.join_isSome h hyw)
          rw [hyw, Option.bind_some, hu] at hzw
          rw [push_some hyw, push_some hu, push_some hzw]

theorem Lawful.foldr_push (hl : Lawful join) (x : α) (xs zs : List α) :
    (push join x xs).foldr (push join) zs = push join x (xs.foldr (push join) zs) := by
  cases xs with
  | nil => rfl
  | cons y ys =>
      cases h : join x y with
      | none =>
          rw [push_none h]
          rfl
      | some z =>
          rw [push_some h]
          exact (hl.push_push h _).symm

/-- A coalesced piece stands for the piece. -/
theorem Lawful.foldr_coalesce (hl : Lawful join) (xs zs : List α) :
    (coalesce join xs).foldr (push join) zs = xs.foldr (push join) zs := by
  induction xs with
  | nil => rfl
  | cons x xs ih =>
      rw [coalesce_cons, hl.foldr_push, ih]
      rfl

theorem coalesce_append_eq (xs ys : List α) :
    coalesce join (xs ++ ys) = xs.foldr (push join) (coalesce join ys) := List.foldr_append

/-- No neighbours of a coalesced list can be joined. -/
theorem Lawful.isChain (hl : Lawful join) (xs : List α) :
    List.IsChain (fun x y => join x y = none) (coalesce join xs) := by
  induction xs with
  | nil => exact .nil
  | cons x xs ih =>
      rw [coalesce_cons]
      cases hxs : coalesce join xs with
      | nil => exact .singleton x
      | cons y ys =>
          rw [hxs] at ih
          cases h : join x y with
          | none =>
              rw [push_none h]
              exact .cons_cons h ih
          | some z =>
              rw [push_some h]
              cases ys with
              | nil => exact .singleton z
              | cons w ws =>
                  obtain ⟨hyw, hws⟩ := List.isChain_cons_cons.mp ih
                  refine .cons_cons ?_ hws
                  rw [hl.join_join h, hyw]
                  rfl

/-- A map that respects `join` may be applied before or after. -/
theorem coalesce_map {join' : β → β → Option β} (f : α → β)
    (hf : ∀ x y, join' (f x) (f y) = (join x y).map f) (xs : List α) :
    coalesce join' (xs.map f) = (coalesce join xs).map f := by
  induction xs with
  | nil => rfl
  | cons x xs ih =>
      rw [List.map_cons, coalesce_cons, ih, coalesce_cons]
      cases coalesce join xs with
      | nil => rfl
      | cons y ys =>
          have hxy := hf x y
          cases h : join x y with
          | none =>
              rw [h] at hxy
              rw [push_none h, List.map_cons, push_none hxy]
              rfl
          | some z =>
              rw [h] at hxy
              rw [push_some h, List.map_cons, push_some hxy]
              rfl

end Coalesce
