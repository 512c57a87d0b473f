import Mathlib.Data.List.Basic
import Mathlib.Tactic

/-!
# Texts cut at marks

A text is a sequence of pieces, each ended by a mark, and a rest without marks.
`cut` finds them and `glue` puts them together again.  A choice made by the
last piece that applies is `lastVerdict`; a scan from the front that lets later
pieces override earlier ones computes it.
-/

namespace Marked

variable {α β γ : Type} (isMark : α → Bool)

/-- The pieces of a text, each with its mark, and what follows the last mark. -/
def cut : List α → List (List α × α) × List α
  | [] => ([], [])
  | c :: cs =>
      if isMark c then (([], c) :: (cut cs).1, (cut cs).2)
      else
        match (cut cs).1 with
        | [] => ([], c :: (cut cs).2)
        | (piece, m) :: pieces => ((c :: piece, m) :: pieces, (cut cs).2)

def glue (pieces : List (List α × α)) (rest : List α) : List α :=
  pieces.flatMap (fun p => p.1 ++ [p.2]) ++ rest

theorem glue_cons (p : List α × α) (pieces : List (List α × α)) (rest : List α) :
    glue (p :: pieces) rest = p.1 ++ p.2 :: glue pieces rest := by
  simp [glue]

variable {isMark}

/-- A text without marks is all rest. -/
theorem cut_unmarked {s : List α} (h : ∀ c ∈ s, isMark c = false) : cut isMark s = ([], s) := by
  induction s with
  | nil => rfl
  | cons c cs ih =>
      have hc : isMark c = false := h c (by simp)
      have hcs := ih fun d hd => h d (by simp [hd])
      simp [cut, hc, hcs]

theorem cut_piece {piece : List α} {m : α} (h : ∀ c ∈ piece, isMark c = false)
    (hm : isMark m = true) (s : List α) :
    cut isMark (piece ++ m :: s) = ((piece, m) :: (cut isMark s).1, (cut isMark s).2) := by
  induction piece with
  | nil => simp [cut, hm]
  | cons c cs ih =>
      have hc : isMark c = false := h c (by simp)
      have hcs := ih fun d hd => h d (by simp [hd])
      rw [List.cons_append, cut, if_neg (by simp [hc]), hcs]

/-- Pieces and rest can be read back from the text. -/
theorem cut_glue {pieces : List (List α × α)} {rest : List α}
    (hp : ∀ p ∈ pieces, (∀ c ∈ p.1, isMark c = false) ∧ isMark p.2 = true)
    (hrest : ∀ c ∈ rest, isMark c = false) : cut isMark (glue pieces rest) = (pieces, rest) := by
  induction pieces with
  | nil => exact cut_unmarked hrest
  | cons p pieces ih =>
      obtain ⟨hname, hm⟩ := hp p (by simp)
      rw [glue_cons, cut_piece hname hm, ih fun q hq => hp q (by simp [hq])]

/-- The verdict of the last item that applies. -/
def lastVerdict (applies : β → Bool) (verdict : β → γ) (items : List β) : Option γ :=
  (items.filter applies).getLast?.map verdict

/-- A scan that lets later items override earlier ones. -/
theorem foldl_eq_lastVerdict (applies : β → Bool) (verdict : β → γ) (items : List β)
    (start : Option γ) :
    items.foldl (fun v x => if applies x then some (verdict x) else v) start =
      (lastVerdict applies verdict items).or start := by
  induction items generalizing start with
  | nil => rfl
  | cons x items ih =>
      rw [List.foldl_cons, ih]
      by_cases hx : applies x
      · rw [if_pos hx]
        cases h : (items.filter applies).getLast? <;>
          simp [lastVerdict, hx, h, List.getLast?_cons]
      · simp [lastVerdict, hx]

theorem lastVerdict_eq_none {applies : β → Bool} {verdict : β → γ} {items : List β} :
    lastVerdict applies verdict items = none ↔ ∀ x ∈ items, applies x = false := by
  simp [lastVerdict]

end Marked
