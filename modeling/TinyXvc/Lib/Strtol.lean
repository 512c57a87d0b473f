import Mathlib.Data.List.Basic
import Mathlib.Data.List.TakeWhile
import Mathlib.Tactic

/-!
# `strtol`

The number at the start of a text, in the bases that `strtol` knows: white
space, a sign, the marks of the base, and digits.  `numeral` finds it with its
exact value; `strtol` keeps the value in the range of a 64-bit `long`, and is
silent about a text without a number.
-/

namespace Strtol

def isSpace (c : Char) : Bool := c == ' ' || '\t' ≤ c && c ≤ '\r'

/-- The value of a digit; 36 for other characters. -/
def digitValue (c : Char) : ℕ :=
  if '0' ≤ c ∧ c ≤ '9' then c.toNat - '0'.toNat
  else if 'a' ≤ c ∧ c ≤ 'z' then c.toNat - 'a'.toNat + 10
  else if 'A' ≤ c ∧ c ≤ 'Z' then c.toNat - 'A'.toNat + 10
  else 36

def isDigit (base : ℕ) (c : Char) : Bool := digitValue c < base

def value (base : ℕ) (digits : List Char) : ℕ :=
  digits.foldl (fun v c => v * base + digitValue c) 0

/-- Whether the number is negative, and what follows its sign. -/
def splitSign : List Char → Bool × List Char
  | '-' :: s => (true, s)
  | '+' :: s => (false, s)
  | s => (false, s)

/-- The base of the digits, and where they start. -/
def splitBase (base : ℕ) (s : List Char) : ℕ × List Char :=
  match s with
  | '0' :: x :: d :: rest =>
      if (base = 0 ∨ base = 16) ∧ (x = 'x' ∨ x = 'X') ∧ isDigit 16 d = true then (16, d :: rest)
      else (if base = 0 then 8 else base, s)
  | '0' :: _ => (if base = 0 then 8 else base, s)
  | _ => (if base = 0 then 10 else base, s)

/-- The number at the start of the text, and what follows it. -/
def numeral (base : ℕ) (s : List Char) : Option (ℤ × List Char) :=
  let (negative, unsigned) := splitSign (s.dropWhile isSpace)
  let (base, text) := splitBase base unsigned
  let digits := text.takeWhile (isDigit base)
  if digits = [] then none
  else some (if negative then -value base digits else value base digits,
    text.dropWhile (isDigit base))

def longMin : ℤ := -2 ^ 63

def longMax : ℤ := 2 ^ 63 - 1

/-- The nearest `long`. -/
def saturate (v : ℤ) : ℤ := max longMin (min longMax v)

/-- `strtol` with the text at the end pointer. -/
def strtol (base : ℕ) (s : List Char) : ℤ × List Char :=
  match numeral base s with
  | none => (0, s)
  | some (v, rest) => (saturate v, rest)

theorem saturate_of_mem {v : ℤ} (hlo : longMin ≤ v) (hhi : v ≤ longMax) : saturate v = v := by
  rw [saturate, min_eq_right hhi, max_eq_right hlo]

theorem saturate_between {lo hi v : ℤ} (hlo : longMin < lo) (hhi : hi < longMax) :
    lo ≤ saturate v ∧ saturate v ≤ hi ↔ lo ≤ v ∧ v ≤ hi := by
  unfold saturate
  constructor
  · rintro ⟨hge, hle⟩
    omega
  · rintro ⟨hge, hle⟩
    omega

variable {base : ℕ} {s : List Char}

theorem strtol_of_none (h : numeral base s = none) : strtol base s = (0, s) := by
  rw [strtol, h]

theorem strtol_of_some {v : ℤ} {rest : List Char} (h : numeral base s = some (v, rest)) :
    strtol base s = (saturate v, rest) := by
  rw [strtol, h]

@[simp] theorem numeral_nil (base : ℕ) : numeral base [] = none := rfl

/-- The number that the whole text is, when it is in the bounds. -/
def numberBetween (base : ℕ) (lo hi : ℤ) (s : List Char) : Option ℤ :=
  match numeral base s with
  | some (v, []) => if lo ≤ v ∧ v ≤ hi then some v else none
  | _ => none

theorem numberBetween_eq_some {lo hi v : ℤ} :
    numberBetween base lo hi s = some v ↔ numeral base s = some (v, []) ∧ lo ≤ v ∧ v ≤ hi := by
  unfold numberBetween
  split
  · rename_i w hnum
    rw [hnum]
    constructor
    · intro hsome
      split at hsome
      · cases hsome
        exact ⟨rfl, ‹_›⟩
      · cases hsome
    · rintro ⟨hv, hin⟩
      cases hv
      exact if_pos hin
  · rename_i hother
    refine iff_of_false (by simp) ?_
    rintro ⟨hv, -⟩
    exact hother v hv

/-- A caller that looks at the end pointer and at bounds finds such numbers, when
it does not take the empty text for 0. -/
theorem numberBetween_eq {lo hi : ℤ} (hlo : longMin < lo) (hhi : hi < longMax)
    (hs : s = [] → 0 < lo ∨ hi < 0) :
    numberBetween base lo hi s =
      if (strtol base s).2 ≠ [] ∨ (strtol base s).1 < lo ∨ (strtol base s).1 > hi then none
      else some (strtol base s).1 := by
  cases hnum : numeral base s with
  | none =>
      have hrefused : s ≠ [] ∨ (0 : ℤ) < lo ∨ (0 : ℤ) > hi := by
        by_cases hnil : s = []
        · exact .inr (hs hnil)
        · exact .inl hnil
      rw [strtol_of_none hnum, if_pos hrefused, numberBetween, hnum]
  | some p =>
      obtain ⟨v, rest⟩ := p
      rw [strtol_of_some hnum, numberBetween, hnum]
      cases rest with
      | cons c rest => simp
      | nil =>
          have hbetween := saturate_between (v := v) hlo hhi
          by_cases hv : lo ≤ v ∧ v ≤ hi
          · have hsat : saturate v = v := saturate_of_mem (by omega) (by omega)
            have hin : ¬(([] : List Char) ≠ [] ∨ v < lo ∨ v > hi) := by
              simp only [ne_eq, not_true_eq_false, false_or]
              omega
            simp only [hsat, if_pos hv, if_neg hin]
          · have hout : ([] : List Char) ≠ [] ∨ saturate v < lo ∨ saturate v > hi := by
              right
              by_contra hnot
              exact hv (hbetween.mp (by omega))
            simp only [if_neg hv, if_pos hout]

/-! ## Numbers that are cut off -/

theorem splitSign_append {t : List Char} (ht : t ≠ []) (more : List Char) :
    splitSign (t ++ more) = ((splitSign t).1, (splitSign t).2 ++ more) := by
  cases t with
  | nil => exact absurd rfl ht
  | cons c t =>
      by_cases hminus : c = '-'
      · subst hminus
        rfl
      by_cases hplus : c = '+'
      · subst hplus
        rfl
      · have hplain (u : List Char) : splitSign (c :: u) = (false, c :: u) := by
          simp [splitSign, hminus, hplus]
        rw [List.cons_append, hplain, hplain]
        rfl

theorem value_append (base : ℕ) (a b : List Char) (hbase : 0 < base) :
    value base a ≤ value base (a ++ b) := by
  rw [value, value, List.foldl_append]
  induction b using List.reverseRecOn with
  | nil => exact le_rfl
  | append_singleton b c ih =>
      rw [List.foldl_append, List.foldl_cons, List.foldl_nil]
      have hmul := Nat.le_mul_of_pos_right (b.foldl (fun v c => v * base + digitValue c)
        (a.foldl (fun v c => v * base + digitValue c) 0)) hbase
      omega

theorem splitBase_zero (base : ℕ) :
    splitBase base ['0'] = (if base = 0 then 8 else base, ['0']) := rfl

theorem splitBase_of_ne {c : Char} (hc : c ≠ '0') (u : List Char) :
    splitBase base (c :: u) = (if base = 0 then 10 else base, c :: u) := by
  simp [splitBase, hc]

/-- What follows a number in digits does not change how its base is found. -/
theorem splitBase_append {u : List Char} (hdigits : ∀ c ∈ (splitBase base u).2,
      isDigit (splitBase base u).1 c = true) (hu : u ≠ []) (hzero : u ≠ ['0'])
    (more : List Char) :
    splitBase base (u ++ more) = ((splitBase base u).1, (splitBase base u).2 ++ more) := by
  cases u with
  | nil => exact absurd rfl hu
  | cons c u =>
      by_cases hc : c = '0'
      · subst hc
        cases u with
        | nil => exact absurd rfl hzero
        | cons x u =>
            cases u with
            | cons d rest =>
                simp only [List.cons_append, splitBase]
                split
                · rfl
                · rfl
            | nil =>
                cases more with
                | nil => simp
                | cons d more =>
                    -- a digit of the base is not the mark of another one
                    have hx : isDigit (if base = 0 then 8 else base) x = true :=
                      hdigits x (by simp [splitBase])
                    have hmark : ¬((base = 0 ∨ base = 16) ∧ (x = 'x' ∨ x = 'X') ∧
                        isDigit 16 d = true) := by
                      rintro ⟨rfl | rfl, rfl | rfl, -⟩
                      · exact absurd hx (by decide)
                      · exact absurd hx (by decide)
                      · exact absurd hx (by decide)
                      · exact absurd hx (by decide)
                    simp only [List.cons_append, List.nil_append, splitBase, if_neg hmark]
      · rw [List.cons_append, splitBase_of_ne hc, splitBase_of_ne hc]
        rfl

/-- A text that is a number as a whole. -/
theorem numeral_whole {v : ℤ} (h : numeral base s = some (v, [])) :
    let signed := splitSign (s.dropWhile isSpace)
    let based := splitBase base signed.2
    based.2 ≠ [] ∧ (∀ c ∈ based.2, isDigit based.1 c = true) ∧
      v = if signed.1 then -(value based.1 based.2 : ℤ) else value based.1 based.2 := by
  intro signed based
  unfold numeral at h
  dsimp only at h
  split at h
  · cases h
  · rename_i hne
    obtain ⟨hv, hrest⟩ := Prod.mk.inj (Option.some.inj h)
    have hall : ∀ c ∈ based.2, isDigit based.1 c = true := List.dropWhile_eq_nil_iff.mp hrest
    have htake : based.2.takeWhile (isDigit based.1) = based.2 :=
      List.takeWhile_eq_self_iff.mpr hall
    have hne' : based.2.takeWhile (isDigit based.1) ≠ [] := hne
    refine ⟨fun hnil => hne' (by rw [hnil, List.takeWhile_nil]), hall, ?_⟩
    rw [← hv]
    change (if signed.1 then -(value based.1 (based.2.takeWhile (isDigit based.1)) : ℤ)
      else value based.1 (based.2.takeWhile (isDigit based.1))) = _
    rw [htake]

/-- A number that is cut off is not greater than the number. -/
theorem numeral_cut {more : List Char} {v w : ℤ} (h : numeral base s = some (v, []))
    (hall : numeral base (s ++ more) = some (w, [])) (hw : 0 ≤ w) : 0 ≤ v ∧ v ≤ w := by
  obtain ⟨hne, hdigits, rfl⟩ := numeral_whole h
  obtain ⟨-, -, rfl⟩ := numeral_whole hall
  generalize ht : s.dropWhile isSpace = t at *
  have hu : (splitSign t).2 ≠ [] := by
    intro hnil
    rw [hnil] at hne
    exact hne rfl
  have htne : t ≠ [] := by
    rintro rfl
    exact hu rfl
  have hdrop : (s ++ more).dropWhile isSpace = t ++ more := by
    rw [List.dropWhile_append, ht, if_neg (by simpa using htne)]
  rw [hdrop, splitSign_append htne] at hw ⊢
  dsimp only at hw ⊢
  by_cases hzero : (splitSign t).2 = ['0']
  · have hvalue :
        value (splitBase base (splitSign t).2).1 (splitBase base (splitSign t).2).2 = 0 := by
      rw [hzero, splitBase_zero, value]
      simp [digitValue]
    rw [hvalue]
    simpa using hw
  · rw [splitBase_append hdigits hu hzero] at hw ⊢
    obtain ⟨c, hc⟩ := List.exists_mem_of_ne_nil _ hne
    have hbase : 0 < (splitBase base (splitSign t).2).1 :=
      Nat.zero_lt_of_lt (of_decide_eq_true (hdigits c hc))
    have hle := value_append _ (splitBase base (splitSign t).2).2 more hbase
    cases hneg : (splitSign t).1 with
    | false =>
        simp only [hneg, Bool.false_eq_true, if_false] at hw ⊢
        omega
    | true =>
        simp only [hneg, if_true] at hw ⊢
        omega

end Strtol
