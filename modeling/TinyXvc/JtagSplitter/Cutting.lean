import TinyXvc.JtagSplitter.Decoding
import TinyXvc.JtagSplitter.LoopBounds
import TinyXvc.Lib.Coalesce

/-!
# Cutting a stream into vectors

A vector's ranges are the one-bit ranges of its bits, coalesced.  So it plays
no part how a stream of bits is cut into vectors: the ranges of the pieces,
coalesced, are those of the whole stream.
-/

namespace TinyXvc

open Coalesce

/-- A range that would have gone on into one of the second kind, had its vector
not ended. -/
def RangeKind.cutOff : RangeKind → RangeKind → Bool
  | .tms, .tms => true
  | .tdi incomplete, .tdi _ => incomplete
  | _, _ => false

theorem RangeKind.isTdi_of_cutOff {k l : RangeKind} (h : k.cutOff l = true) :
    k.isTdi = l.isTdi := by
  cases k <;> cases l <;> first | rfl | cases h

theorem RangeKind.cutOff_trans {k l m : RangeKind} (h : k.cutOff l = true) :
    l.cutOff m = true → k.cutOff m = true := by
  cases k <;> cases l <;> cases m <;> simp_all [cutOff]

namespace SplitRange

/-- Neighbours of one kind, the first of which was cut off. -/
def join (x y : SplitRange) : Option SplitRange :=
  if h : x.toBitIdx = y.fromBitIdx ∧ x.kind.cutOff y.kind = true then
    some ⟨y.kind, x.fromBitIdx, y.toBitIdx, (x.nonempty.trans_eq h.1).trans y.nonempty⟩
  else none

/-- The range in a stream in which its vector starts at bit `n`. -/
def shift (n : ℕ) (x : SplitRange) : SplitRange :=
  ⟨x.kind, n + x.fromBitIdx, n + x.toBitIdx, Nat.add_lt_add_left x.nonempty n⟩

theorem join_eq_some {x y z : SplitRange} (h : x.join y = some z) :
    x.toBitIdx = y.fromBitIdx ∧ x.kind.cutOff y.kind = true ∧ z.kind = y.kind ∧
      z.fromBitIdx = x.fromBitIdx ∧ z.toBitIdx = y.toBitIdx := by
  unfold join at h
  split at h
  · rename_i hcut
    cases h
    exact ⟨hcut.1, hcut.2, rfl, rfl, rfl⟩
  · cases h

theorem lawful_join : Lawful join where
  join_join := by
    intro x y z w hxy
    obtain ⟨hxy', hcut, hkind, hfrom, hto⟩ := join_eq_some hxy
    by_cases hyw : y.toBitIdx = w.fromBitIdx ∧ y.kind.cutOff w.kind = true
    · have hzw : z.toBitIdx = w.fromBitIdx ∧ z.kind.cutOff w.kind = true := by
        rw [hkind, hto]
        exact hyw
      have hxv := RangeKind.cutOff_trans hcut hyw.2
      rw [join, dif_pos hzw, join, dif_pos hyw, Option.bind_some, join, dif_pos ⟨hxy', hxv⟩]
      simp only [hfrom]
    · have hzw : ¬(z.toBitIdx = w.fromBitIdx ∧ z.kind.cutOff w.kind = true) := by
        rw [hkind, hto]
        exact hyw
      rw [join, dif_neg hzw, join, dif_neg hyw, Option.bind_none]
  join_isSome := by
    intro x y z w v hxy hyw
    obtain ⟨hxy', hcut, -⟩ := join_eq_some hxy
    obtain ⟨-, hcut', hkind, hfrom, -⟩ := join_eq_some hyw
    have hxv : x.toBitIdx = v.fromBitIdx ∧ x.kind.cutOff v.kind = true := by
      rw [hkind, hfrom]
      exact ⟨hxy', RangeKind.cutOff_trans hcut hcut'⟩
    rw [join, dif_pos hxv]
    rfl

theorem join_shift (n : ℕ) (x y : SplitRange) :
    (x.shift n).join (y.shift n) = (x.join y).map (shift n) := by
  by_cases h : x.toBitIdx = y.fromBitIdx ∧ x.kind.cutOff y.kind = true
  · have hshift : (x.shift n).toBitIdx = (y.shift n).fromBitIdx ∧
        (x.shift n).kind.cutOff (y.shift n).kind = true := ⟨congrArg (n + ·) h.1, h.2⟩
    rw [join, dif_pos hshift, join, dif_pos h]
    rfl
  · have hshift : ¬((x.shift n).toBitIdx = (y.shift n).fromBitIdx ∧
        (x.shift n).kind.cutOff (y.shift n).kind = true) :=
      fun hs => h ⟨Nat.add_left_cancel hs.1, hs.2⟩
    rw [join, dif_neg hshift, join, dif_neg h]
    rfl

end SplitRange

/-! ## Ranges of one bit -/

/-- The kind of a range that ends with the level `b` in the state `st`. -/
def JtagState.rangeKind (st : JtagState) (b : Bool) : RangeKind :=
  if st.isShift then .tdi (nextState st b).isShift else .tms

theorem JtagState.isTdi_rangeKind (st : JtagState) (b : Bool) :
    (st.rangeKind b).isTdi = st.isShift := by
  unfold rangeKind
  cases st.isShift <;> rfl

theorem JtagState.cutOff_rangeKind (st : JtagState) (b b' : Bool) :
    (st.rangeKind b).cutOff ((nextState st b).rangeKind b') =
      (st.isShift == (nextState st b).isShift) := by
  unfold rangeKind
  cases st.isShift <;> cases (nextState st b).isShift <;> rfl

def unitRanges (st : JtagState) (first : ℕ) : List Bool → List SplitRange
  | [] => []
  | b :: bs => ⟨st.rangeKind b, first, first + 1, Nat.lt_succ_self first⟩ ::
      unitRanges (nextState st b) (first + 1) bs

theorem unitRanges_append (st : JtagState) (first : ℕ) (bs cs : List Bool) :
    unitRanges st first (bs ++ cs) =
      unitRanges st first bs ++ unitRanges (st.run bs) (first + bs.length) cs := by
  induction bs generalizing st first with
  | nil => rfl
  | cons b bs ih =>
      rw [List.cons_append, unitRanges, unitRanges, ih, JtagState.run_cons, List.length_cons,
        Nat.add_assoc, Nat.add_comm 1]
      rfl

theorem unitRanges_shift (st : JtagState) (n first : ℕ) (bs : List Bool) :
    unitRanges st (n + first) bs = (unitRanges st first bs).map (SplitRange.shift n) := by
  induction bs generalizing st first with
  | nil => rfl
  | cons b bs ih =>
      have hnext := ih (nextState st b) (first + 1)
      rw [← Nat.add_assoc] at hnext
      rw [unitRanges, unitRanges, List.map_cons, hnext]
      rfl

theorem exists_push (x : SplitRange) (xs : List SplitRange) :
    ∃ y ys, push SplitRange.join x xs = y :: ys ∧ y.kind.isTdi = x.kind.isTdi := by
  cases xs with
  | nil => exact ⟨x, [], rfl, rfl⟩
  | cons y ys =>
      cases h : x.join y with
      | none => exact ⟨x, y :: ys, push_none h ys, rfl⟩
      | some z =>
          obtain ⟨-, hcut, hkind, -⟩ := SplitRange.join_eq_some h
          refine ⟨z, ys, push_some h ys, ?_⟩
          rw [hkind, RangeKind.isTdi_of_cutOff hcut]

/-- The pending bits and the next one make a range, which the bits after it may
extend. -/
theorem splitRanges_cons (st : JtagState) (first len : ℕ) (b : Bool) (bs : List Bool) :
    splitRanges st first len (b :: bs) =
      push SplitRange.join
        ⟨st.rangeKind b, first, first + len + 1, Nat.lt_succ_of_le (Nat.le_add_right _ _)⟩
        (coalesce SplitRange.join (unitRanges (nextState st b) (first + len + 1) bs)) := by
  induction bs generalizing st first len b with
  | nil => rfl
  | cons b' bs ih =>
      rw [splitRanges, List.isEmpty_cons, Bool.false_or]
      by_cases hsame : st.isShift = (nextState st b).isShift
      · have hcut : (st.rangeKind b).cutOff ((nextState st b).rangeKind b') = true := by
          rw [JtagState.cutOff_rangeKind, hsame, beq_self_eq_true]
        have hjoin : SplitRange.join ⟨st.rangeKind b, first, first + len + 1, by omega⟩
            ⟨(nextState st b).rangeKind b', first + len + 1, first + len + 1 + 1, by omega⟩ =
              some ⟨(nextState st b).rangeKind b', first, first + (len + 1) + 1, by omega⟩ :=
          dif_pos ⟨rfl, hcut⟩
        have hne : ¬(st.isShift != (nextState st b).isShift) = true := by
          rw [hsame, bne_self_eq_false]
          exact Bool.false_ne_true
        rw [if_neg hne, ih, unitRanges, coalesce_cons, SplitRange.lawful_join.push_push hjoin]
        rfl
      · have hne : (st.isShift != (nextState st b).isShift) = true := bne_iff_ne.mpr hsame
        obtain ⟨y, ys, hpush, hkind⟩ := exists_push
          ⟨(nextState st b).rangeKind b', first + len + 1, first + len + 1 + 0 + 1, by omega⟩
          (coalesce SplitRange.join
            (unitRanges (nextState (nextState st b) b') (first + len + 1 + 0 + 1) bs))
        have hjoin :
            SplitRange.join ⟨st.rangeKind b, first, first + len + 1, by omega⟩ y = none := by
          refine dif_neg fun h => hsame ?_
          have htdi := RangeKind.isTdi_of_cutOff h.2
          rw [hkind, JtagState.isTdi_rangeKind, JtagState.isTdi_rangeKind] at htdi
          exact htdi
        rw [if_pos hne, ih, unitRanges, coalesce_cons]
        change _ :: push _ _ _ = push _ _ (push SplitRange.join
          ⟨(nextState st b).rangeKind b', first + len + 1, first + len + 1 + 0 + 1, by omega⟩ _)
        rw [hpush, push_none hjoin]
        rfl

theorem ranges_eq_coalesce (r : SplitRequest) (st : JtagState) :
    r.ranges st = coalesce SplitRange.join (unitRanges st 0 r.tmsBits) := by
  unfold SplitRequest.ranges
  cases r.tmsBits with
  | nil => rfl
  | cons b bs => exact splitRanges_cons st 0 0 b bs

/-! ## Neighbours -/

/-- Ranges that start with shift status `s`, change it as their kinds say, and
end with status `e`. -/
def Walks : Bool → Bool → List SplitRange → Prop
  | s, e, [] => s = e
  | s, e, x :: xs => x.kind.isTdi = s ∧ ∃ m, (∀ i, x.kind = .tdi i → i = m) ∧ Walks m e xs

theorem Walks.append {s m e : Bool} {xs ys : List SplitRange} (h : Walks s m xs)
    (h' : Walks m e ys) : Walks s e (xs ++ ys) := by
  induction xs generalizing s with
  | nil =>
      obtain rfl : s = m := h
      exact h'
  | cons x xs ih =>
      obtain ⟨hkind, m', hnext, hrest⟩ := h
      exact ⟨hkind, m', hnext, ih hrest⟩

theorem Walks.shift {s e : Bool} {xs : List SplitRange} (h : Walks s e xs) (n : ℕ) :
    Walks s e (xs.map (SplitRange.shift n)) := by
  induction xs generalizing s with
  | nil => exact h
  | cons x xs ih =>
      obtain ⟨hkind, m, hnext, hrest⟩ := h
      exact ⟨hkind, m, hnext, ih hrest⟩

theorem splitRanges_walks (st : JtagState) (first len : ℕ) (bs : List Bool) :
    Walks st.isShift (st.run bs).isShift (splitRanges st first len bs) := by
  induction bs generalizing st first len with
  | nil => rfl
  | cons b bs ih =>
      rw [splitRanges, JtagState.run_cons]
      cases hev : bs.isEmpty || st.isShift != (nextState st b).isShift with
      | true =>
          rw [if_pos rfl]
          refine ⟨?_, (nextState st b).isShift, ?_, ih _ _ _⟩
          · exact JtagState.isTdi_rangeKind st b
          · intro i hi
            cases hs : st.isShift with
            | false =>
                rw [hs] at hi
                cases hi
            | true =>
                rw [hs] at hi
                cases hi
                rfl
      | false =>
          have hsame : st.isShift = (nextState st b).isShift := by
            simpa using (Bool.or_eq_false_iff.mp hev).2
          rw [if_neg Bool.false_ne_true, hsame]
          exact ih _ _ _

theorem Tiles.append {a b c : ℕ} {xs ys : List SplitRange} (h : Tiles a b xs) (h' : Tiles b c ys) :
    Tiles a c (xs ++ ys) := by
  induction xs generalizing a with
  | nil =>
      obtain rfl : a = b := h
      exact h'
  | cons x xs ih => exact ⟨h.1, ih h.2⟩

theorem Tiles.shift {a b : ℕ} {xs : List SplitRange} (h : Tiles a b xs) (n : ℕ) :
    Tiles (n + a) (n + b) (xs.map (SplitRange.shift n)) := by
  induction xs generalizing a with
  | nil => exact congrArg (n + ·) h
  | cons x xs ih => exact ⟨congrArg (n + ·) h.1, ih h.2⟩

/-- Neighbours are of one kind exactly if the first was cut off. -/
def SameKindIffCutOff (x y : SplitRange) : Prop :=
  x.kind.isTdi = y.kind.isTdi ↔ (x.join y).isSome = true

theorem isChain_of_walks {a b : ℕ} {s e : Bool} {xs : List SplitRange} (htile : Tiles a b xs)
    (hwalk : Walks s e xs) : xs.IsChain SameKindIffCutOff := by
  induction xs generalizing a s with
  | nil => exact .nil
  | cons x xs ih =>
      obtain ⟨-, htail⟩ := htile
      obtain ⟨-, m, hnext, hrest⟩ := hwalk
      cases xs with
      | nil => exact .singleton x
      | cons y ys =>
          refine .cons_cons ?_ (ih htail hrest)
          have hadjacent : x.toBitIdx = y.fromBitIdx := htail.1.symm
          have hcut : x.kind.isTdi = y.kind.isTdi ↔ x.kind.cutOff y.kind = true := by
            have hm : y.kind.isTdi = m := hrest.1
            cases hx : x.kind with
            | tms => cases hy : y.kind <;> simp [RangeKind.isTdi, RangeKind.cutOff]
            | tdi incomplete =>
                have hi := hnext incomplete hx
                rw [← hm] at hi
                rw [hi]
                cases hy : y.kind <;> simp [RangeKind.isTdi, RangeKind.cutOff]
          unfold SameKindIffCutOff SplitRange.join
          rw [hcut]
          split
          · rename_i h
            exact ⟨fun _ => rfl, fun _ => h.2⟩
          · rename_i h
            exact ⟨fun hc => absurd ⟨hadjacent, hc⟩ h, fun hc => absurd hc Bool.false_ne_true⟩

/-- Within one vector, neighbours are of different kinds. -/
theorem ranges_isChain (r : SplitRequest) (st : JtagState) :
    (r.ranges st).IsChain fun x y => x.kind.isTdi ≠ y.kind.isTdi := by
  have hsame := isChain_of_walks (r.ranges_tile st) (splitRanges_walks st 0 0 r.tmsBits)
  have hnone := SplitRange.lawful_join.isChain (unitRanges st 0 r.tmsBits)
  rw [← ranges_eq_coalesce] at hnone
  rw [List.isChain_iff_forall_rel_of_append_cons_cons] at hsame hnone ⊢
  intro x y pre post hsplit hkind
  have hjoin := (hsame hsplit).mp hkind
  rw [hnone hsplit] at hjoin
  cases hjoin

/-! ## Streams -/

/-- With a callback that accepts everything, the vector is delivered as the
ranges `xs` and a flush, and the splitter is left as `splitter'`. -/
def Delivers (splitter : JtagSplitter) (r : SplitRequest) (xs : List SplitRange)
    (splitter' : JtagSplitter) : Prop :=
  ∀ (σ : Type) (cb : JtagSplitterCallback σ) (accept : σ → JtagSplitEvent → σ),
    (∀ e s, cb e s = .ok (true, accept s e)) → ∀ s,
      txvcJtagSplitterProcess cb splitter r s = .ok ((true, splitter'),
        (xs.map (SplitRange.event r) ++ [JtagSplitEvent.flushAll]).foldl accept s)

theorem delivers_ranges (splitter : JtagSplitter) {r : SplitRequest} (hfit : r.FitsInt) :
    Delivers splitter r (r.ranges splitter.state) ⟨splitter.state.run r.tmsBits⟩ := by
  intro σ cb accept hcb s
  have hall := Exec.allM_eq_foldl hcb (r.events splitter.state) s
  have hdeliver : deliver cb r splitter s =
      .ok (some (splitter.state.run r.tmsBits), (r.events splitter.state).foldl accept s) := by
    rw [deliver, Exec.bind_ok hall]
    rfl
  rw [process_eq cb r splitter hfit, Exec.bind_ok hdeliver]
  rfl

/-- A vector that is too long is not delivered. -/
theorem Delivers.fitsInt {splitter splitter' : JtagSplitter} {r : SplitRequest}
    {xs : List SplitRange} (h : Delivers splitter r xs splitter') : r.FitsInt := by
  by_contra hfit
  obtain ⟨s', hrun⟩ := process_overflow accepting_unit splitter hfit ()
  rw [h Unit _ _ accepting_unit ()] at hrun
  cases hrun

/-- The vectors of a stream, one call after another, with the ranges of each. -/
inductive DeliversAll :
    JtagSplitter → List SplitRequest → List (List SplitRange) → JtagSplitter → Prop where
  | nil (splitter : JtagSplitter) : DeliversAll splitter [] [] splitter
  | cons {s t u : JtagSplitter} {r : SplitRequest} {rs : List SplitRequest} {xs : List SplitRange}
      {xss : List (List SplitRange)} (hr : Delivers s r xs t) (hrs : DeliversAll t rs xss u) :
      DeliversAll s (r :: rs) (xs :: xss) u

/-- The ranges of all vectors, with the bit indices of the stream. -/
def onStream (first : ℕ) : List SplitRequest → List (List SplitRange) → List SplitRange
  | r :: rs, xs :: xss => xs.map (SplitRange.shift first) ++ onStream (first + r.numBits) rs xss
  | _, _ => []

theorem coalesce_shift_ranges (r : SplitRequest) (st : JtagState) (first : ℕ) :
    (r.ranges st).map (SplitRange.shift first) =
      coalesce SplitRange.join (unitRanges st first r.tmsBits) := by
  have hmap := coalesce_map (SplitRange.shift first) (SplitRange.join_shift first)
    (unitRanges st 0 r.tmsBits)
  rw [ranges_eq_coalesce, ← hmap, ← unitRanges_shift, Nat.add_zero]

/-- What a stream of vectors delivers. -/
theorem exists_deliversAll (splitter : JtagSplitter) (first : ℕ) {rs : List SplitRequest}
    (hfit : ∀ r ∈ rs, r.FitsInt) :
    ∃ xss, DeliversAll splitter rs xss ⟨splitter.state.run (rs.flatMap SplitRequest.tmsBits)⟩ ∧
      (∀ xs ∈ xss, xs.IsChain fun x y => x.kind.isTdi ≠ y.kind.isTdi) ∧
      coalesce SplitRange.join (onStream first rs xss) =
        coalesce SplitRange.join
          (unitRanges splitter.state first (rs.flatMap SplitRequest.tmsBits)) ∧
      (∃ last, Tiles first last (onStream first rs xss)) ∧
      ∃ e, Walks splitter.state.isShift e (onStream first rs xss) := by
  induction rs generalizing splitter first with
  | nil =>
      refine ⟨[], .nil splitter, ?_, rfl, ⟨first, rfl⟩, ⟨_, rfl⟩⟩
      intro xs hxs
      cases hxs
  | cons r rs ih =>
      obtain ⟨hr, hrs⟩ := List.forall_mem_cons.mp hfit
      obtain ⟨xss, hall, hchain, hcoalesce, ⟨last, htile⟩, e, hwalk⟩ :=
        ih ⟨splitter.state.run r.tmsBits⟩ (first + r.numBits) hrs
      rw [List.flatMap_cons, JtagState.run_append]
      refine ⟨r.ranges splitter.state :: xss, .cons (delivers_ranges splitter hr) hall, ?_, ?_,
        ⟨last, ?_⟩, e, ?_⟩
      · intro xs hxs
        rcases List.mem_cons.mp hxs with rfl | hxs
        · exact ranges_isChain r splitter.state
        · exact hchain xs hxs
      · rw [onStream, coalesce_shift_ranges, unitRanges_append, coalesce_append_eq, hcoalesce,
          SplitRange.lawful_join.foldr_coalesce, coalesce_append_eq, r.length_tmsBits]
      · exact (Tiles.shift (r.ranges_tile splitter.state) first).append htile
      · exact (Walks.shift (splitRanges_walks splitter.state 0 0 r.tmsBits) first).append hwalk

/-- The pieces of a stream and the whole of it lead to one state, and to one list of
ranges after joining neighbours of one kind; these meet where a range was cut off by the
end of a vector, and nowhere else. -/
def CutsAlike (splitter : JtagSplitter) (rs : List SplitRequest) (whole : SplitRequest) : Prop :=
  ∃ xss xs splitter', DeliversAll splitter rs xss splitter' ∧ Delivers splitter whole xs splitter' ∧
    xs = coalesce SplitRange.join (onStream 0 rs xss) ∧
    (onStream 0 rs xss).IsChain SameKindIffCutOff ∧
    ∀ ys ∈ xss, ys.IsChain fun x y => x.kind.isTdi ≠ y.kind.isTdi

section Pieces

variable {splitter : JtagSplitter} {rs : List SplitRequest} {whole : SplitRequest}

theorem CutsAlike.fitsInt (h : CutsAlike splitter rs whole) : whole.FitsInt := by
  obtain ⟨xss, xs, splitter', -, hwhole, -⟩ := h
  exact hwhole.fitsInt

/-- The pieces of a vector that is not too long are not too long. -/
theorem pieces_fitInt (hwhole : whole.tmsBits = rs.flatMap SplitRequest.tmsBits)
    (hfit : whole.FitsInt) : ∀ r ∈ rs, r.FitsInt := by
  intro r hr
  have hsub : r.tmsBits.Sublist (rs.flatMap SplitRequest.tmsBits) :=
    List.sublist_flatten_of_mem (List.mem_map_of_mem hr)
  have hle := hsub.length_le
  rw [← hwhole, r.length_tmsBits, whole.length_tmsBits] at hle
  exact (Nat.add_le_add_right hle 7).trans hfit

theorem cutsAlike_of_fitsInt (hwhole : whole.tmsBits = rs.flatMap SplitRequest.tmsBits)
    (hfit : whole.FitsInt) : CutsAlike splitter rs whole := by
  obtain ⟨xss, hall, hchain, hcoalesce, ⟨last, htile⟩, e, hwalk⟩ :=
    exists_deliversAll splitter 0 (pieces_fitInt hwhole hfit)
  have hdelivers := delivers_ranges splitter hfit
  rw [← hwhole] at hall hcoalesce
  refine ⟨xss, _, _, hall, hdelivers, ?_, isChain_of_walks htile hwalk, hchain⟩
  rw [hcoalesce, ranges_eq_coalesce]

end Pieces

/-- It plays no part how a stream is cut into vectors, exactly if the whole stream has at
most 2³¹ - 8 bits. -/
theorem cutting_keeps_decoding_iff (splitter : JtagSplitter) {rs : List SplitRequest}
    {whole : SplitRequest} (hwhole : whole.tmsBits = rs.flatMap SplitRequest.tmsBits) :
    CutsAlike splitter rs whole ↔ whole.numBits ≤ 2 ^ 31 - 8 := by
  rw [← whole.fitsInt_iff]
  exact ⟨CutsAlike.fitsInt, cutsAlike_of_fitsInt hwhole⟩

/-- Eight bits in Shift-DR, cut after the third. -/
theorem cutting_keeps_decoding_iff_three_five :
    CutsAlike ⟨.shiftDr⟩
      [⟨3, fun _ => 0, fun _ => 0, ⟨.vector 0, 0⟩⟩, ⟨5, fun _ => 0x10, fun _ => 0, ⟨.vector 0, 0⟩⟩]
      ⟨8, fun _ => 0x80, fun _ => 0, ⟨.vector 0, 0⟩⟩ := by
  have hbits : (SplitRequest.mk 8 (fun _ => 0x80) (fun _ => 0) ⟨.vector 0, 0⟩).tmsBits =
      [SplitRequest.mk 3 (fun _ => 0) (fun _ => 0) ⟨.vector 0, 0⟩,
        ⟨5, fun _ => 0x10, fun _ => 0, ⟨.vector 0, 0⟩⟩].flatMap SplitRequest.tmsBits := by
    decide
  exact (cutting_keeps_decoding_iff ⟨.shiftDr⟩ hbits).mpr (by decide)

theorem tmsBits_ones (n : ℕ) (tdi : Octets) (tdo : Ptr) :
    (SplitRequest.mk n (fun _ => 0xff) tdi tdo).tmsBits = List.replicate n true := by
  have hones : ∀ i < 8, Octet.bit 0xff i = true := by decide
  have hbit : ∀ i ∈ List.range n, Octets.bit (fun _ => 0xff) (0 + i) = true :=
    fun i _ => hones _ (Nat.mod_lt _ (by decide))
  rw [SplitRequest.tmsBits, Octets.bits, List.map_congr_left hbit, List.map_const',
    List.length_range]

/-- The longest vector, and its last octet cut off: both pieces are delivered, and the whole
is not. -/
theorem longest_vector_not_whole :
    let rs : List SplitRequest := [⟨2 ^ 31 - 9, fun _ => 0xff, fun _ => 0, ⟨.vector 0, 0⟩⟩,
      ⟨8, fun _ => 0xff, fun _ => 0, ⟨.vector 0, 0⟩⟩]
    longestVector.tmsBits = rs.flatMap SplitRequest.tmsBits ∧
      (∃ xss splitter', DeliversAll ⟨.testLogicReset⟩ rs xss splitter') ∧
      ¬CutsAlike ⟨.testLogicReset⟩ rs longestVector := by
  intro rs
  refine ⟨?_, ?_, fun h => absurd h.fitsInt longestVector_not_fitsInt⟩
  · have hlen : intMax = 2 ^ 31 - 9 + 8 := by decide
    simp only [rs, List.flatMap_cons, List.flatMap_nil, List.append_nil, tmsBits_ones]
    rw [longestVector, tmsBits_ones, hlen, List.replicate_add]
  · have hfit : ∀ r ∈ rs, r.FitsInt := by
      intro r hr
      rw [r.fitsInt_iff]
      rcases List.mem_pair.mp hr with rfl | rfl <;> decide
    obtain ⟨xss, hall, -⟩ := exists_deliversAll ⟨.testLogicReset⟩ 0 hfit
    exact ⟨xss, _, hall⟩

end TinyXvc
