import TinyXvc.JtagSplitter

/-!
# The events of a vector

The nested loops of `txvc_jtag_splitter_process` deliver a list of events that
depends on the state and the TMS bits only.  `splitRanges` computes that list
bit by bit, and `processVector_eq_or` shows that the loops hand it to the
callback until the callback rejects an event.
-/

namespace TinyXvc

def JtagState.isShift : JtagState → Bool
  | .shiftDr => true
  | .shiftIr => true
  | _ => false

inductive RangeKind where
  | tms
  | tdi (incomplete : Bool)
  deriving DecidableEq, Repr

def RangeKind.isTdi : RangeKind → Bool
  | .tms => false
  | .tdi _ => true

/-- A non-empty run of vector bits that one event shifts. -/
structure SplitRange where
  kind : RangeKind
  fromBitIdx : ℕ
  toBitIdx : ℕ
  nonempty : fromBitIdx < toBitIdx
  deriving DecidableEq, Repr

def SplitRange.event (r : SplitRequest) (x : SplitRange) : JtagSplitEvent :=
  match x.kind with
  | .tms => .shiftTms r.tms x.fromBitIdx x.toBitIdx
  | .tdi incomplete => .shiftTdi r.tdi r.tdo x.fromBitIdx x.toBitIdx incomplete

/-- The ranges of the remaining TMS bits, of which `len` bits from `first` on
have been passed without an event. -/
def splitRanges (st : JtagState) (first len : ℕ) : List Bool → List SplitRange
  | [] => []
  | b :: bs =>
      let next := nextState st b
      if bs.isEmpty || st.isShift != next.isShift then
        ⟨if st.isShift then .tdi next.isShift else .tms, first, first + len + 1, by omega⟩ ::
          splitRanges next (first + len + 1) 0 bs
      else splitRanges next first (len + 1) bs

def JtagState.run (st : JtagState) (bits : List Bool) : JtagState := bits.foldl nextState st

@[simp] theorem JtagState.run_nil (st : JtagState) : st.run [] = st := rfl

@[simp] theorem JtagState.run_cons (st : JtagState) (b : Bool) (bs : List Bool) :
    st.run (b :: bs) = (nextState st b).run bs := rfl

theorem JtagState.run_append (st : JtagState) (xs ys : List Bool) :
    st.run (xs ++ ys) = (st.run xs).run ys := List.foldl_append

namespace SplitRequest

def tmsBits (r : SplitRequest) : List Bool := r.tms.bits 0 r.numBits

@[simp] theorem length_tmsBits (r : SplitRequest) : r.tmsBits.length = r.numBits := by
  simp [tmsBits]

/-- The ranges that the loops deliver from the state `st`. -/
def ranges (r : SplitRequest) (st : JtagState) : List SplitRange :=
  splitRanges st 0 0 r.tmsBits

/-- The events of the whole vector, the final flush included. -/
def events (r : SplitRequest) (st : JtagState) : List JtagSplitEvent :=
  (r.ranges st).map (SplitRange.event r) ++ [.flushAll]

/-- No `int` of the loops overflows. -/
def FitsInt (r : SplitRequest) : Prop := r.numBits + 7 ≤ intMax

instance (r : SplitRequest) : Decidable r.FitsInt :=
  inferInstanceAs (Decidable (r.numBits + 7 ≤ intMax))

end SplitRequest

/-- A shift state is entered with TMS low and left with TMS high. -/
theorem nextState_isShift {st : JtagState} {b : Bool}
    (h : st.isShift ≠ (nextState st b).isShift) : b = st.isShift := by
  cases st <;> cases b <;> first | rfl | exact absurd rfl h

section Loops

variable {σ : Type} (cb : JtagSplitterCallback σ) (r : SplitRequest)

/-- The loops without their octet bookkeeping. -/
def processBits (bitIdx : ℕ) (l : SplitLoop) : List Bool → Exec Abort σ (Option SplitLoop)
  | [] => pure (some l)
  | b :: bs => do
      match ← processBit cb r bitIdx b l with
      | none => pure none
      | some l => processBits (bitIdx + 1) l bs

theorem processBits_append (bitIdx : ℕ) (l : SplitLoop) (xs ys : List Bool) :
    processBits cb r bitIdx l (xs ++ ys) = (do
      match ← processBits cb r bitIdx l xs with
      | none => pure none
      | some l => processBits cb r (bitIdx + xs.length) l ys) := by
  induction xs generalizing bitIdx l with
  | nil => simp [processBits]
  | cons x xs ih =>
      simp only [List.cons_append, processBits, bind_assoc]
      congr 1
      funext o
      cases o with
      | none => simp
      | some l' =>
          dsimp only
          rw [ih (bitIdx + 1) l', List.length_cons, Nat.add_comm xs.length 1, ← Nat.add_assoc]

theorem processRound_eq (last bitIdx : ℕ) (l : SplitLoop) (hlast : last ≤ bitIdx / 8 * 8 + 8)
    (hle : bitIdx ≤ last) :
    processRound cb r last bitIdx (r.tms (bitIdx / 8) >>> UInt8.ofNat (bitIdx % 8)) l =
      processBits cb r bitIdx l (r.tms.bits bitIdx (last - bitIdx)) := by
  induction hn : last - bitIdx generalizing bitIdx l with
  | zero =>
      have hnlt : ¬ bitIdx < last := by omega
      rw [processRound, if_neg hnlt]
      rfl
  | succ n ih =>
      have hlt : bitIdx < last := by omega
      have hmod : bitIdx % 8 < 8 := Nat.mod_lt _ (by decide)
      rw [processRound, if_pos hlt, Octets.bits_succ, processBits]
      have hbit : (r.tms (bitIdx / 8) >>> UInt8.ofNat (bitIdx % 8) &&& 1 != 0) =
          r.tms.bit bitIdx := by
        rw [Octet.and_one_ne_zero, Octet.bit_shiftRight _ hmod]
        rfl
      rw [hbit]
      congr 1
      funext o
      cases o with
      | none => rfl
      | some l' =>
          by_cases hend : bitIdx + 1 = last
          · -- the last bit of the octet: what is left of `tmsByte` does not matter
            have hn0 : n = 0 := by omega
            subst hn0
            dsimp only
            rw [hend, processRound, if_neg (lt_irrefl last)]
            rfl
          · have hdiv : (bitIdx + 1) / 8 = bitIdx / 8 := by omega
            have hmod' : (bitIdx + 1) % 8 = bitIdx % 8 + 1 := by omega
            have hshift : r.tms (bitIdx / 8) >>> UInt8.ofNat (bitIdx % 8) >>> 1 =
                r.tms ((bitIdx + 1) / 8) >>> UInt8.ofNat ((bitIdx + 1) % 8) := by
              refine Octet.ext fun i _ => ?_
              rw [hdiv, hmod', Octet.bit_shiftRight _ (by omega)]
              have h1 := Octet.bit_shiftRight
                (r.tms (bitIdx / 8) >>> UInt8.ofNat (bitIdx % 8)) (k := 1) (by decide) i
              rw [show (1 : UInt8) = UInt8.ofNat 1 from rfl, h1, Octet.bit_shiftRight _ hmod]
              congr 1
              omega
            dsimp only
            rw [hshift]
            exact ih (bitIdx + 1) l' (by omega) (by omega) (by omega)

/-- The rounds deliver what the bits do, unless a round end overflows. -/
theorem processRounds_eq_or (bitIdx : ℕ) (l : SplitLoop) (s : σ)
    (h8 : bitIdx % 8 = 0 ∨ bitIdx = r.numBits) (hle : bitIdx ≤ r.numBits) :
    processRounds cb r bitIdx l s =
        processBits cb r bitIdx l (r.tms.bits bitIdx (r.numBits - bitIdx)) s ∨
      ¬ r.FitsInt ∧ ∃ s', processRounds cb r bitIdx l s = .error (.signedOverflow, s') := by
  induction hn : r.numBits - bitIdx using Nat.strong_induction_on generalizing bitIdx l s with
  | _ n ih =>
      subst hn
      by_cases hlt : bitIdx < r.numBits
      · have h80 : bitIdx % 8 = 0 := h8.resolve_right (by omega)
        rw [processRounds, if_pos hlt]
        by_cases hint : bitIdx + 8 ≤ intMax
        · rw [checkInt_of_le hint]
          simp only [pure_bind]
          generalize hlast : (if bitIdx + 8 > r.numBits then r.numBits else bitIdx + 8) = last
          have hbounds : bitIdx < last ∧ last ≤ bitIdx + 8 ∧ last ≤ r.numBits ∧
              (last % 8 = 0 ∨ last = r.numBits) := by
            subst hlast
            split <;> omega
          obtain ⟨hlo, hhi, hend, hstop⟩ := hbounds
          have hround := processRound_eq cb r last bitIdx l (by omega) hlo.le
          have hbyte : r.tms (bitIdx / 8) >>> UInt8.ofNat (bitIdx % 8) = r.tms (bitIdx / 8) := by
            rw [h80]
            refine Octet.ext fun i _ => ?_
            rw [Octet.bit_shiftRight _ (by decide), Nat.zero_add]
          have hsplit : r.numBits - bitIdx = (last - bitIdx) + (r.numBits - last) := by omega
          have hnext : bitIdx + (last - bitIdx) = last := by omega
          rw [hbyte] at hround
          rw [hround, hsplit, Octets.bits_add, processBits_append, Octets.length_bits, hnext]
          cases hres : processBits cb r bitIdx l (r.tms.bits bitIdx (last - bitIdx)) s with
          | error e =>
              left
              rw [Exec.bind_error hres, Exec.bind_error hres]
          | ok p =>
              obtain ⟨o, s'⟩ := p
              rw [Exec.bind_ok hres, Exec.bind_ok hres]
              cases o with
              | none => exact Or.inl rfl
              | some l' => exact ih (r.numBits - last) (by omega) last l' s' hstop hend rfl
        · right
          refine ⟨?_, ?_⟩
          · unfold SplitRequest.FitsInt
            omega
          · refine ⟨s, ?_⟩
            rw [checkInt, if_neg hint]
            rfl
      · have hzero : r.numBits - bitIdx = 0 := by omega
        rw [processRounds, if_neg hlt, hzero]
        exact Or.inl rfl

theorem processBit_eq (bitIdx : ℕ) (b : Bool) (l : SplitLoop) :
    processBit cb r bitIdx b l =
      if bitIdx == r.numBits - 1 || l.jtagState.isShift != (nextState l.jtagState b).isShift then do
        if ← cb (if l.jtagState.isShift then
            .shiftTdi r.tdi r.tdo l.firstPendingBitIdx (bitIdx + 1)
              (nextState l.jtagState b).isShift
          else .shiftTms r.tms l.firstPendingBitIdx (bitIdx + 1)) then
          pure (some ⟨nextState l.jtagState b, bitIdx + 1⟩)
        else pure none
      else pure (some ⟨nextState l.jtagState b, l.firstPendingBitIdx⟩) := by
  obtain ⟨st, first⟩ := l
  cases st <;> cases b <;> simp [processBit, nextState, JtagState.isShift] <;> rfl

/-- The loops hand the ranges of the vector to the callback, in order, until it
rejects one. -/
theorem processBits_eq (l : SplitLoop) (len : ℕ) (bs : List Bool)
    (hlen : l.firstPendingBitIdx + len + bs.length = r.numBits) :
    processBits cb r (l.firstPendingBitIdx + len) l bs = (do
      if ← ((splitRanges l.jtagState l.firstPendingBitIdx len bs).map (SplitRange.event r)).allM cb
      then pure (some ⟨l.jtagState.run bs, if bs = [] then l.firstPendingBitIdx else r.numBits⟩)
      else pure none) := by
  induction bs generalizing l len with
  | nil => simp [processBits, splitRanges]
  | cons b bs ih =>
      rw [List.length_cons] at hlen
      have hend : (l.firstPendingBitIdx + len == r.numBits - 1) = bs.isEmpty := by
        rw [Bool.eq_iff_iff, beq_iff_eq, List.isEmpty_iff, ← List.length_eq_zero_iff]
        omega
      rw [processBits, processBit_eq, splitRanges, hend]
      cases hev : bs.isEmpty || l.jtagState.isShift != (nextState l.jtagState b).isShift with
      | true =>
        -- an event ends at this bit, and the rest of the vector is pending from the next one
        rw [if_pos rfl, if_pos rfl, List.map_cons, List.allM_cons]
        simp only [bind_assoc]
        have hevent : SplitRange.event r
            ⟨if l.jtagState.isShift then .tdi (nextState l.jtagState b).isShift else .tms,
              l.firstPendingBitIdx, l.firstPendingBitIdx + len + 1, by omega⟩ =
            if l.jtagState.isShift then
              .shiftTdi r.tdi r.tdo l.firstPendingBitIdx (l.firstPendingBitIdx + len + 1)
                (nextState l.jtagState b).isShift
            else .shiftTms r.tms l.firstPendingBitIdx (l.firstPendingBitIdx + len + 1) := by
          cases l.jtagState.isShift <;> rfl
        rw [hevent]
        congr 1
        funext ok
        cases ok with
        | false => simp
        | true =>
            have hrest := ih ⟨nextState l.jtagState b, l.firstPendingBitIdx + len + 1⟩ 0
              (by dsimp only; omega)
            simp only [if_true, pure_bind]
            simp only [Nat.add_zero] at hrest
            rw [hrest]
            by_cases hbs : bs = []
            · subst hbs
              have hnum : l.firstPendingBitIdx + len + 1 = r.numBits := by simpa using hlen
              simp [splitRanges, hnum]
            · simp [hbs]
      | false =>
        have hne : bs ≠ [] := by
          rintro rfl
          simp at hev
        have hrest := ih ⟨nextState l.jtagState b, l.firstPendingBitIdx⟩ (len + 1)
          (by dsimp only; omega)
        rw [if_neg Bool.false_ne_true, if_neg Bool.false_ne_true, pure_bind]
        dsimp only at hrest ⊢
        rw [Nat.add_assoc, hrest]
        simp [hne]

/-- Delivery of the events of a vector. -/
def deliver (splitter : JtagSplitter) : Exec Abort σ (Option JtagState) := do
  if ← (r.events splitter.state).allM cb then pure (some (splitter.state.run r.tmsBits))
  else pure none

theorem processVector_eq_or (splitter : JtagSplitter) (s : σ) :
    processVector cb splitter r s = deliver cb r splitter s ∨
      ¬ r.FitsInt ∧ ∃ s', processVector cb splitter r s = .error (.signedOverflow, s') := by
  have hbits := processBits_eq cb r ⟨splitter.state, 0⟩ 0 r.tmsBits (by simp)
  have hdeliver : deliver cb r splitter = (do
      match ← processBits cb r 0 ⟨splitter.state, 0⟩ r.tmsBits with
      | none => pure none
      | some l => if ← cb .flushAll then pure (some l.jtagState) else pure none) := by
    simp only [Nat.add_zero] at hbits
    rw [hbits, deliver, SplitRequest.events, SplitRequest.ranges, Exec.allM_append]
    simp only [bind_assoc]
    congr 1
    funext ok
    cases ok with
    | false => rfl
    | true =>
        simp only [if_true, pure_bind, List.allM_cons, List.allM_nil, bind_assoc]
        congr 1
        funext ok
        cases ok <;> rfl
  rw [hdeliver, processVector]
  rcases processRounds_eq_or cb r 0 ⟨splitter.state, 0⟩ s (Or.inl rfl) (Nat.zero_le _) with
    hrounds | ⟨hfit, s', hrounds⟩
  · left
    rw [Nat.sub_zero] at hrounds
    change processRounds cb r 0 _ s = processBits cb r 0 _ r.tmsBits s at hrounds
    exact Exec.bind_congr_left hrounds _
  · exact Or.inr ⟨hfit, s', Exec.bind_error hrounds⟩

/-- The recovery of `bail_reset`, or the state to store. -/
def settle (splitter : JtagSplitter) : Option JtagState → Exec Abort σ (Bool × JtagSplitter)
  | some jtagState => pure (true, { splitter with state := jtagState })
  | none => do
      let _ ← tapReset cb
      pure (false, { splitter with state := .testLogicReset })

theorem process_eq_or (splitter : JtagSplitter) (s : σ) :
    txvcJtagSplitterProcess cb splitter r s = (deliver cb r splitter >>= settle cb splitter) s ∨
      ¬ r.FitsInt ∧
        ∃ s', txvcJtagSplitterProcess cb splitter r s = .error (.signedOverflow, s') := by
  have hsettle : txvcJtagSplitterProcess cb splitter r =
      processVector cb splitter r >>= settle cb splitter := by
    rw [txvcJtagSplitterProcess]
    congr 1
  rw [hsettle]
  rcases processVector_eq_or cb r splitter s with h | ⟨hfit, s', h⟩
  · left
    cases hres : deliver cb r splitter s with
    | error e => rw [Exec.bind_error hres, Exec.bind_error (h.trans hres)]
    | ok p => rw [Exec.bind_ok hres, Exec.bind_ok (h.trans hres)]
  · exact Or.inr ⟨hfit, s', Exec.bind_error h⟩

theorem process_eq (splitter : JtagSplitter) (hfit : r.FitsInt) :
    txvcJtagSplitterProcess cb splitter r = deliver cb r splitter >>= settle cb splitter := by
  funext s
  exact (process_eq_or cb r splitter s).resolve_right fun h => h.1 hfit

/-- What holds of the callback holds of the splitter. -/
theorem process_compositional {P : (α : Type) → Exec Abort σ α → Prop}
    (hP : Exec.Compositional P) (hcb : ∀ e, P Bool (cb e))
    (hcheck : P Unit (Exec.abort .signedOverflow)) (splitter : JtagSplitter) :
    P _ (txvcJtagSplitterProcess cb splitter r) := by
  have hreset : P _ (tapReset cb) := hP.andM (hcb _) (hcb _)
  have hbit : ∀ bitIdx b l, P _ (processBit cb r bitIdx b l) := by
    intro bitIdx b l
    rw [processBit_eq]
    refine hP.ite (hP.bind (hcb _) fun ok => ?_) (hP.pure _)
    exact hP.ite (hP.pure _) (hP.pure _)
  have hround : ∀ n last bitIdx byte l, last - bitIdx = n →
      P _ (processRound cb r last bitIdx byte l) := by
    intro n
    induction n with
    | zero =>
        intro last bitIdx byte l hn
        rw [processRound, if_neg (by omega)]
        exact hP.pure _
    | succ n ih =>
        intro last bitIdx byte l hn
        rw [processRound, if_pos (by omega)]
        refine hP.bind (hbit _ _ _) fun o => ?_
        cases o with
        | none => exact hP.pure _
        | some l' => exact ih last (bitIdx + 1) _ l' (by omega)
  have hrounds : ∀ n bitIdx l, r.numBits - bitIdx = n → P _ (processRounds cb r bitIdx l) := by
    intro n
    induction n using Nat.strong_induction_on with
    | _ n ih =>
        intro bitIdx l hn
        rw [processRounds]
        by_cases hlt : bitIdx < r.numBits
        · rw [if_pos hlt]
          refine hP.bind (hP.ite (hP.pure _) hcheck) fun _ =>
            hP.bind (hround _ _ _ _ _ rfl) fun o => ?_
          cases o with
          | none => exact hP.pure _
          | some l' =>
              refine ih _ ?_ _ l' rfl
              split <;> omega
        · rw [if_neg hlt]
          exact hP.pure _
  have hvector : P _ (processVector cb splitter r) := by
    refine hP.bind (hrounds _ _ _ rfl) fun o => ?_
    cases o with
    | none => exact hP.pure _
    | some l => exact hP.bind (hcb _) fun ok => hP.ite (hP.pure _) (hP.pure _)
  refine hP.bind hvector fun o => ?_
  cases o with
  | none => exact hP.bind hreset fun _ => hP.pure _
  | some st => exact hP.pure _

/-- What the callback preserves, the splitter preserves. -/
theorem process_preserves {J : σ → Prop} {K : Abort → σ → Prop}
    (hcb : ∀ e, Exec.Preserves J K (cb e)) (hK : ∀ e s, J s → K e s) (splitter : JtagSplitter) :
    Exec.Preserves J K (txvcJtagSplitterProcess cb splitter r) :=
  process_compositional cb r Exec.Preserves.compositional hcb (Exec.Preserves.abort (hK _)) splitter

end Loops

end TinyXvc
