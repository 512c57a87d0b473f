import TinyXvc.JtagSplitter.Ranges

/-!
# What the events say about the vector

The ranges tile the vector, each of them is classified by the TAP state at its
bits, and the TMS vector can be read back from the events.
-/

namespace TinyXvc

theorem nextState_isShift_low {st : JtagState} {b : Bool} (h : (nextState st b).isShift = true) :
    b = false := by
  cases st <;> cases b <;> first | rfl | cases h

/-- Ranges that cover the bits from `a` to `b` in order, without gap or overlap. -/
def Tiles : ℕ → ℕ → List SplitRange → Prop
  | a, b, [] => a = b
  | a, b, x :: xs => x.fromBitIdx = a ∧ Tiles x.toBitIdx b xs

/-- The state in which bit `k` of the vector is clocked. -/
def SplitRequest.stateAt (r : SplitRequest) (st : JtagState) (k : ℕ) : JtagState :=
  st.run (r.tms.bits 0 k)

theorem SplitRequest.stateAt_succ (r : SplitRequest) (st : JtagState) (k : ℕ) :
    r.stateAt st (k + 1) = nextState (r.stateAt st k) (r.tms.bit k) := by
  unfold stateAt
  rw [Octets.bits_add, JtagState.run_append, Octets.bits_succ]
  simp

/-- The kind of a range agrees with the state and the TMS level at its bits. -/
def SplitRange.Decodes (r : SplitRequest) (st : JtagState) (x : SplitRange) : Prop :=
  ∀ k, x.fromBitIdx ≤ k → k < x.toBitIdx →
    match x.kind with
    | .tms => (r.stateAt st k).isShift = false
    | .tdi incomplete => (r.stateAt st k).isShift = true ∧
        r.tms.bit k = (decide (k + 1 = x.toBitIdx) && !incomplete)

/-- The TMS levels that an event stands for. -/
def JtagSplitEvent.clockedTms : JtagSplitEvent → List Bool
  | .shiftTms tms fromBitIdx toBitIdx => tms.bits fromBitIdx (toBitIdx - fromBitIdx)
  | .shiftTdi _ _ fromBitIdx toBitIdx incomplete =>
      List.replicate (toBitIdx - fromBitIdx - 1) false ++ [!incomplete]
  | .flushAll => []

theorem splitRanges_tiles (st : JtagState) (first len : ℕ) (bs : List Bool)
    (h : bs = [] → len = 0) :
    Tiles first (first + len + bs.length) (splitRanges st first len bs) := by
  induction bs generalizing st first len with
  | nil => simp [splitRanges, Tiles, h rfl]
  | cons b bs ih =>
      rw [splitRanges]
      cases hev : bs.isEmpty || st.isShift != (nextState st b).isShift with
      | true =>
          refine ⟨rfl, ?_⟩
          have hrest := ih (nextState st b) (first + len + 1) 0 (fun _ => rfl)
          rw [List.length_cons, show first + len + (bs.length + 1) =
            first + len + 1 + 0 + bs.length by omega]
          exact hrest
      | false =>
          have hne : bs ≠ [] := by
            rintro rfl
            simp at hev
          have hrest := ih (nextState st b) first (len + 1) (fun h => absurd h hne)
          rw [List.length_cons, show first + len + (bs.length + 1) =
            first + (len + 1) + bs.length by omega]
          exact hrest

/-- The pending bits share the shift status of the state they lead to; this
carries the classification from one bit to the next. -/
theorem splitRanges_decodes (r : SplitRequest) (st : JtagState) (first len n : ℕ)
    (hpend : ∀ k, first ≤ k → k < first + len →
      (r.stateAt st k).isShift = (r.stateAt st (first + len)).isShift ∧
        (r.stateAt st (k + 1)).isShift = (r.stateAt st (first + len)).isShift) :
    ∀ x ∈ splitRanges (r.stateAt st (first + len)) first len (r.tms.bits (first + len) n),
      x.Decodes r st := by
  induction n generalizing first len with
  | zero =>
      intro x hx
      cases hx
  | succ n ih =>
      rw [Octets.bits_succ, splitRanges, ← r.stateAt_succ st (first + len)]
      intro x hx
      cases hev : (r.tms.bits (first + len + 1) n).isEmpty ||
          (r.stateAt st (first + len)).isShift != (r.stateAt st (first + len + 1)).isShift with
      | true =>
          rw [hev, if_pos rfl, List.mem_cons] at hx
          rcases hx with rfl | hx
          · intro k hlo hhi
            dsimp only at hlo hhi ⊢
            have hk : (r.stateAt st k).isShift = (r.stateAt st (first + len)).isShift := by
              by_cases hlast : k = first + len
              · rw [hlast]
              · exact (hpend k hlo (by omega)).1
            cases hsh : (r.stateAt st (first + len)).isShift with
            | false => simpa [hsh] using hk
            | true =>
                refine ⟨by simpa [hsh] using hk, ?_⟩
                by_cases hlast : k = first + len
                · -- the last bit of the range: TMS is low exactly when the shift goes on
                  subst hlast
                  cases hnext : (r.stateAt st (first + len + 1)).isShift with
                  | true =>
                      rw [r.stateAt_succ] at hnext
                      simp [nextState_isShift_low hnext]
                  | false =>
                      have hne : (r.stateAt st (first + len)).isShift ≠
                          (nextState (r.stateAt st (first + len))
                            (r.tms.bit (first + len))).isShift := by
                        rw [← r.stateAt_succ, hsh, hnext]
                        decide
                      simp [nextState_isShift hne, hsh]
                · have hlow := (hpend k hlo (by omega)).2
                  rw [hsh, r.stateAt_succ] at hlow
                  simp [nextState_isShift_low hlow, hlast]
          · exact ih (first + len + 1) 0 (fun k h1 h2 => by omega) x hx
      | false =>
          rw [hev, if_neg Bool.false_ne_true] at hx
          have hsame : (r.stateAt st (first + len)).isShift =
              (r.stateAt st (first + len + 1)).isShift := by
            have h2 := (Bool.or_eq_false_iff.mp hev).2
            simpa using h2
          refine ih first (len + 1) ?_ x hx
          intro k hlo hhi
          by_cases hlast : k = first + len
          · subst hlast
            exact ⟨hsame, rfl⟩
          · obtain ⟨h1, h2⟩ := hpend k hlo (by omega)
            exact ⟨h1.trans hsame, h2.trans hsame⟩

/-- A range that decodes its bits stands for exactly these TMS levels. -/
theorem SplitRange.Decodes.clockedTms {r : SplitRequest} {st : JtagState} {x : SplitRange}
    (h : x.Decodes r st) :
    (x.event r).clockedTms = r.tms.bits x.fromBitIdx (x.toBitIdx - x.fromBitIdx) := by
  obtain ⟨kind, lo, hi, hne⟩ := x
  cases kind with
  | tms => rfl
  | tdi incomplete =>
      simp only [SplitRange.event, JtagSplitEvent.clockedTms]
      have hlen : hi - lo = (hi - lo - 1) + 1 := by omega
      rw [hlen, Octets.bits_add, Nat.add_sub_cancel]
      congr 1
      · refine (List.eq_replicate_iff.mpr ⟨by simp, fun b hb => ?_⟩).symm
        obtain ⟨i, hi', rfl⟩ := List.mem_iff_getElem.mp hb
        rw [Octets.getElem_bits]
        rw [Octets.length_bits] at hi'
        have hbit := (h (lo + i) (by dsimp only; omega) (by dsimp only; omega)).2
        have hnot : ¬ lo + i + 1 = hi := by omega
        simpa [hnot] using hbit
      · have hbit := (h (hi - 1) (by dsimp only; omega) (by dsimp only; omega)).2
        have hlast : hi - 1 + 1 = hi := by omega
        rw [Octets.bits_succ, show lo + (hi - lo - 1) = hi - 1 by omega, hbit]
        simp [hlast]

theorem flatMap_clockedTms {r : SplitRequest} {st : JtagState} {xs : List SplitRange} {a b : ℕ}
    (htile : Tiles a b xs) (hdec : ∀ x ∈ xs, x.Decodes r st) :
    (xs.map (SplitRange.event r)).flatMap JtagSplitEvent.clockedTms = r.tms.bits a (b - a) ∧
      a ≤ b := by
  induction xs generalizing a with
  | nil =>
      have hab : a = b := htile
      subst hab
      simp
  | cons x xs ih =>
      obtain ⟨rfl, htail⟩ := htile
      obtain ⟨hrest, hle⟩ := ih htail (fun y hy => hdec y (List.mem_cons_of_mem x hy))
      have hx := (hdec x List.mem_cons_self).clockedTms
      have hne := x.nonempty
      refine ⟨?_, by omega⟩
      rw [List.map_cons, List.flatMap_cons, hrest, hx,
        show b - x.fromBitIdx = (x.toBitIdx - x.fromBitIdx) + (b - x.toBitIdx) by omega,
        Octets.bits_add, show x.fromBitIdx + (x.toBitIdx - x.fromBitIdx) = x.toBitIdx by omega]

namespace SplitRequest

theorem ranges_tile (r : SplitRequest) (st : JtagState) : Tiles 0 r.numBits (r.ranges st) := by
  have h := splitRanges_tiles st 0 0 r.tmsBits (fun _ => rfl)
  rwa [r.length_tmsBits, Nat.zero_add] at h

theorem ranges_decode (r : SplitRequest) (st : JtagState) :
    ∀ x ∈ r.ranges st, x.Decodes r st :=
  splitRanges_decodes r st 0 0 r.numBits (fun k h1 h2 => by omega)

theorem clockedTms_events (r : SplitRequest) (st : JtagState) :
    (r.events st).flatMap JtagSplitEvent.clockedTms = r.tmsBits := by
  rw [events, List.flatMap_append, (flatMap_clockedTms (r.ranges_tile st) (r.ranges_decode st)).1]
  simp [JtagSplitEvent.clockedTms, tmsBits]

end SplitRequest

/-- The splitter decodes a vector without loss: with a callback that accepts
everything, it delivers ranges that tile the vector and agree with the TAP
walk, then one flush, and stores the state after the last bit. -/
theorem process_decodes_vector (splitter : JtagSplitter) (r : SplitRequest) (hfit : r.FitsInt) :
    ∃ xs : List SplitRange,
      Tiles 0 r.numBits xs ∧
      (∀ x ∈ xs, x.Decodes r splitter.state) ∧
      (xs.map (SplitRange.event r)).flatMap JtagSplitEvent.clockedTms = r.tmsBits ∧
      ∀ {σ : Type} (cb : JtagSplitterCallback σ) (accept : σ → JtagSplitEvent → σ),
        (∀ e s, cb e s = .ok (true, accept s e)) →
        ∀ s, txvcJtagSplitterProcess cb splitter r s =
          .ok ((true, ⟨splitter.state.run r.tmsBits⟩),
            (xs.map (SplitRange.event r) ++ [JtagSplitEvent.flushAll]).foldl accept s) := by
  refine ⟨r.ranges splitter.state, r.ranges_tile _, r.ranges_decode _, ?_, ?_⟩
  · exact (flatMap_clockedTms (r.ranges_tile splitter.state)
      (r.ranges_decode splitter.state)).1
  · intro σ cb accept hcb s
    have hall := Exec.allM_eq_foldl hcb (r.events splitter.state) s
    have hdeliver : deliver cb r splitter s =
        .ok (some (splitter.state.run r.tmsBits), (r.events splitter.state).foldl accept s) := by
      rw [deliver, Exec.bind_ok hall]
      rfl
    rw [process_eq cb r splitter hfit, Exec.bind_ok hdeliver]
    rfl

/-- Five TMS ones from Shift-DR, with a callback that records the events. -/
theorem process_decodes_vector_reset :
    ∃ xs : List SplitRange,
      Tiles 0 5 xs ∧
      txvcJtagSplitterProcess (fun e s => .ok (true, s ++ [e])) ⟨.shiftDr⟩
          ⟨5, tmsTapResetVector, fun _ => 0, ⟨.vector 0, 0⟩⟩ [] =
        .ok ((true, ⟨.testLogicReset⟩),
          (xs.map (SplitRange.event ⟨5, tmsTapResetVector, fun _ => 0, ⟨.vector 0, 0⟩⟩) ++
            [JtagSplitEvent.flushAll]).foldl (fun s e => s ++ [e]) []) := by
  obtain ⟨xs, htile, -, -, hrun⟩ := process_decodes_vector ⟨.shiftDr⟩
    ⟨5, tmsTapResetVector, fun _ => 0, ⟨.vector 0, 0⟩⟩ (by decide)
  exact ⟨xs, htile, hrun _ (fun s e => s ++ [e]) (fun _ _ => rfl) []⟩

end TinyXvc
