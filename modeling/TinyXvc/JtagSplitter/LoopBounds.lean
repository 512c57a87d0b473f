import TinyXvc.JtagSplitter.Ranges

/-!
# The loops at the end of the `int` range

The nested loops of `txvc_jtag_splitter_process`, for any body: on a vector
whose last round end is an `int` the body runs once for each bit, and on a
longer one the last round end overflows.
-/

namespace TinyXvc

variable {σ : Type}

/-- The body of the inner loop. -/
abbrev LoopBody (σ : Type) := ℕ → Bool → SplitLoop → Exec Abort σ (Option SplitLoop)

/-- The inner loop. -/
def loopRound (body : LoopBody σ) (thisRoundEndBitIdx bitIdx : ℕ) (tmsByte : UInt8)
    (l : SplitLoop) : Exec Abort σ (Option SplitLoop) :=
  if bitIdx < thisRoundEndBitIdx then do
    match ← body bitIdx (tmsByte &&& 1 != 0) l with
    | none => pure none
    | some l => loopRound body thisRoundEndBitIdx (bitIdx + 1) (tmsByte >>> 1) l
  else pure (some l)
termination_by thisRoundEndBitIdx - bitIdx

/-- The outer loop. -/
def loopRounds (body : LoopBody σ) (r : SplitRequest) (bitIdx : ℕ) (l : SplitLoop) :
    Exec Abort σ (Option SplitLoop) :=
  if bitIdx < r.numBits then do
    let tmsByte := r.tms (bitIdx / 8)
    checkInt (bitIdx + 8)
    let thisRoundEndBitIdx := if bitIdx + 8 > r.numBits then r.numBits else bitIdx + 8
    match ← loopRound body thisRoundEndBitIdx bitIdx tmsByte l with
    | none => pure none
    | some l => loopRounds body r thisRoundEndBitIdx l
  else pure (some l)
termination_by r.numBits - bitIdx
decreasing_by split <;> omega

section Loops

variable (cb : JtagSplitterCallback σ) (r : SplitRequest)

theorem processRound_eq_loopRound (last bitIdx : ℕ) (tmsByte : UInt8) (l : SplitLoop) :
    processRound cb r last bitIdx tmsByte l =
      loopRound (processBit cb r) last bitIdx tmsByte l := by
  induction bitIdx, tmsByte, l using processRound.induct last with
  | case1 bitIdx tmsByte l hlt ih =>
      rw [processRound, loopRound, if_pos hlt, if_pos hlt]
      congr 1
      funext o
      cases o with
      | none => rfl
      | some l' => exact ih l'
  | case2 bitIdx tmsByte l hlt => rw [processRound, loopRound, if_neg hlt, if_neg hlt]

/-- The loops of the program are these loops with its own body. -/
theorem processRounds_eq_loopRounds (bitIdx : ℕ) (l : SplitLoop) :
    processRounds cb r bitIdx l = loopRounds (processBit cb r) r bitIdx l := by
  induction bitIdx, l using processRounds.induct r with
  | case1 bitIdx l hlt ih =>
      rw [processRounds, loopRounds, if_pos hlt, if_pos hlt]
      dsimp only
      rw [processRound_eq_loopRound]
      congr 1
      funext _
      congr 1
      funext o
      cases o with
      | none => rfl
      | some l' => exact ih l'
  | case2 bitIdx l hlt => rw [processRounds, loopRounds, if_neg hlt, if_neg hlt]

end Loops

/-! ## Runs of the loops -/

section Runs

variable {body : LoopBody σ} {J : ℕ → SplitLoop → σ → Prop} {r : SplitRequest}

/-- One run of the body, at a bit below `last`, never bails out, and takes `J`
to the next bit. -/
def Advances (body : LoopBody σ) (J : ℕ → SplitLoop → σ → Prop) (last : ℕ) : Prop :=
  ∀ bitIdx < last, ∀ tmsBit l s, J bitIdx l s →
    ∃ l' s', body bitIdx tmsBit l s = .ok (some l', s') ∧ J (bitIdx + 1) l' s'

theorem loopRound_ok {last : ℕ} (hbody : Advances body J last) {bitIdx : ℕ} (hle : bitIdx ≤ last)
    (tmsByte : UInt8) {l : SplitLoop} {s : σ} (h : J bitIdx l s) :
    ∃ l' s', loopRound body last bitIdx tmsByte l s = .ok (some l', s') ∧ J last l' s' := by
  induction hn : last - bitIdx generalizing bitIdx tmsByte l s with
  | zero =>
      obtain rfl : bitIdx = last := by omega
      rw [loopRound, if_neg (lt_irrefl bitIdx)]
      exact ⟨l, s, rfl, h⟩
  | succ n ih =>
      have hlt : bitIdx < last := by omega
      obtain ⟨l', s', hrun, h'⟩ := hbody bitIdx hlt (tmsByte &&& 1 != 0) l s h
      rw [loopRound, if_pos hlt, Exec.bind_ok hrun]
      exact ih (by omega) _ h' (by omega)

/-- The end of a round, for a round start that is not past the vector. -/
theorem roundEnd_bounds {numBits bitIdx last : ℕ} (hlt : bitIdx < numBits)
    (hlast : last = if bitIdx + 8 > numBits then numBits else bitIdx + 8) :
    bitIdx < last ∧ last ≤ numBits ∧ (bitIdx % 8 = 0 → last % 8 = 0 ∨ last = numBits) := by
  subst hlast
  split <;> omega

theorem Advances.mono {m n : ℕ} (h : Advances body J n) (hle : m ≤ n) : Advances body J m :=
  fun bitIdx hlt => h bitIdx (hlt.trans_le hle)

theorem loopRounds_ok (hfit : r.FitsInt) (hbody : Advances body J r.numBits) {bitIdx : ℕ}
    (h8 : bitIdx % 8 = 0 ∨ bitIdx = r.numBits) (hle : bitIdx ≤ r.numBits) {l : SplitLoop} {s : σ}
    (h : J bitIdx l s) :
    ∃ l' s', loopRounds body r bitIdx l s = .ok (some l', s') ∧ J r.numBits l' s' := by
  induction hn : r.numBits - bitIdx using Nat.strong_induction_on generalizing bitIdx l s with
  | _ n ih =>
      subst hn
      by_cases hlt : bitIdx < r.numBits
      · have h80 : bitIdx % 8 = 0 := h8.resolve_right (by omega)
        have hint : bitIdx + 8 ≤ intMax := by
          unfold SplitRequest.FitsInt at hfit
          rw [intMax] at hfit ⊢
          omega
        rw [loopRounds, if_pos hlt, checkInt_of_le hint]
        dsimp only
        rw [pure_bind]
        generalize hlast : (if bitIdx + 8 > r.numBits then r.numBits else bitIdx + 8) = last
        obtain ⟨hlo, hhi, hstop⟩ := roundEnd_bounds hlt hlast.symm
        obtain ⟨l', s', hrun, h'⟩ :=
          loopRound_ok (hbody.mono hhi) hlo.le (r.tms (bitIdx / 8)) h
        rw [Exec.bind_ok hrun]
        exact ih (r.numBits - last) (by omega) (hstop h80) hhi h' rfl
      · obtain rfl : bitIdx = r.numBits := by omega
        rw [loopRounds, if_neg hlt]
        exact ⟨l, s, rfl, h⟩

theorem SplitRequest.fitsInt_iff (r : SplitRequest) : r.FitsInt ↔ r.numBits ≤ 2 ^ 31 - 8 := by
  rw [FitsInt, intMax]
  omega

/-- The round that reaches the end of a vector that is too long overflows. -/
theorem loopRounds_overflow (hfit : ¬r.FitsInt) (hbody : Advances body J r.numBits) {bitIdx : ℕ}
    (h80 : bitIdx % 8 = 0) (hlt : bitIdx < r.numBits) {l : SplitLoop} {s : σ} (h : J bitIdx l s) :
    ∃ s', loopRounds body r bitIdx l s = .error (.signedOverflow, s') := by
  induction hn : r.numBits - bitIdx using Nat.strong_induction_on generalizing bitIdx l s with
  | _ n ih =>
      subst hn
      unfold SplitRequest.FitsInt at hfit
      rw [loopRounds, if_pos hlt]
      by_cases hint : bitIdx + 8 ≤ intMax
      · have hnext : bitIdx + 8 < r.numBits := by
          rw [intMax] at hint hfit
          omega
        rw [checkInt_of_le hint]
        dsimp only
        rw [pure_bind, if_neg (by omega)]
        obtain ⟨l', s', hrun, h'⟩ :=
          loopRound_ok (hbody.mono hnext.le) (Nat.le_add_right bitIdx 8) (r.tms (bitIdx / 8)) h
        rw [Exec.bind_ok hrun]
        exact ih (r.numBits - (bitIdx + 8)) (by omega) (by omega) hnext h' rfl
      · have hcheck :
            (checkInt (bitIdx + 8) : Exec Abort σ Unit) s = .error (.signedOverflow, s) := by
          rw [checkInt, if_neg hint]
          rfl
        exact ⟨s, Exec.bind_error hcheck⟩

/-- The rounds end normally for the vectors only that fit an `int`. -/
theorem processRounds_fitsInt (cb : JtagSplitterCallback σ) (r : SplitRequest) {bitIdx : ℕ}
    (h80 : bitIdx % 8 = 0) (hlt : bitIdx < r.numBits) (l : SplitLoop) (s : σ) :
    Exec.wp (processRounds cb r bitIdx l) (fun o _ => o.isSome = true → r.FitsInt)
      (fun _ _ => True) s := by
  induction hn : r.numBits - bitIdx using Nat.strong_induction_on generalizing bitIdx l s with
  | _ n ih =>
      subst hn
      rw [processRounds, if_pos hlt]
      dsimp only
      rw [Exec.wp_bind]
      by_cases hint : bitIdx + 8 ≤ intMax
      · rw [checkInt_of_le hint, Exec.wp_pure, Exec.wp_bind]
        refine Exec.wp_always (fun o t => ?_) fun _ _ => trivial
        cases o with
        | none =>
            intro hsome
            cases hsome
        | some l' =>
            by_cases hnext : bitIdx + 8 < r.numBits
            · rw [if_neg (by omega)]
              exact ih _ (by omega) (by omega) hnext l' t rfl
            · refine Exec.wp_always (fun o _ _ => ?_) fun _ _ => trivial
              unfold SplitRequest.FitsInt
              rw [intMax] at hint ⊢
              omega
      · rw [checkInt, if_neg hint]
        trivial

/-- A call that returns true had a vector that fits an `int`. -/
theorem process_fitsInt (cb : JtagSplitterCallback σ) (splitter : JtagSplitter) (r : SplitRequest)
    (s : σ) :
    Exec.wp (txvcJtagSplitterProcess cb splitter r) (fun p _ => p.1 = true → r.FitsInt)
      (fun _ _ => True) s := by
  by_cases hpos : 0 < r.numBits
  · have hrounds := processRounds_fitsInt cb r (Nat.zero_mod 8) hpos ⟨splitter.state, 0⟩ s
    have hvector : Exec.wp (processVector cb splitter r) (fun o _ => o.isSome = true → r.FitsInt)
        (fun _ _ => True) s := by
      rw [processVector, Exec.wp_bind]
      refine Exec.wp_mono hrounds (fun o t ho => ?_) fun _ _ _ => trivial
      cases o with
      | none =>
          intro hsome
          cases hsome
      | some l => exact Exec.wp_always (fun _ _ _ => ho rfl) fun _ _ => trivial
    rw [txvcJtagSplitterProcess, Exec.wp_bind]
    refine Exec.wp_mono hvector (fun o t ho => ?_) fun _ _ _ => trivial
    cases o with
    | some jtagState => exact fun _ => ho rfl
    | none =>
        rw [Exec.wp_bind]
        refine Exec.wp_always (fun _ _ htrue => ?_) fun _ _ => trivial
        cases htrue
  · have hzero : r.numBits = 0 := Nat.eq_zero_of_not_pos hpos
    refine Exec.wp_always (fun _ _ _ => ?_) fun _ _ => trivial
    rw [SplitRequest.FitsInt, hzero]
    decide

end Runs

/-! ## The loops of the splitter -/

/-- The body with its runs counted, and with checks of its own `int`s. -/
def counted (body : LoopBody σ) : LoopBody (ℕ × σ) := fun bitIdx tmsBit l s =>
  let checked : Exec Abort σ (Option SplitLoop) := do
    checkInt l.firstPendingBitIdx
    checkInt (bitIdx + 1)
    body bitIdx tmsBit l
  match checked s.2 with
  | .ok (o, t) => .ok (o, (s.1 + 1, t))
  | .error (e, t) => .error (e, (s.1 + 1, t))

/-- A call computes no `int` out of range, and its body runs once for each bit. -/
def LoopsSafe (cb : JtagSplitterCallback σ) (splitter : JtagSplitter) (r : SplitRequest) (s : σ) :
    Prop :=
  (∀ s', txvcJtagSplitterProcess cb splitter r s ≠ .error (.signedOverflow, s')) ∧
    ∃ l s', loopRounds (counted (processBit cb r)) r 0 ⟨splitter.state, 0⟩ (0, s) =
      .ok (some l, (r.numBits, s'))

section Accepting

variable {cb : JtagSplitterCallback σ} {accept : σ → JtagSplitEvent → σ}

theorem processBit_advances (hcb : ∀ e s, cb e s = .ok (true, accept s e)) (r : SplitRequest)
    (last : ℕ) :
    Advances (processBit cb r) (fun bitIdx l _ => l.firstPendingBitIdx ≤ bitIdx) last := by
  intro bitIdx _ tmsBit l s h
  rw [processBit_eq]
  split
  · rw [Exec.bind_ok (hcb _ s)]
    exact ⟨_, _, rfl, le_rfl⟩
  · exact ⟨_, s, rfl, Nat.le_succ_of_le h⟩

theorem counted_advances (hcb : ∀ e s, cb e s = .ok (true, accept s e)) {r : SplitRequest}
    (hfit : r.FitsInt) :
    Advances (counted (processBit cb r))
      (fun bitIdx l t => l.firstPendingBitIdx ≤ bitIdx ∧ t.1 = bitIdx) r.numBits := by
  rintro bitIdx hlt tmsBit l ⟨n, s⟩ ⟨h, rfl⟩
  obtain ⟨l', s', hrun, h'⟩ := processBit_advances hcb r r.numBits n hlt tmsBit l s h
  unfold SplitRequest.FitsInt at hfit
  refine ⟨l', (n + 1, s'), ?_, h', rfl⟩
  unfold counted
  dsimp only
  rw [checkInt_of_le (by omega), checkInt_of_le (by omega), pure_bind, pure_bind, hrun]

theorem process_overflow (hcb : ∀ e s, cb e s = .ok (true, accept s e)) (splitter : JtagSplitter)
    {r : SplitRequest} (hfit : ¬r.FitsInt) (s : σ) :
    ∃ s', txvcJtagSplitterProcess cb splitter r s = .error (.signedOverflow, s') := by
  have hpos : 0 < r.numBits := by
    unfold SplitRequest.FitsInt at hfit
    rw [intMax] at hfit
    omega
  obtain ⟨s', hrun⟩ := loopRounds_overflow hfit (processBit_advances hcb r r.numBits)
    (Nat.zero_mod 8) hpos (l := ⟨splitter.state, 0⟩) (s := s) le_rfl
  rw [← processRounds_eq_loopRounds] at hrun
  refine ⟨s', ?_⟩
  unfold txvcJtagSplitterProcess processVector
  exact Exec.bind_error (Exec.bind_error hrun)

/-- With a callback that accepts everything, the loops are safe exactly for the
vectors of at most 2³¹ - 8 bits. -/
theorem loops_safe_iff (hcb : ∀ e s, cb e s = .ok (true, accept s e)) (splitter : JtagSplitter)
    (r : SplitRequest) (s : σ) : LoopsSafe cb splitter r s ↔ r.numBits ≤ 2 ^ 31 - 8 := by
  rw [← r.fitsInt_iff]
  constructor
  · rintro ⟨hsafe, -⟩
    by_contra hfit
    obtain ⟨s', hrun⟩ := process_overflow hcb splitter hfit s
    exact hsafe s' hrun
  · intro hfit
    constructor
    · intro s' hrun
      have hall := Exec.allM_eq_foldl hcb (r.events splitter.state) s
      rw [process_eq cb r splitter hfit, deliver, bind_assoc, Exec.bind_ok hall] at hrun
      cases hrun
    · obtain ⟨l, ⟨n, t⟩, hrun, -, hn⟩ := loopRounds_ok hfit (counted_advances hcb hfit)
        (.inl (Nat.zero_mod 8)) (Nat.zero_le _) (l := ⟨splitter.state, 0⟩) (s := (0, s))
        ⟨le_rfl, rfl⟩
      dsimp only at hn
      subst hn
      exact ⟨l, t, hrun⟩

end Accepting

/-- A callback that only accepts. -/
theorem accepting_unit : ∀ (e : JtagSplitEvent) (s : Unit),
    (fun _ (s : Unit) => .ok (true, s) : JtagSplitterCallback Unit) e s =
      .ok (true, (fun s _ => s : Unit → JtagSplitEvent → Unit) s e) := fun _ _ => rfl

/-- Nine bits in Shift-DR. -/
theorem loops_safe_iff_nine :
    LoopsSafe (fun _ (s : Unit) => .ok (true, s)) ⟨.shiftDr⟩
        ⟨9, fun _ => 0, fun _ => 0, ⟨.vector 0, 0⟩⟩ () ↔ 9 ≤ 2 ^ 31 - 8 :=
  loops_safe_iff accepting_unit ⟨.shiftDr⟩ ⟨9, fun _ => 0, fun _ => 0, ⟨.vector 0, 0⟩⟩ ()

/-- The longest vector whose length is an `int`. -/
def longestVector : SplitRequest := ⟨intMax, fun _ => 0xff, fun _ => 0, ⟨.vector 0, 0⟩⟩

theorem longestVector_not_fitsInt : ¬longestVector.FitsInt :=
  Nat.not_le_of_lt (Nat.lt_add_of_pos_right (by decide))

/-- Its last round end overflows. -/
theorem longest_vector_overflows :
    (∃ s', txvcJtagSplitterProcess (fun _ (s : Unit) => .ok (true, s)) ⟨.testLogicReset⟩
        longestVector () = .error (.signedOverflow, s')) ∧
      ¬LoopsSafe (fun _ (s : Unit) => .ok (true, s)) ⟨.testLogicReset⟩ longestVector () := by
  obtain ⟨s', hrun⟩ :=
    process_overflow accepting_unit ⟨.testLogicReset⟩ longestVector_not_fitsInt ()
  exact ⟨⟨s', hrun⟩, fun hsafe => hsafe.1 s' hrun⟩

end TinyXvc
