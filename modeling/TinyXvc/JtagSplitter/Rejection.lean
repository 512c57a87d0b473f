import TinyXvc.JtagSplitter.LoopBounds

/-!
# Rejected events

What a callback sees, whatever it accepts: the events of the vector up to the
first one that it rejects, and after a rejection only the TAP reset.
-/

namespace TinyXvc

variable {σ : Type}

/-- A callback that answers as `react` does, and notes what it was asked. -/
def recorder (react : JtagSplitEvent → σ → Bool × σ) :
    JtagSplitterCallback (σ × List (JtagSplitEvent × Bool)) := fun e s =>
  .ok ((react e s.1).1, ((react e s.1).2, s.2 ++ [(e, (react e s.1).1)]))

/-- The reset vector, and a flush if the vector was accepted. -/
def resetTrace (shifted flushed : Bool) : List (JtagSplitEvent × Bool) :=
  (.shiftTms tmsTapResetVector 0 5, shifted) :: if shifted then [(.flushAll, flushed)] else []

/-- The reset vector is all ones. -/
theorem bits_tmsTapResetVector : tmsTapResetVector.bits 0 5 = List.replicate 5 true := by decide

variable (react : JtagSplitEvent → σ → Bool × σ)

theorem wp_recorder (e : JtagSplitEvent) (Q : Bool → σ × List (JtagSplitEvent × Bool) → Prop)
    (E : Abort → σ × List (JtagSplitEvent × Bool) → Prop) (s : σ × List (JtagSplitEvent × Bool)) :
    Exec.wp (recorder react e) Q E s ↔
      Q (react e s.1).1 ((react e s.1).2, s.2 ++ [(e, (react e s.1).1)]) := Iff.rfl

theorem tapReset_trace (s : σ × List (JtagSplitEvent × Bool)) :
    Exec.wp (tapReset (recorder react))
      (fun _ t => ∃ shifted flushed, t.2 = s.2 ++ resetTrace shifted flushed)
      (fun _ _ => False) s := by
  unfold tapReset andM
  rw [Exec.wp_bind, wp_recorder]
  cases hshift : (react (.shiftTms tmsTapResetVector 0 5) s.1).1 with
  | false => exact ⟨false, false, rfl⟩
  | true =>
      change Exec.wp (recorder react .flushAll) _ _ _
      rw [wp_recorder]
      dsimp only
      rw [List.append_assoc]
      exact ⟨true, _, rfl⟩

/-- The events are accepted, or the first rejected one is the last. -/
theorem allM_trace (es : List JtagSplitEvent) (s : σ) :
    Exec.wp (es.allM (recorder react))
      (fun ok t => if ok then t.2 = es.map (·, true) else
        ∃ (i : ℕ) (hi : i < es.length), t.2 = (es.take i).map (·, true) ++ [(es[i], false)])
      (fun _ _ => False) (s, []) := by
  refine Exec.wp_allM
    (I := fun pre (t : σ × List (JtagSplitEvent × Bool)) => t.2 = pre.map (·, true)) rfl ?_
  intro pre e post hsplit t ht
  rw [wp_recorder, ht]
  cases hok : (react e t.1).1 with
  | true => simp
  | false =>
      rw [if_neg Bool.false_ne_true]
      subst hsplit
      refine ⟨pre.length, by simp, ?_⟩
      simp

/-- What a call that returns `ok` leaves, if `events` are the events of a run
without a failure and `state` is the state after it. -/
structure FailureProtocol (events : List JtagSplitEvent) (state : JtagState) (ok : Bool)
    (splitter : JtagSplitter) (trace : List (JtagSplitEvent × Bool)) : Prop where
  returns_iff : ok = true ↔ ∀ x ∈ trace, x.2 = true
  accepted : ok = true → trace = events.map (·, true) ∧ splitter.state = state
  rejected : ok = false → splitter.state = .testLogicReset ∧
    tmsTapResetVector.bits 0 5 = List.replicate 5 true ∧
    ∃ (i : ℕ) (hi : i < events.length) (shifted flushed : Bool),
      trace = (events.take i).map (·, true) ++ (events[i], false) :: resetTrace shifted flushed

theorem FailureProtocol.of_accepted {events : List JtagSplitEvent} {state : JtagState}
    {trace : List (JtagSplitEvent × Bool)} (h : trace = events.map (·, true)) :
    FailureProtocol events state true ⟨state⟩ trace := by
  constructor
  · simp [h]
  · exact fun _ => ⟨h, rfl⟩
  · exact fun hfalse => nomatch hfalse

theorem FailureProtocol.of_rejected {events : List JtagSplitEvent} {state : JtagState}
    {trace : List (JtagSplitEvent × Bool)} {i : ℕ} (hi : i < events.length) {shifted flushed : Bool}
    (h : trace = (events.take i).map (·, true) ++ (events[i], false) ::
      resetTrace shifted flushed) :
    FailureProtocol events state false ⟨.testLogicReset⟩ trace := by
  constructor
  · refine ⟨fun htrue => (nomatch htrue), fun hall => ?_⟩
    have hmem : (events[i], false) ∈ trace := by
      rw [h]
      exact List.mem_append_right _ List.mem_cons_self
    exact nomatch hall _ hmem
  · exact fun htrue => nomatch htrue
  · exact fun _ => ⟨rfl, bits_tmsTapResetVector, i, hi, shifted, flushed, h⟩

theorem deliver_trace (r : SplitRequest) (splitter : JtagSplitter) (s : σ) :
    Exec.wp (deliver (recorder react) r splitter >>= settle (recorder react) splitter)
      (fun result t => FailureProtocol (r.events splitter.state) (splitter.state.run r.tmsBits)
        result.1 result.2 t.2)
      (fun _ _ => False) (s, []) := by
  unfold deliver
  rw [Exec.wp_bind, Exec.wp_bind]
  refine Exec.wp_mono (allM_trace react (r.events splitter.state) s) ?_ (fun _ _ he => he)
  rintro (_ | _) t ht
  · -- the event was rejected, and the reset follows
    rw [if_neg Bool.false_ne_true] at ht
    obtain ⟨i, hi, ht⟩ := ht
    change Exec.wp (settle (recorder react) splitter none) _ _ t
    unfold settle
    rw [Exec.wp_bind]
    refine Exec.wp_mono (tapReset_trace react t) ?_ (fun _ _ he => he)
    rintro _ u ⟨shifted, flushed, hu⟩
    have htrace : u.2 = ((r.events splitter.state).take i).map (·, true) ++
        ((r.events splitter.state)[i], false) :: resetTrace shifted flushed := by
      rw [hu, ht, List.append_assoc]
      rfl
    exact FailureProtocol.of_rejected hi htrace
  · exact FailureProtocol.of_accepted ht

theorem process_trace {r : SplitRequest} (hfit : r.FitsInt) (splitter : JtagSplitter) (s : σ) :
    ∃ result t, txvcJtagSplitterProcess (recorder react) splitter r (s, []) = .ok (result, t) ∧
      FailureProtocol (r.events splitter.state) (splitter.state.run r.tmsBits)
        result.1 result.2 t.2 := by
  rw [process_eq (recorder react) r splitter hfit]
  exact Exec.exists_ok (deliver_trace react r splitter s)

theorem recorder_accepting (e : JtagSplitEvent) (s : Unit × List (JtagSplitEvent × Bool)) :
    recorder (fun _ u => (true, u)) e s = .ok (true, (s.1, s.2 ++ [(e, true)])) := rfl

/-- A run without a failure. -/
theorem process_accepting {r : SplitRequest} (hfit : r.FitsInt) (splitter : JtagSplitter) :
    txvcJtagSplitterProcess (recorder fun _ u => (true, u)) splitter r ((), []) =
      .ok ((true, ⟨splitter.state.run r.tmsBits⟩),
        ((), (r.events splitter.state).map (·, true))) := by
  let accepting : JtagSplitEvent → Unit → Bool × Unit := fun _ s => (true, s)
  have hcb : ∀ e, Exec.Preserves (fun t => ∀ x ∈ t.2, x.2 = true) (fun _ _ => True)
      (recorder accepting e) := by
    intro e t ht
    rw [wp_recorder]
    intro x hx
    rcases List.mem_append.mp hx with hx | hx
    · exact ht x hx
    · rw [List.mem_singleton.mp hx]
  have hall := process_preserves (recorder accepting) r hcb (fun _ _ _ => trivial) splitter
    ((), []) (fun _ hx => nomatch hx)
  obtain ⟨⟨ok, splitter'⟩, ⟨u, trace⟩, hrun, hprotocol⟩ := process_trace accepting hfit splitter ()
  have hok : ok = true := hprotocol.returns_iff.mpr (Exec.wp_ok hall hrun)
  obtain ⟨htrace, hstate⟩ := hprotocol.accepted hok
  dsimp only at htrace hstate
  rw [hrun, hok, htrace, ← hstate]

/-- Whatever the callback accepts or rejects, a call on the vector delivers the events of
the failure-free run up to the first rejected one, then the reset, and nothing else; it
returns true exactly if nothing was rejected. -/
def FollowsFailureProtocol (splitter : JtagSplitter) (r : SplitRequest) : Prop :=
  ∃ (events : List JtagSplitEvent) (state : JtagState),
    txvcJtagSplitterProcess (recorder fun _ u => (true, u)) splitter r ((), []) =
      .ok ((true, ⟨state⟩), ((), events.map (·, true))) ∧
    ∀ (σ : Type) (react : JtagSplitEvent → σ → Bool × σ) (s : σ), ∃ result t,
      txvcJtagSplitterProcess (recorder react) splitter r (s, []) = .ok (result, t) ∧
        FailureProtocol events state result.1 result.2 t.2

theorem FollowsFailureProtocol.fitsInt {splitter : JtagSplitter} {r : SplitRequest}
    (h : FollowsFailureProtocol splitter r) : r.FitsInt := by
  obtain ⟨events, state, hrun, -⟩ := h
  by_contra hfit
  obtain ⟨s', hoverflow⟩ := process_overflow recorder_accepting splitter hfit ((), [])
  rw [hrun] at hoverflow
  cases hoverflow

/-- The protocol is kept exactly on the vectors of at most 2³¹ - 8 bits. -/
theorem process_failure_protocol_iff (splitter : JtagSplitter) (r : SplitRequest) :
    FollowsFailureProtocol splitter r ↔ r.numBits ≤ 2 ^ 31 - 8 := by
  rw [← r.fitsInt_iff]
  refine ⟨FollowsFailureProtocol.fitsInt, fun hfit => ?_⟩
  exact ⟨_, _, process_accepting hfit splitter,
    fun σ react s => process_trace react hfit splitter s⟩

/-- The longest vector gets no answer from a callback that accepts every event. -/
theorem longest_vector_no_answer :
    (∃ s', txvcJtagSplitterProcess (recorder fun _ u => (true, u)) ⟨.testLogicReset⟩
        longestVector ((), []) = .error (.signedOverflow, s')) ∧
      ¬FollowsFailureProtocol ⟨.testLogicReset⟩ longestVector :=
  ⟨process_overflow recorder_accepting ⟨.testLogicReset⟩ longestVector_not_fitsInt ((), []),
    fun h => longestVector_not_fitsInt h.fitsInt⟩

end TinyXvc
