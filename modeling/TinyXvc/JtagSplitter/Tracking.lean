import TinyXvc.JtagSplitter.Decoding
import TinyXvc.Lib.Tap

/-!
# Tracking the TAP

The callback is the way to a real TAP.  An accepted event is clocked by the
next accepted flush; a rejected one leaves the TAP anywhere in the course of
the levels that were on their way.  The splitter's state and the TAP agree
after every call, as long as the reset that follows a failure is accepted.
-/

namespace TinyXvc

open Jtag

namespace JtagState

/-- The state of IEEE 1149.1 that a splitter state stands for. -/
def tap : JtagState → Tap
  | .testLogicReset => .testLogicReset
  | .runTestIdle => .runTestIdle
  | .selectDrScan => .scan .dr .select
  | .captureDr => .scan .dr .capture
  | .shiftDr => .scan .dr .shift
  | .exit1Dr => .scan .dr .exit1
  | .pauseDr => .scan .dr .pause
  | .exit2Dr => .scan .dr .exit2
  | .updateDr => .scan .dr .update
  | .selectIrScan => .scan .ir .select
  | .captureIr => .scan .ir .capture
  | .shiftIr => .scan .ir .shift
  | .exit1Ir => .scan .ir .exit1
  | .pauseIr => .scan .ir .pause
  | .exit2Ir => .scan .ir .exit2
  | .updateIr => .scan .ir .update

theorem tap_nextState (st : JtagState) (tms : Bool) :
    (nextState st tms).tap = st.tap.clock tms := by
  cases st <;> cases tms <;> rfl

/-- `next_state` is the state diagram of IEEE 1149.1. -/
theorem tap_run (st : JtagState) (bits : List Bool) : (st.run bits).tap = st.tap.run bits := by
  induction bits generalizing st with
  | nil => rfl
  | cons b bs ih => rw [run_cons, ih, tap_nextState, Tap.run_cons]

theorem isShift_iff (st : JtagState) : st.isShift = true ↔ st.tap.IsShift := by
  cases st <;> simp [isShift, tap, Tap.IsShift]

end JtagState

/-- How the way to the TAP takes an event.  On a rejection `clocked` of the
levels on their way have reached the TAP and `kept` more stay on their way. -/
inductive Reaction where
  | accept
  | reject (clocked kept : ℕ)
  deriving DecidableEq, Repr

structure Port where
  tap : Tap
  pending : List Bool
  turn : ℕ
  deriving DecidableEq, Repr

def Port.react (p : Port) (e : JtagSplitEvent) : Reaction → Bool × Port
  | .accept =>
      match e with
      | .flushAll => (true, ⟨p.tap.run p.pending, [], p.turn + 1⟩)
      | _ => (true, ⟨p.tap, p.pending ++ e.clockedTms, p.turn + 1⟩)
  | .reject clocked kept =>
      let levels := p.pending ++ e.clockedTms
      (false, ⟨p.tap.run (levels.take clocked), (levels.drop clocked).take kept, p.turn + 1⟩)

def scriptedCallback (script : ℕ → Reaction) : JtagSplitterCallback Port :=
  fun e p => .ok (p.react e (script p.turn))

/-- An accepted reset resets the TAP, whatever was on its way. -/
theorem tapReset_accepted {script : ℕ → Reaction} {p : Port} (h1 : script p.turn = .accept)
    (h2 : script (p.turn + 1) = .accept) :
    tapReset (scriptedCallback script) p = .ok (true, ⟨.testLogicReset, [], p.turn + 2⟩) := by
  have hfirst : scriptedCallback script (.shiftTms tmsTapResetVector 0 5) p =
      .ok (true, ⟨p.tap, p.pending ++ List.replicate 5 true, p.turn + 1⟩) := by
    simp only [scriptedCallback, h1]
    rfl
  have hsecond : scriptedCallback script .flushAll
      ⟨p.tap, p.pending ++ List.replicate 5 true, p.turn + 1⟩ =
      .ok (true, ⟨.testLogicReset, [], p.turn + 2⟩) := by
    simp only [scriptedCallback, h2, Port.react, Tap.run_append, Tap.run_five_high]
  unfold tapReset andM
  rw [Exec.bind_ok hfirst]
  exact hsecond

/-- A successful reset was accepted. -/
theorem tapReset_eq_true {script : ℕ → Reaction} {p q : Port}
    (h : tapReset (scriptedCallback script) p = .ok (true, q)) :
    script p.turn = .accept ∧ script (p.turn + 1) = .accept := by
  unfold tapReset andM at h
  obtain ⟨ok, p', hfirst, hrest⟩ := Exec.bind_eq_ok h
  cases h1 : script p.turn with
  | reject clocked kept =>
      simp only [scriptedCallback, h1, Port.react, Except.ok.injEq, Prod.mk.injEq] at hfirst
      obtain ⟨rfl, -⟩ := hfirst
      cases hrest
  | accept =>
      simp only [scriptedCallback, h1, Port.react, Except.ok.injEq, Prod.mk.injEq] at hfirst
      obtain ⟨rfl, rfl⟩ := hfirst
      refine ⟨rfl, ?_⟩
      cases h2 : script (p.turn + 1) with
      | accept => rfl
      | reject clocked kept =>
          simp only [toBool, scriptedCallback, h2, Port.react, Except.ok.injEq,
            Prod.mk.injEq] at hrest
          exact absurd hrest.1 (by decide)

/-- The delivery of a vector: all its levels are clocked, or some event was the
first one to be rejected. -/
theorem deliver_tracks (script : ℕ → Reaction) (r : SplitRequest) (splitter : JtagSplitter)
    (tap : Tap) :
    Exec.wp (deliver (scriptedCallback script) r splitter)
      (fun o p => match o with
        | some st => st = splitter.state.run r.tmsBits ∧ p.tap = tap.run r.tmsBits ∧ p.pending = []
        | none => ∃ i < (r.events splitter.state).length, (∀ j < i, script j = .accept) ∧
            script i ≠ .accept ∧ p.turn = i + 1)
      (fun _ _ => False) ⟨tap, [], 0⟩ := by
  have hall := Exec.wp_allM (f := scriptedCallback script) (l := r.events splitter.state)
    (I := fun pre p => p.turn = pre.length ∧ (∀ j < pre.length, script j = .accept) ∧
      p.tap.run p.pending = tap.run (pre.flatMap JtagSplitEvent.clockedTms) ∧
      (pre.getLast? = some .flushAll → p.pending = []))
    (F := fun p => ∃ i < (r.events splitter.state).length, (∀ j < i, script j = .accept) ∧
      script i ≠ .accept ∧ p.turn = i + 1)
    (E := fun _ _ => False) (s := ⟨tap, [], 0⟩) (by simp) ?_
  · unfold deliver
    rw [Exec.wp_bind]
    refine Exec.wp_mono hall ?_ (fun _ _ he => he)
    intro ok p hp
    cases ok with
    | false => exact hp
    | true =>
        obtain ⟨-, -, hrun, hlast⟩ := hp
        have hnil : p.pending = [] := hlast (by simp [SplitRequest.events])
        rw [r.clockedTms_events, hnil] at hrun
        exact ⟨rfl, hrun, hnil⟩
  · intro pre e post hsplit p hI
    obtain ⟨hturn, hpre, hrun, -⟩ := hI
    have hlen : pre.length < (r.events splitter.state).length := by simp [hsplit]
    cases hreact : script pre.length with
    | reject clocked kept =>
        refine Exec.wp_of_ok (a := false) (t := (p.react e (.reject clocked kept)).2) ?_ ?_
        · rw [scriptedCallback, hturn, hreact]
          rfl
        · exact ⟨pre.length, hlen, hpre, by rw [hreact]; exact Reaction.noConfusion,
            by simp [Port.react, hturn]⟩
    | accept =>
        refine Exec.wp_of_ok (a := true) (t := (p.react e .accept).2) ?_ ?_
        · rw [scriptedCallback, hturn, hreact]
          cases e <;> rfl
        · refine ⟨?_, ?_, ?_, ?_⟩
          · cases e <;> simp [Port.react, hturn]
          · intro j hj
            rw [List.length_append, List.length_singleton] at hj
            rcases Nat.lt_succ_iff_lt_or_eq.mp hj with hlt | rfl
            · exact hpre j hlt
            · exact hreact
          · rw [List.flatMap_append, Tap.run_append, ← hrun]
            cases e <;> simp [Port.react, Tap.run_append, JtagSplitEvent.clockedTms]
          · intro hflush
            have he : e = .flushAll := by simpa using hflush
            rw [he]
            rfl

/-! ## Runs of a splitter -/

inductive SplitCall where
  | init
  | process (r : SplitRequest)

/-- A splitter, its TAP, the accepted levels that are still on their way, and
whether the last init succeeded. -/
structure Session where
  splitter : JtagSplitter
  tap : Tap
  pending : List Bool
  usable : Bool
  deriving DecidableEq, Repr

namespace Session

def call (s : Session) (c : SplitCall) (script : ℕ → Reaction) :
    Except (Abort × Port) (Bool × Session) :=
  match c with
  | .init => do
      let ((ok, splitter), p) ←
        txvcJtagSplitterInit (scriptedCallback script) s.splitter ⟨s.tap, s.pending, 0⟩
      pure (ok, ⟨splitter, p.tap, p.pending, ok⟩)
  | .process r => do
      let ((ok, splitter), p) ←
        txvcJtagSplitterProcess (scriptedCallback script) s.splitter r ⟨s.tap, s.pending, 0⟩
      pure (ok, ⟨splitter, p.tap, p.pending, s.usable⟩)

/-- Runs whose calls return and meet `P`; vectors go to a usable splitter only. -/
inductive Run (P : Session → SplitCall → (ℕ → Reaction) → Prop) : Session → Session → Prop where
  | refl (s : Session) : Run P s s
  | tail {s t u : Session} {c : SplitCall} {script : ℕ → Reaction} {ok : Bool} (h : Run P s t)
      (husable : ∀ r, c = .process r → t.usable = true) (hP : P t c script)
      (hcall : t.call c script = .ok (ok, u)) : Run P s u

/-- If an event of a vector is the first one to be rejected, the two events of
the TAP reset that follows are accepted. -/
def RecoveryAccepted (s : Session) : SplitCall → (ℕ → Reaction) → Prop
  | .init, _ => True
  | .process r, script => ∀ i < (r.events s.splitter.state).length,
      (∀ j < i, script j = .accept) → script i ≠ .accept →
        script (i + 1) = .accept ∧ script (i + 2) = .accept

/-- The splitter's state is the TAP's, and nothing is on its way. -/
def Synced (s : Session) : Prop := s.splitter.state.tap = s.tap ∧ s.pending = []

theorem synced_of_init {s t : Session} {script : ℕ → Reaction}
    (h : s.call .init script = .ok (true, t)) : t.Synced := by
  unfold call txvcJtagSplitterInit at h
  cases hreset : tapReset (scriptedCallback script) ⟨s.tap, s.pending, 0⟩ with
  | error e =>
      rw [Exec.bind_error hreset] at h
      cases h
  | ok q =>
      obtain ⟨ok, p⟩ := q
      rw [Exec.bind_ok hreset] at h
      cases ok with
      | false => cases h
      | true =>
          obtain ⟨h1, h2⟩ := tapReset_eq_true hreset
          rw [tapReset_accepted h1 h2] at hreset
          cases hreset
          cases h
          exact ⟨rfl, rfl⟩

theorem usable_of_init {s t : Session} {script : ℕ → Reaction} {ok : Bool}
    (h : s.call .init script = .ok (ok, t)) : t.usable = ok := by
  unfold call at h
  cases hinit : txvcJtagSplitterInit (scriptedCallback script) s.splitter
      ⟨s.tap, s.pending, 0⟩ with
  | error e =>
      rw [hinit] at h
      cases h
  | ok q =>
      rw [hinit] at h
      cases h
      rfl

theorem synced_of_process {s t : Session} {r : SplitRequest} {script : ℕ → Reaction} {ok : Bool}
    (hs : s.Synced) (hrec : s.RecoveryAccepted (.process r) script)
    (h : s.call (.process r) script = .ok (ok, t)) : t.Synced := by
  obtain ⟨hstate, hpending⟩ := hs
  unfold call at h
  dsimp only at h
  rw [hpending] at h
  rcases process_eq_or (scriptedCallback script) r s.splitter ⟨s.tap, [], 0⟩ with
    hproc | ⟨-, p, hproc⟩
  · have htrack := deliver_tracks script r s.splitter s.tap
    obtain ⟨o, p, hdeliver, hpost⟩ := Exec.exists_ok htrack
    rw [hproc, Exec.bind_ok hdeliver] at h
    cases o with
    | some st =>
        obtain ⟨rfl, htap, hnil⟩ := hpost
        cases h
        refine ⟨?_, hnil⟩
        dsimp only
        rw [JtagState.tap_run, hstate, htap]
    | none =>
        obtain ⟨i, hi, hacc, hrej, hturn⟩ := hpost
        obtain ⟨h1, h2⟩ := hrec i hi hacc hrej
        rw [← hturn] at h1
        have h2' : script (p.turn + 1) = .accept := by
          rw [hturn]
          exact h2
        have hreset := tapReset_accepted h1 h2'
        rw [settle, Exec.bind_ok hreset] at h
        cases h
        exact ⟨rfl, rfl⟩
  · rw [hproc] at h
    cases h

theorem Run.synced {s t : Session} (h : Run RecoveryAccepted s t)
    (hs : s.usable = true → s.Synced) :
    t.usable = true → t.Synced := by
  induction h with
  | refl => exact hs
  | @tail t u c script ok _ husable hP hcall ih =>
      intro hu
      cases c with
      | init =>
          rw [usable_of_init hcall] at hu
          subst hu
          exact synced_of_init hcall
      | process r => exact synced_of_process (ih (husable r rfl)) hP hcall

end Session

/-- As long as every reset after a failed vector is accepted, the state of a
usable splitter is the TAP's. -/
theorem splitter_tracks_tap {s₀ s t : Session} {script : ℕ → Reaction}
    (hinit : s₀.call .init script = .ok (true, s))
    (hrun : Session.Run Session.RecoveryAccepted s t) (husable : t.usable = true) :
    t.splitter.state.tap = t.tap :=
  (hrun.synced (fun _ => Session.synced_of_init hinit) husable).1

/-- A one-bit vector whose shift is rejected, with an accepted reset. -/
theorem splitter_tracks_tap_one_failure :
    ((⟨⟨.testLogicReset⟩, .testLogicReset, [], true⟩ : Session).splitter.state).tap =
      (⟨⟨.testLogicReset⟩, .testLogicReset, [], true⟩ : Session).tap := by
  let r : SplitRequest := ⟨1, fun _ => 0, fun _ => 0, ⟨.vector 0, 0⟩⟩
  let s : Session := ⟨⟨.testLogicReset⟩, .testLogicReset, [], true⟩
  have hrun : Session.Run Session.RecoveryAccepted s s := by
    have hcall : s.call (.process r) (fun i => if i = 0 then .reject 1 0 else .accept) =
        .ok (false, s) := by decide +kernel
    refine .tail (.refl s) (fun _ _ => rfl) ?_ hcall
    intro i _ hacc hrej
    have hi : i = 0 := by
      by_contra hne
      exact hrej (if_neg hne)
    subst hi
    exact ⟨rfl, rfl⟩
  have hinit : (⟨⟨.runTestIdle⟩, .runTestIdle, [], false⟩ : Session).call .init (fun _ => .accept) =
      .ok (true, s) := by decide +kernel
  exact splitter_tracks_tap hinit hrun rfl

/-- After a vector whose shift, and then whose reset, is rejected, the splitter
records Test-Logic-Reset while the TAP is in Run-Test/Idle. -/
theorem splitter_loses_tap :
    ¬ ∀ (s₀ s t : Session) (script : ℕ → Reaction), s₀.call .init script = .ok (true, s) →
      Session.Run (fun _ _ _ => True) s t → t.usable = true → t.splitter.state.tap = t.tap := by
  intro h
  let r : SplitRequest := ⟨1, fun _ => 0, fun _ => 0, ⟨.vector 0, 0⟩⟩
  let s : Session := ⟨⟨.testLogicReset⟩, .testLogicReset, [], true⟩
  let t : Session := ⟨⟨.testLogicReset⟩, .runTestIdle, [], true⟩
  have hcall : s.call (.process r) (fun i => if i = 0 then .reject 1 0 else .reject 0 0) =
      .ok (false, t) := by decide +kernel
  have hrun : Session.Run (fun _ _ _ => True) s t :=
    .tail (.refl s) (fun _ _ => rfl) trivial hcall
  have hsync := h ⟨⟨.runTestIdle⟩, .runTestIdle, [], false⟩ s t (fun _ => .accept)
    (by decide +kernel) hrun rfl
  exact absurd hsync (by decide)

end TinyXvc
