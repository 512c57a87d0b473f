import TinyXvc.Server.Faults

/-!
# Sessions

Clients are served one after the other.  A session is what is done for one of
them: whole commands that it has written, in their order, and one ending.  In
between the server does nothing to the driver, and holds no memory.
-/

namespace TinyXvc.Server.Life

variable {ν δ : Type}

/-! ## What the clients and the driver see -/

/-- All but the memory. -/
def Action.visible : Action → Bool
  | .malloc _ _ => false
  | .free _ => false
  | _ => true

def visible (as : List Action) : List Action := as.filter Action.visible

@[simp] theorem visible_append (as bs : List Action) :
    visible (as ++ bs) = visible as ++ visible bs := List.filter_append ..

@[simp] theorem visible_frees (blocks : List ℕ) : visible (blocks.map Action.free) = [] := by
  simp [visible, List.filter_map, Function.comp_def, Action.visible]

@[simp] theorem visible_events (es : List Event) :
    visible (es.map Action.event) = es.map Action.event := by
  simp [visible, List.filter_map, Function.comp_def, Action.visible]

theorem Moves.visible_eq_nil {c c' : Connection ν δ} {mem : List Action} (h : Moves c mem c') :
    visible mem = [] := by
  obtain ⟨rfl, -⟩ | ⟨k, sz, rfl, -⟩ := h
  · rfl
  · simp [visible, List.filter_map, Function.comp_def, Action.visible]

theorem Aborted.visible_eq {c c' : Connection ν δ} (h : Aborted c c') :
    visible c'.actions = visible c.actions := by
  obtain ⟨k, sz, mem, hmem, heq⟩ := h
  have hnil : visible mem = [] := by
    have hall := (hmem.filter Action.visible).sublist
    simpa [visible, List.filter_map, Function.comp_def, Action.visible] using hall
  rw [heq, visible_append, hnil, List.append_nil]

section Runs

variable (D : Driver δ) (heap : ℕ → Octets)

/-- The sessions up to a moment between two of them: what has been done, what each
client has written, and what that leaves of the driver and of fresh memory. -/
inductive Sessions (d : δ) : List Action → List (List UInt8) → δ → ℕ → Prop where
  | start : Sessions d [] [] d 0
  | ignored {as : List Action} {inputs : List (List UInt8)} {d' : δ} {k : ℕ} (socket : ℕ)
      (h : Sessions d as inputs d' k) :
      Sessions d (as ++ [.accepted socket, .shutdown socket, .close socket]) inputs d' k
  | served {as : List Action} {inputs : List (List UInt8)} {d' : δ} {k : ℕ} (socket : ℕ)
      {cmds : List Command} {rest : List UInt8} {es es' : List Event} {b b' : Backend δ}
      (h : Sessions d as inputs d' k) (hcmds : ∀ c ∈ cmds, c.WellFormed)
      (hserved : (xvc D heap).serveAll ⟨d', 0, fun _ => 0, k⟩ cmds = (es, some b))
      (hclosing : Closing D heap b (nextCommand rest) es' b') :
      Sessions d (as ++ [.accepted socket] ++ (es ++ es').map Action.event ++
        [.shutdown socket, .close socket]) (inputs ++ [encodeAll cmds ++ rest])
        b'.driver b'.allocs

/-- The connection has served `cmds` and nothing else since `as`. -/
structure InSession (b : Backend δ) (as : List Action) (cmds : List Command) (es : List Event)
    (c : Connection ν δ) : Prop where
  wellFormed : ∀ c ∈ cmds, c.WellFormed
  received : c.received = encodeAll cmds
  served : (xvc D heap).serveAll b cmds = (es, some c.backend)
  actions : visible c.actions = as ++ es.map Action.event

/-- What is known of the server between two rounds. -/
def Accounted (d : δ) (s : State ν δ) : Prop :=
  match s.phase with
  | .connected socket _ vectorNumBytes tdoVector received =>
      ∃ as d' k cmds es, Sessions D heap d as s.received d' k ∧
        (∀ c ∈ cmds, c.WellFormed) ∧ received = encodeAll cmds ∧
        (xvc D heap).serveAll ⟨d', 0, fun _ => 0, k⟩ cmds =
          (es, some ⟨s.driver, vectorNumBytes, tdoVector, s.allocs⟩) ∧
        visible s.actions = as ++ [.accepted socket] ++ es.map Action.event
  | _ => Sessions D heap d (visible s.actions) s.received s.driver s.allocs

end Runs

section Rounds

variable {S : Sockets ν} {D : Driver δ} {heap : ℕ → Octets} {b : Backend δ} {as : List Action}
  {cmds : List Command} {es : List Event} {c c' : Connection ν δ}

theorem Handled.visible_eq {parse : List UInt8 → Option (Command × List UInt8)}
    {payload : List UInt8} {mem : List Action} {ok : Bool}
    (h : Handled D heap parse c payload mem es ok c') :
    visible c'.actions = visible c.actions ++ es.map Action.event := by
  simp [h.actions, h.moves.visible_eq_nil]

/-- One more command. -/
theorem InSession.serves (h : InSession D heap b as cmds es c)
    (hround : HandledFrom D heap nextCommand c true c') :
    ∃ cmds' es', InSession D heap b as cmds' es' c' := by
  obtain ⟨payload, mem, fs, hhandled⟩ := hround
  obtain ⟨cmd, hparsed, hserve⟩ := hhandled.outcome
  obtain ⟨hcmd, hpayload⟩ := nextCommand_eq_some.mp hparsed
  refine ⟨cmds ++ [cmd], es ++ fs, ?_, ?_, ?_, ?_⟩
  · simpa [or_imp, forall_and] using ⟨h.wellFormed, hcmd⟩
  · have hconcat := encodeAll_concat cmds cmd []
    rw [List.append_nil (encodeAll _)] at hconcat
    rw [hhandled.received, h.received, hpayload, hconcat]
  · exact CommandStream.serveAll_concat (S := xvc D heap) h.served hserve
  · simp [hhandled.visible_eq, h.actions]

/-- The connection ends, and with it the session. -/
theorem InSession.ends {d d' : δ} {inputs : List (List UInt8)} {k socket : ℕ}
    (hbefore : Sessions D heap d as inputs d' k)
    (h : InSession D heap ⟨d', 0, fun _ => 0, k⟩ (as ++ [.accepted socket]) cmds es c)
    (hround : HandledFrom D heap nextCommand c false c') :
    Sessions D heap d (visible c'.actions ++ [.shutdown socket, .close socket])
      (inputs ++ [c'.received]) c'.backend.driver c'.backend.allocs := by
  obtain ⟨payload, mem, fs, hhandled⟩ := hround
  have hsession := Sessions.served socket hbefore h.wellFormed h.served hhandled.outcome
  have hactions : visible c'.actions = as ++ [.accepted socket] ++ (es ++ fs).map Action.event := by
    simp [hhandled.visible_eq, h.actions]
  rw [hhandled.received, h.received, hactions]
  exact hsession

theorem acceptRound_accounted {d : δ} {s : State ν δ} (hphase : s.phase = .listening)
    (h : Accounted D heap d s) : Accounted D heap d (acceptRound S s) := by
  simp only [Accounted, hphase] at h
  simp only [acceptRound]
  split
  · exact h
  · split
    · simpa [Accounted, hphase] using h
    · rename_i socket inet os haccept
      split
      · exact ⟨_, s.driver, s.allocs, [], [], h, by simp, rfl, rfl,
          by simp [visible, Action.visible]⟩
      · simp only [Accounted, hphase, visible_append]
        exact h.ignored socket

/-- What the server has done when the process ends: the last session is not over. -/
def AccountedStop (D : Driver δ) (heap : ℕ → Octets) (d : δ) (actions : List Action) : Prop :=
  ∃ as inputs d' k socket cmds es b, Sessions D heap d as inputs d' k ∧
    (∀ c ∈ cmds, c.WellFormed) ∧
    (xvc D heap).serveAll ⟨d', 0, fun _ => 0, k⟩ cmds = (es, some b) ∧
    visible actions = as ++ [.accepted socket] ++ es.map Action.event

theorem RoundEnd.socket {returned : Bool} (h : RoundEnd D heap c returned c') :
    c'.socket = c.socket := by
  obtain ⟨-, os, rfl⟩ | ⟨payload, mem, fs, hhandled⟩ := h
  · rfl
  · exact hhandled.socket

/-- A round that does not end the connection. -/
theorem InSession.goesOn (h : InSession D heap b as cmds es c)
    (hround : RoundEnd D heap c false c') : ∃ cmds' es', InSession D heap b as cmds' es' c' := by
  obtain ⟨-, os, rfl⟩ | hhandled := hround
  · exact ⟨cmds, es, h.wellFormed, h.received, h.served, h.actions⟩
  · exact h.serves hhandled

theorem serverRound_accounted {d : δ} {s : State ν δ} (h : Accounted D heap d s) :
    match serverRound S D heap s with
    | .ok s' => Accounted D heap d s'
    | .error actions => AccountedStop D heap d actions := by
  cases hphase : s.phase with
  | returned => simpa [serverRound, hphase] using h
  | listening => simpa [serverRound, hphase] using acceptRound_accounted hphase h
  | connected socket vectors vectorNumBytes tdoVector received =>
      simp only [Accounted, hphase] at h
      simp only [serverRound, hphase]
      generalize hc : s.connection socket vectors vectorNumBytes tdoVector received = c
      obtain ⟨as, d', k, cmds, es, hbefore, hcmds, hreceived, hserved, hactions⟩ := h
      have hsession :
          InSession D heap ⟨d', 0, fun _ => 0, k⟩ (as ++ [.accepted c.socket]) cmds es c := by
        subst hc
        exact ⟨hcmds, hreceived, hserved, hactions⟩
      have hspec := connectionRound_spec S D heap c
      cases hround : connectionRound S D heap c with
      | error e =>
          obtain ⟨⟨⟩, c'⟩ := e
          have habort := Exec.wp_error (E := fun _ => Aborted c) hspec hround
          exact ⟨as, s.received, d', k, c.socket, cmds, es, c.backend, hbefore, hcmds,
            hsession.served, habort.visible_eq.trans hsession.actions⟩
      | ok p =>
          obtain ⟨returned, c'⟩ := p
          have hend : RoundEnd D heap c returned c' := Exec.wp_ok hspec hround
          cases returned with
          | false =>
              obtain ⟨cmds', es', hsession'⟩ := hsession.goesOn hend
              rw [← hend.socket] at hsession'
              exact ⟨as, d', k, cmds', es', hbefore, hsession'.wellFormed, hsession'.received,
                hsession'.served, hsession'.actions⟩
          | true =>
              have hhandled : HandledFrom D heap nextCommand c false c' :=
                hend.resolve_left fun hidle => Bool.noConfusion hidle.1
              have hends := hsession.ends hbefore hhandled
              have hvisible : visible (s.hangUp c').actions =
                  visible c'.actions ++ [.shutdown c.socket, .close c.socket] := by
                simp only [State.hangUp, visible_append, visible_frees, List.append_nil,
                  hend.socket]
                rfl
              change Sessions D heap d (visible (s.hangUp c').actions) _ _ _
              rw [hvisible]
              exact hends

/-- Whatever the system calls do, at every moment the server has served its clients one
after the other, each from fresh vectors and with the driver that the one before has
left: whole commands in the order in which they were written, and at most one more that
the driver refuses or whose response is cut.  Nothing else reaches the driver or a client. -/
theorem server_sessions (S : Sockets ν) (D : Driver δ) (heap : ℕ → Octets) (os : ν) (d : δ)
    (n : ℕ) :
    match serverRun S D heap n (.start os d) with
    | .ok s => Accounted D heap d s
    | .error actions => AccountedStop D heap d actions :=
  serverRun_invariant (J := Accounted D heap d) (fun _ h => serverRound_accounted h) n .start

end Rounds

end TinyXvc.Server.Life
