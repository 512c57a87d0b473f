import TinyXvc.Server.Faults

/-!
# What the server holds

The actions of the server are replayed against what it may do with sockets and
memory: a block is freed once, a shift is handed three blocks that hold its bits,
and a socket is closed when everything allocated for it is freed.
-/

namespace TinyXvc.Server.Life

variable {ν δ : Type}

/-- The socket that is open, and the blocks that are allocated, with their sizes. -/
structure Holdings where
  socket : Option ℕ
  blocks : List (ℕ × ℕ)
  deriving DecidableEq, Repr

namespace Holdings

/-- The blocks hold the vectors of the event. -/
def holds (m : Holdings) : Event → Prop
  | .shiftBits numBits _ _ => m.blocks.length = 3 ∧ ∀ p ∈ m.blocks, vectorOctets numBits ≤ p.2
  | _ => True

instance (m : Holdings) (e : Event) : Decidable (m.holds e) :=
  match e with
  | .maxVectorBits => inferInstanceAs (Decidable True)
  | .setTckPeriod _ => inferInstanceAs (Decidable True)
  | .shiftBits _ _ _ => inferInstanceAs (Decidable (_ ∧ _))
  | .response _ => inferInstanceAs (Decidable True)

/-- One action, if it is allowed. -/
def step (m : Holdings) : Action → Option Holdings
  | .accepted socket => if m.socket = none then some { m with socket := some socket } else none
  | .event e => if m.socket ≠ none ∧ m.holds e then some m else none
  | .malloc block sz =>
      if block ∉ m.blocks.map Prod.fst then some { m with blocks := m.blocks ++ [(block, sz)] }
      else none
  | .free block =>
      if block ∈ m.blocks.map Prod.fst then
        some { m with blocks := m.blocks.filter fun p => p.1 ≠ block }
      else none
  | .shutdown socket => if m.socket = some socket then some m else none
  | .close socket =>
      if m.socket = some socket ∧ m.blocks = [] then some { m with socket := none } else none

/-- The actions one after the other, as long as they are allowed. -/
def replay (m : Holdings) (as : List Action) : Option Holdings := as.foldlM step m

/-- No socket is open, and nothing is allocated. -/
def empty : Holdings := ⟨none, []⟩

theorem replay_append (m : Holdings) (as bs : List Action) :
    m.replay (as ++ bs) = (m.replay as).bind fun m' => m'.replay bs := List.foldlM_append ..

theorem replay_cons (m : Holdings) (a : Action) (as : List Action) :
    m.replay (a :: as) = (m.step a).bind fun m' => m'.replay as := rfl

theorem replay_events {m : Holdings} {es : List Event} (hsocket : m.socket ≠ none)
    (h : ∀ e ∈ es, m.holds e) : m.replay (es.map Action.event) = some m := by
  induction es with
  | nil => rfl
  | cons e es ih =>
      obtain ⟨he, hes⟩ := List.forall_mem_cons.mp h
      rw [List.map_cons, replay_cons, step, if_pos ⟨hsocket, he⟩, Option.bind_some]
      exact ih hes

/-- What has been replayed up to some action has been replayed before it. -/
theorem isSome_of_prefix {m : Holdings} {as bs : List Action} (h : as <+: bs)
    (hbs : (m.replay bs).isSome) : (m.replay as).isSome := by
  obtain ⟨cs, rfl⟩ := h
  rw [replay_append] at hbs
  exact Option.isSome_of_isSome_bind hbs

end Holdings

open Holdings

/-- The vectors are none, or those of one allocation. -/
def Vectors (blocks : List ℕ) (vectorNumBytes : ℕ) : Prop :=
  (blocks = [] ∧ vectorNumBytes = 0) ∨ ∃ k, blocks = [k, k + 1, k + 2]

/-- The connection holds its socket and its vectors. -/
structure Connection.Holds (c : Connection ν δ) : Prop where
  vectors : Vectors c.vectors c.backend.vectorNumBytes
  replay : empty.replay c.actions =
    some ⟨some c.socket, c.vectors.map fun block => (block, c.backend.vectorNumBytes)⟩

theorem replay_frees {blocks : List ℕ} {n : ℕ} (h : Vectors blocks n) (socket : ℕ) :
    Holdings.replay ⟨some socket, blocks.map fun block => (block, n)⟩ (blocks.map Action.free) =
      some ⟨some socket, []⟩ := by
  obtain ⟨rfl, -⟩ | ⟨k, rfl⟩ := h
  · rfl
  · simp [Holdings.replay, step]

theorem replay_mallocs (socket k n : ℕ) :
    Holdings.replay ⟨some socket, []⟩ [.malloc k n, .malloc (k + 1) n, .malloc (k + 2) n] =
      some ⟨some socket, [(k, n), (k + 1, n), (k + 2, n)]⟩ := by
  simp [Holdings.replay, step]

section Rounds

variable {S : Sockets ν} {D : Driver δ} {heap : ℕ → Octets} {c c' : Connection ν δ}

/-- The vectors are replaced by three blocks of another size. -/
theorem Connection.Holds.replay_realloc (h : c.Holds) (k sz : ℕ) :
    empty.replay (c.actions ++ (c.vectors.map Action.free ++
      [.malloc k sz, .malloc (k + 1) sz, .malloc (k + 2) sz])) =
        some ⟨some c.socket, [(k, sz), (k + 1, sz), (k + 2, sz)]⟩ := by
  rw [replay_append, h.replay, Option.bind_some, replay_append, replay_frees h.vectors,
    Option.bind_some]
  exact replay_mallocs c.socket k sz

theorem Aborted.isSome (habort : Aborted c c') (h : c.Holds) :
    (empty.replay c'.actions).isSome := by
  obtain ⟨k, sz, mem, hmem, heq⟩ := habort
  rw [heq]
  refine isSome_of_prefix ((List.prefix_append_right_inj c.actions).mpr hmem) ?_
  rw [h.replay_realloc]
  rfl

/-- The vectors after a handler. -/
theorem Moves.replay_eq {mem : List Action} (hmoves : Moves c mem c') (h : c.Holds) :
    Vectors c'.vectors c'.backend.vectorNumBytes ∧ empty.replay (c.actions ++ mem) =
      some ⟨some c.socket, c'.vectors.map fun block => (block, c'.backend.vectorNumBytes)⟩ := by
  obtain ⟨rfl, hvectors, hsize⟩ | ⟨k, sz, rfl, hvectors, hsize⟩ := hmoves
  · rw [hvectors, hsize, List.append_nil]
    exact ⟨h.vectors, h.replay⟩
  · rw [hvectors, hsize]
    exact ⟨.inr ⟨k, rfl⟩, h.replay_realloc k sz⟩

theorem Vectors.length_eq {blocks : List ℕ} {n : ℕ} (h : Vectors blocks n) (hn : 0 < n) :
    blocks.length = 3 := by
  obtain ⟨-, rfl⟩ | ⟨k, rfl⟩ := h
  · exact absurd hn (lt_irrefl 0)
  · rfl

theorem Handled.holds {parse : List UInt8 → Option (Command × List UInt8)}
    {payload : List UInt8} {mem : List Action} {es : List Event} {ok : Bool}
    (hhandled : Handled D heap parse c payload mem es ok c') (h : c.Holds) : c'.Holds := by
  obtain ⟨hvectors, hreplay⟩ := hhandled.moves.replay_eq h
  refine ⟨hvectors, ?_⟩
  rw [hhandled.actions, replay_append, hreplay, Option.bind_some, hhandled.socket]
  refine replay_events (Option.some_ne_none _) fun e he => ?_
  cases e with
  | shiftBits numBits tms tdi =>
      obtain ⟨hpos, hfits⟩ := hhandled.fits numBits tms tdi he
      have hsize : 0 < c'.backend.vectorNumBytes := by
        unfold vectorOctets at hfits
        omega
      refine ⟨?_, fun p hp => ?_⟩
      · rw [List.length_map]
        exact hvectors.length_eq hsize
      · obtain ⟨block, -, rfl⟩ := List.mem_map.mp hp
        exact hfits
  | maxVectorBits => trivial
  | setTckPeriod period => trivial
  | response bytes => trivial

theorem RoundEnd.holds {returned : Bool} (hend : RoundEnd D heap c returned c') (h : c.Holds) :
    c'.Holds := by
  obtain ⟨-, os, rfl⟩ | ⟨payload, mem, es, hhandled⟩ := hend
  · exact ⟨h.vectors, h.replay⟩
  · exact hhandled.holds h

/-- What the server holds between two rounds. -/
def State.Holds (s : State ν δ) : Prop :=
  match s.phase with
  | .connected socket vectors vectorNumBytes _ _ => Vectors vectors vectorNumBytes ∧
      empty.replay s.actions = some ⟨some socket, vectors.map fun block => (block, vectorNumBytes)⟩
  | _ => empty.replay s.actions = some empty

theorem State.holds_hangUp {s : State ν δ} (h : c.Holds) : (s.hangUp c).Holds := by
  change empty.replay
      (c.actions ++ c.vectors.map Action.free ++ [.shutdown c.socket, .close c.socket]) =
    some empty
  rw [List.append_assoc, replay_append, h.replay, Option.bind_some, replay_append,
    replay_frees h.vectors, Option.bind_some]
  simp [Holdings.replay, step, empty]

theorem acceptRound_holds {s : State ν δ} (hphase : s.phase = .listening) (h : s.Holds) :
    (acceptRound S s).Holds := by
  simp only [State.Holds, hphase] at h
  simp only [acceptRound]
  split
  · exact h
  · split
    · simpa [State.Holds, hphase] using h
    · split
      · refine ⟨.inl ⟨rfl, rfl⟩, ?_⟩
        rw [replay_append, h, Option.bind_some]
        rfl
      · simp only [State.Holds, hphase]
        rw [replay_append, h, Option.bind_some]
        simp [Holdings.replay, step, empty]

theorem serverRound_holds {s : State ν δ} (h : s.Holds) :
    match serverRound S D heap s with
    | .ok s' => s'.Holds
    | .error actions => (empty.replay actions).isSome := by
  cases hphase : s.phase with
  | returned => simpa [serverRound, hphase] using h
  | listening => simpa [serverRound, hphase] using acceptRound_holds hphase h
  | connected socket vectors vectorNumBytes tdoVector received =>
      simp only [State.Holds, hphase] at h
      have hc : (s.connection socket vectors vectorNumBytes tdoVector received).Holds := ⟨h.1, h.2⟩
      simp only [serverRound, hphase]
      generalize s.connection socket vectors vectorNumBytes tdoVector received = c at hc
      have hspec := connectionRound_spec S D heap c
      cases hround : connectionRound S D heap c with
      | error e =>
          obtain ⟨⟨⟩, c'⟩ := e
          have habort := Exec.wp_error (E := fun _ => Aborted c) hspec hround
          exact habort.isSome hc
      | ok p =>
          obtain ⟨returned, c'⟩ := p
          have hend : RoundEnd D heap c returned c' := Exec.wp_ok hspec hround
          have hc' := hend.holds hc
          cases returned with
          | false => exact ⟨hc'.vectors, hc'.replay⟩
          | true => exact State.holds_hangUp hc'

/-- Whatever the system calls do, no block is freed twice or kept when its connection is
closed, every shift is given three blocks that hold its bits, and a connection is closed
before the next one is accepted. -/
theorem server_holds_exactly (S : Sockets ν) (D : Driver δ) (heap : ℕ → Octets) (os : ν) (d : δ)
    (n : ℕ) :
    match serverRun S D heap n (.start os d) with
    | .ok s => s.Holds
    | .error actions => (empty.replay actions).isSome :=
  serverRun_invariant (J := State.Holds) (fun _ h => serverRound_holds h) n rfl

end Rounds

end TinyXvc.Server.Life
