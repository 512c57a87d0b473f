import TinyXvc.Server.Rounds

/-!
# Whole connections

Over any number of rounds the connection says what the reference parser says.
Every round that does not end it either serves a command or waits, and it can not
wait for ever unless the client has sent the beginning of a command only.
-/

namespace TinyXvc.Server

open CommandStream

/-- Every byte arrives in the end, and peeks that show enough bytes for any word do not
cease. -/
structure Schedule extends Arrivals where
  arrived_mono : Monotone arrived
  arrives : ∀ n, ∃ k, n ≤ arrived k
  shows : ∀ k, ∃ j ≥ k, 8 ≤ shown j

variable {δ : Type} (D : Driver δ) (heap : ℕ → Octets)

/-- What is left for the reference parser. -/
structure Remains (io : Client) (es : List Event) (rest : Option (List UInt8)) (s : Conn δ) :
    Prop where
  length_le : s.unread.length ≤ io.stream.length
  answers : s.trace ++ (xvc D heap).answers s.unread s.backend = es
  leftover : (xvc D heap).leftover s.unread s.backend = rest

/-- The connection has said everything, and is not between two commands. -/
def Complete (es : List Event) (rest : Option (List UInt8)) (s : Conn δ) : Prop :=
  s.trace = es ∧ ∀ r, rest = some r → ¬Undecided r

variable {D heap} {io : Client} {es : List Event} {rest : Option (List UInt8)} {s s' : Conn δ}

theorem Remains.stops (h : Remains D heap io es rest s) (hstops : Stops D heap s s') :
    Complete es rest s' := by
  rcases hstops with ⟨hnext, hdecided, htrace⟩ | ⟨c, after, events, hnext, hserve, htrace⟩
  · refine ⟨?_, fun r hr => ?_⟩
    · rw [htrace, ← h.answers, answers_of_none hnext, List.append_nil]
    · have hleft := h.leftover
      rw [leftover_of_none hnext, hr] at hleft
      cases hleft
      exact hdecided
  · refine ⟨?_, fun r hr => ?_⟩
    · rw [htrace, ← h.answers, answers_of_stopped hnext hserve]
    · have hleft := h.leftover
      rw [leftover_of_stopped hnext hserve, hr] at hleft
      cases hleft

theorem Remains.serves (h : Remains D heap io es rest s) (hserves : Serves D heap s s') :
    Remains D heap io es rest s' ∧ s'.unread.length < s.unread.length := by
  obtain ⟨c, after, events, hnext, hserve, htrace, hunread⟩ := hserves
  have hlt := nextCommand_lt s.unread c after hnext
  have hle := h.length_le
  rw [← hunread] at hlt
  refine ⟨⟨by omega, ?_, ?_⟩, hlt⟩
  · rw [htrace, hunread, List.append_assoc, ← answers_of_served hnext hserve]
    exact h.answers
  · rw [hunread, ← leftover_of_served hnext hserve]
    exact h.leftover

theorem Remains.waits (h : Remains D heap io es rest s) (hwaits : Waits io s s') :
    Remains D heap io es rest s' := by
  obtain ⟨rfl, -⟩ := hwaits
  exact ⟨h.length_le, h.answers, h.leftover⟩

theorem Remains.stall (h : Remains D heap io es rest s) (hstall : RoundStall io s s') :
    io.closes = false ∧ s'.trace = es := by
  obtain ⟨hcloses, hnext, htrace⟩ := hstall
  refine ⟨hcloses, ?_⟩
  rw [htrace, ← h.answers, answers_of_none hnext, List.append_nil]

/-- At an undecided end the reference parser has nothing to say any more. -/
theorem Remains.undecided (h : Remains D heap io es rest s) (hs : Undecided s.unread) :
    s.trace = es ∧ rest = some s.unread := by
  have hnext : (xvc D heap).next s.unread = none := nextCommand_of_undecided hs
  refine ⟨?_, ?_⟩
  · rw [← h.answers, answers_of_none hnext, List.append_nil]
  · rw [← h.leftover, leftover_of_none hnext]

/-! ## Runs -/

theorem runConnectin_add (m n : ℕ) :
    runConnectin D heap io (m + n) =
      (do if ← runConnectin D heap io m then pure true else runConnectin D heap io n) := by
  induction m with
  | zero =>
      rw [Nat.zero_add]
      rfl
  | succ m ih =>
      rw [Nat.add_right_comm, runConnectin, runConnectin, ih, bind_assoc]
      congr 1
      funext returned
      cases returned <;> rfl

/-- What `n` rounds come to. -/
theorem runConnectin_spec (n : ℕ) (h : Remains D heap io es rest s) :
    Exec.wp (runConnectin D heap io n)
      (fun returned s' => if returned then Complete es rest s' else Remains D heap io es rest s')
      (fun _ s' => io.closes = false ∧ s'.trace = es) s := by
  induction n generalizing s with
  | zero => exact h
  | succ n ih =>
      rw [runConnectin, Exec.wp_bind]
      refine Exec.wp_mono (connectionRound_spec s) ?_ (fun _ _ hstall => h.stall hstall)
      intro returned s' hround
      cases returned with
      | true => exact h.stops hround
      | false =>
          rcases hround with hserves | hwaits
          · exact ih (h.serves hserves).1
          · exact ih (h.waits hwaits)

/-- Once the bytes that are left are undecided, every further round waits. -/
theorem runConnectin_undecided (n : ℕ) (hs : Undecided s.unread) :
    Exec.wp (runConnectin D heap io n) (fun returned s' => returned = false ∧ s'.trace = s.trace)
      (fun _ s' => s'.trace = s.trace) s := by
  have hnext := nextCommand_of_undecided hs
  induction n generalizing s with
  | zero => exact ⟨rfl, rfl⟩
  | succ n ih =>
      rw [runConnectin, Exec.wp_bind]
      refine Exec.wp_mono (connectionRound_spec s) ?_ (fun _ _ hstall => hstall.2.2)
      intro returned s' hround
      cases returned with
      | true =>
          rcases hround with ⟨-, hdecided, -⟩ | ⟨c, after, events, hsome, -⟩
          · exact absurd hs hdecided
          · rw [hnext] at hsome
            cases hsome
      | false =>
          rcases hround with ⟨c, after, events, hsome, -⟩ | ⟨rfl, -⟩
          · rw [hnext] at hsome
            cases hsome
          · exact ih hs hnext

theorem Schedule.exists_showsAll (sch : Schedule) (stream : List UInt8) (closes : Bool) (k : ℕ) :
    ∃ j ≥ k, (Client.mk stream closes sch.toArrivals).ShowsAll j := by
  obtain ⟨k', hk'⟩ := sch.arrives stream.length
  obtain ⟨j, hj, hshows⟩ := sch.shows (max k k')
  have harrived := sch.arrived_mono ((le_max_right k k').trans hj)
  exact ⟨j, (le_max_left k k').trans hj, hk'.trans harrived, hshows⟩

variable (D heap io) in
/-- After some rounds the connection has ended, or what is left is undecided. -/
def Settles (s : Conn δ) : Prop :=
  ∃ n, Exec.wp (runConnectin D heap io n)
    (fun returned s' => returned = true ∨ Undecided s'.unread) (fun _ _ => True) s

theorem settles_of_round (hserves : ∀ s', Serves D heap s s' → Settles D heap io s')
    (hwaits : ∀ s', Waits io s s' → Settles D heap io s') : Settles D heap io s := by
  cases hround : connectionRound D heap io s with
  | error e =>
      refine ⟨1, ?_⟩
      rw [runConnectin, Exec.wp, Exec.bind_error hround]
      trivial
  | ok p =>
      obtain ⟨returned, s'⟩ := p
      have hend := Exec.wp_ok (connectionRound_spec s) hround
      cases returned with
      | true =>
          refine ⟨1, ?_⟩
          rw [runConnectin, Exec.wp_bind_ok hround]
          exact .inl rfl
      | false =>
          obtain ⟨n, hn⟩ := hend.elim (hserves s') (hwaits s')
          refine ⟨n + 1, ?_⟩
          rw [runConnectin, Exec.wp_bind_ok hround]
          exact hn

theorem Remains.settles (hsched : ∀ k, ∃ j ≥ k, io.ShowsAll j) (h : Remains D heap io es rest s) :
    Settles D heap io s := by
  induction hlen : s.unread.length using Nat.strong_induction_on generalizing s with
  | _ len ih =>
      have hserves : ∀ t s', Remains D heap io es rest t → t.unread.length = len →
          Serves D heap t s' → Settles D heap io s' := by
        intro t s' ht htlen hserves
        obtain ⟨h', hlt⟩ := ht.serves hserves
        exact ih s'.unread.length (htlen ▸ hlt) h' rfl
      -- the rounds that wait, up to the peek that shows all
      obtain ⟨j, hj, hshows⟩ := hsched s.peeks
      induction hd : j - s.peeks generalizing s with
      | zero =>
          obtain rfl : s.peeks = j := by omega
          refine settles_of_round (fun s' => hserves s s' h hlen) fun s' hwaits => ?_
          obtain ⟨rfl, hundecided⟩ := hwaits
          exact ⟨0, .inr (hundecided hshows h.length_le)⟩
      | succ d ihd =>
          refine settles_of_round (fun s' => hserves s s' h hlen) fun s' hwaits => ?_
          have h' := h.waits hwaits
          obtain ⟨rfl, -⟩ := hwaits
          exact ihd h' hlen (by dsimp only; omega) (by dsimp only; omega)

/-! ## The protocol is kept -/

/-- The events so far. -/
def traceOf : Except (Stall × Conn δ) (Bool × Conn δ) → List Event
  | .ok (_, s) => s.trace
  | .error (_, s) => s.trace

theorem start_remains (b : Backend δ) :
    Remains D heap io ((xvc D heap).answers io.stream b) ((xvc D heap).leftover io.stream b)
      (io.start b) where
  length_le := le_rfl
  answers := List.nil_append _
  leftover := rfl

theorem trace_of_wp {x : ConnM δ Bool} {P : List Event → Prop}
    (h : Exec.wp x (fun _ s' => P s'.trace) (fun _ s' => P s'.trace) s) : P (traceOf (x s)) := by
  unfold Exec.wp at h
  cases hx : x s with
  | error e =>
      rw [hx] at h
      exact h
  | ok p =>
      rw [hx] at h
      exact h

theorem trace_prefix (n : ℕ) (h : Remains D heap io es rest s) :
    traceOf (runConnectin D heap io n s) <+: es := by
  refine trace_of_wp (P := fun t => t <+: es) (Exec.wp_mono (runConnectin_spec n h) ?_ ?_)
  · intro returned s' hs'
    cases returned with
    | true => exact hs'.1 ▸ List.prefix_rfl
    | false => exact ⟨_, hs'.answers⟩
  · exact fun _ s' hs' => hs'.2 ▸ List.prefix_rfl

theorem trace_complete (hsched : ∀ k, ∃ j ≥ k, io.ShowsAll j) (h : Remains D heap io es rest s) :
    ∃ m, ∀ n ≥ m, traceOf (runConnectin D heap io n s) = es := by
  obtain ⟨m, hm⟩ := h.settles hsched
  refine ⟨m, fun n hn => ?_⟩
  obtain ⟨k, rfl⟩ := Nat.exists_eq_add_of_le hn
  refine trace_of_wp (P := fun t => t = es) ?_
  rw [runConnectin_add, Exec.wp_bind]
  refine Exec.wp_mono (Exec.wp_and hm (runConnectin_spec m h)) ?_ fun _ s' hs' => hs'.2.2
  rintro returned s' ⟨hsettled, hs'⟩
  cases returned with
  | true => exact hs'.1
  | false =>
      have hundecided := hsettled.resolve_left Bool.false_ne_true
      obtain ⟨htrace, -⟩ := hs'.undecided hundecided
      refine Exec.wp_mono (runConnectin_undecided k hundecided) ?_ ?_
      · exact fun _ t ht => ht.2.trans htrace
      · exact fun _ t ht => ht.trans htrace

/-- The calls of the driver and the responses are those of the reference parser,
whenever the bytes arrive and however they are peeked at; they come in the end if
peeks that are long enough do not cease. -/
theorem connection_conforms (D : Driver δ) (heap : ℕ → Octets) (stream : List UInt8)
    (closes : Bool) (b : Backend δ) :
    (∀ (arrivals : Arrivals) (n : ℕ),
      let io : Client := ⟨stream, closes, arrivals⟩
      traceOf (runConnectin D heap io n (io.start b)) <+: (xvc D heap).answers stream b) ∧
    ∀ sch : Schedule,
      let io : Client := ⟨stream, closes, sch.toArrivals⟩
      ∃ m, ∀ n ≥ m, traceOf (runConnectin D heap io n (io.start b)) =
        (xvc D heap).answers stream b := by
  refine ⟨fun arrivals n => ?_, fun sch => ?_⟩
  · intro io
    exact trace_prefix n (start_remains b)
  · intro io
    exact trace_complete (sch.exists_showsAll stream closes) (start_remains b)

/-- If no peek is long enough for the word of the next command, every round waits. -/
theorem runConnectin_short (n : ℕ) (hnil : s.unread ≠ [])
    (hshown : ∀ k, io.arrivals.shown k < 8)
    (hword : ∀ c : Cmd, c.word <+: s.unread → ∀ k, io.arrivals.shown k < c.word.length) :
    Exec.wp (runConnectin D heap io n) (fun _ s' => s'.trace = s.trace) (fun _ _ => False) s := by
  induction n generalizing s with
  | zero => rfl
  | succ n ih =>
      rw [runConnectin, Exec.wp_bind]
      refine Exec.wp_mono (connectionRound_short hnil (hshown _) fun c hc => hword c hc _) ?_
        fun _ _ h => h
      rintro returned s' ⟨rfl, rfl⟩
      exact ih hnil hword

/-- A driver without a device. -/
def idleDriver : Driver Unit where
  maxVectorBits := fun _ => (1, ())
  setTckPeriod := fun period _ => (period, ())
  shiftBits := fun _ _ _ tdo _ => (true, tdo, ())

/-- One byte arrives before each peek, and no peek shows more than seven. -/
def shortPeeks : Arrivals where
  arrived := fun k => k
  shown := fun _ => 7
  shown_pos := fun _ => by decide

/-- `getinfo:` is never answered if the peeks end before its colon. -/
theorem short_peeks_no_answer :
    let io : Client := ⟨getinfoWord, true, shortPeeks⟩
    let b : Backend Unit := ⟨(), 0, fun _ => 0, 0⟩
    (∀ n, traceOf (runConnectin idleDriver (fun _ _ => 0) io n (io.start b)) = []) ∧
      (xvc idleDriver fun _ _ => 0).answers getinfoWord b =
        [.maxVectorBits, .response (infoLine 1)] := by
  intro io b
  refine ⟨fun n => ?_, ?_⟩
  · have hword : ∀ c : Cmd, c.word <+: (io.start b).unread → 7 < c.word.length := by
      intro c
      cases c <;> decide
    exact trace_of_wp (P := fun t => t = []) (Exec.wp_mono
      (runConnectin_short n (by decide) (fun _ => (by decide : 7 < 8)) fun c hc _ => hword c hc)
      (fun _ _ h => h) fun _ _ h => h.elim)
  · have hserve : (xvc idleDriver fun _ _ => 0).serve b .getinfo =
        ([.maxVectorBits, .response (infoLine 1)], some b) := rfl
    have hfirst : (xvc idleDriver fun _ _ => 0).next getinfoWord = some (.getinfo, []) := by decide
    have hlast : (xvc idleDriver fun _ _ => 0).next [] = none := by decide
    rw [answers_of_served hfirst hserve, answers_of_none hlast, List.append_nil]

/-! ## The connection ends -/

variable (D heap) in
/-- The connection returns after finitely many rounds. -/
def Returns (io : Client) (b : Backend δ) : Prop :=
  ∃ n s', runConnectin D heap io n (io.start b) = .ok (true, s')

/-- A connection that the client closes ends exactly if what the reference parser
leaves is not undecided. -/
theorem connection_returns_iff (D : Driver δ) (heap : ℕ → Octets) (stream : List UInt8)
    (sch : Schedule) (b : Backend δ) :
    Returns D heap ⟨stream, true, sch.toArrivals⟩ b ↔
      ∀ r, (xvc D heap).leftover stream b = some r → ¬Undecided r := by
  let io : Client := ⟨stream, true, sch.toArrivals⟩
  have hstart : Remains D heap io ((xvc D heap).answers stream b) ((xvc D heap).leftover stream b)
      (io.start b) := start_remains b
  constructor
  · rintro ⟨n, s', hrun⟩
    have hcomplete := Exec.wp_ok (runConnectin_spec n hstart) hrun
    exact hcomplete.2
  · intro hdecided
    obtain ⟨n, hn⟩ := hstart.settles (sch.exists_showsAll stream true)
    have hends : Exec.wp (runConnectin D heap io n) (fun returned _ => returned = true)
        (fun _ _ => False) (io.start b) := by
      refine Exec.wp_mono (Exec.wp_and hn (runConnectin_spec n hstart)) ?_ ?_
      · rintro returned s' ⟨hsettled, hs'⟩
        cases returned with
        | true => rfl
        | false =>
            have hundecided := hsettled.resolve_left Bool.false_ne_true
            exact absurd hundecided (hdecided _ (hs'.undecided hundecided).2)
      · rintro e s' ⟨-, hcloses, -⟩
        cases hcloses
    obtain ⟨returned, s', hrun, rfl⟩ := Exec.exists_ok hends
    exact ⟨n, s', hrun⟩

/-- One byte arrives before each peek, and is shown at once. -/
def promptSchedule : Schedule where
  arrived := fun k => k
  shown := fun _ => 16
  shown_pos := fun _ => by decide
  arrived_mono := fun _ _ h => h
  arrives := fun n => ⟨n, le_rfl⟩
  shows := fun k => ⟨k, le_rfl, by decide⟩

/-- The client closes before the colon. -/
theorem truncated_command_spins :
    ¬Returns idleDriver (fun _ _ => 0)
      ⟨octets "getinfo".toList, true, promptSchedule.toArrivals⟩ ⟨(), 0, fun _ => 0, 0⟩ := by
  rintro ⟨n, s', hrun⟩
  have hundecided : Undecided (octets "getinfo".toList) := by decide
  exact absurd (Exec.wp_ok (runConnectin_undecided n hundecided) hrun).1 (by decide)

end TinyXvc.Server
