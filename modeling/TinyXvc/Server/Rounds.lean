import TinyXvc.Server.Handlers

/-!
# The rounds of the loop

A round decides from the bytes that a peek shows.  It serves the next command,
ends the connection where the reference parser stops, or waits; it never takes
more from the socket than it has decided on.
-/

namespace TinyXvc.Server

/-! ## Words -/

/-- What follows the word of a command. -/
def afterWord : Cmd → List UInt8 → Option (Command × List UInt8)
  | .getinfo, s => some (.getinfo, s)
  | .settck, s => readSettck s
  | .shift, s => readShift s

theorem word_cases {p : List UInt8} {c c' : Cmd} (hc : c.word <+: p) (hc' : c'.word <+: p) :
    c = c' := by
  obtain ⟨t, rfl⟩ := hc
  have htwo : (c.word ++ t).take 2 = c.word.take 2 := by cases c <;> rfl
  have htwo' : (c.word ++ t).take 2 = c'.word.take 2 := by
    obtain ⟨t', ht'⟩ := hc'
    rw [← ht']
    cases c' <;> rfl
  have hwords := htwo.symm.trans htwo'
  cases c <;> cases c' <;> first | rfl | exact absurd hwords (by decide)

theorem nextCommand_of_word {s : List UInt8} {c : Cmd} (hc : c.word <+: s) :
    nextCommand s = afterWord c (s.drop c.word.length) := by
  rw [nextCommand_eq]
  cases c with
  | getinfo =>
      rw [if_pos hc]
      rfl
  | settck =>
      have hgetinfo : ¬Cmd.getinfo.word <+: s := fun h => by cases word_cases h hc
      rw [if_neg hgetinfo, if_pos hc]
      rfl
  | shift =>
      have hgetinfo : ¬Cmd.getinfo.word <+: s := fun h => by cases word_cases h hc
      have hsettck : ¬Cmd.settck.word <+: s := fun h => by cases word_cases h hc
      rw [if_neg hgetinfo, if_neg hsettck, if_pos hc]
      rfl

theorem nextCommand_of_no_word {s : List UInt8} (h : ∀ c : Cmd, ¬c.word <+: s) :
    nextCommand s = none := by
  rw [nextCommand_eq, if_neg (h .getinfo), if_neg (h .settck), if_neg (h .shift)]

theorem length_word_le (c : Cmd) : c.word.length ≤ 8 := by cases c <;> decide

theorem not_undecided_of_word {s : List UInt8} {c : Cmd} (hc : c.word <+: s) : ¬Undecided s := by
  rintro ⟨-, hlen, hsettck, hshift⟩
  cases c with
  | getinfo => exact absurd hc.length_le (not_le.mpr hlen)
  | settck => exact hsettck hc
  | shift => exact hshift hc

/-! ## The dispatcher -/

theorem dispatch_cons (p : List UInt8) (c : Cmd) (cs : List Cmd) (again : Bool) :
    dispatch p (c :: cs) again =
      if p.length < c.word.length then dispatch p cs true
      else if c.word <+: p then .handle c else dispatch p cs again := by
  rw [dispatch]
  split
  · rfl
  · have hiff : p.take c.word.length = c.word ↔ c.word <+: p :=
      ⟨fun h => h ▸ List.take_prefix .., fun h => (List.prefix_iff_eq_take.mp h).symm⟩
    simp only [hiff]

theorem dispatch_of_word {p : List UInt8} {c : Cmd} (hc : c.word <+: p) (again : Bool) :
    ∀ cs, c ∈ cs → dispatch p cs again = .handle c := by
  intro cs hmem
  induction cs generalizing again with
  | nil => cases hmem
  | cons c' cs ih =>
      rw [dispatch_cons]
      by_cases heq : c' = c
      · subst heq
        rw [if_neg (not_lt.mpr hc.length_le), if_pos hc]
      · have hmem' : c ∈ cs := (List.mem_cons.mp hmem).resolve_left fun h => heq h.symm
        have hnot : ¬c'.word <+: p := fun h => heq (word_cases h hc)
        rw [if_neg hnot, ih true hmem', ih again hmem', ite_self]

/-- Without a word the dispatcher gives up as soon as every word has been compared. -/
theorem dispatch_of_no_word {p : List UInt8} (h : ∀ c : Cmd, ¬c.word <+: p) (again : Bool) :
    ∀ cs, dispatch p cs again =
      if again = true ∨ ∃ c ∈ cs, p.length < c.word.length then .peekAgain else .notRecognized := by
  intro cs
  induction cs generalizing again with
  | nil => cases again <;> simp [dispatch]
  | cons c cs ih =>
      rw [dispatch_cons, if_neg (h c)]
      by_cases hshort : p.length < c.word.length
      · rw [if_pos hshort, ih, if_pos (.inl rfl), if_pos (.inr ⟨c, List.mem_cons_self, hshort⟩)]
      · rw [if_neg hshort, ih]
        congr 1
        simp [hshort]

theorem dispatch_commands_of_no_word {p : List UInt8} (h : ∀ c : Cmd, ¬c.word <+: p) :
    dispatch p commands false = if p.length < 8 then .peekAgain else .notRecognized := by
  rw [dispatch_of_no_word h]
  have hiff : (false = true ∨ ∃ c ∈ commands, p.length < c.word.length) ↔ p.length < 8 := by
    constructor
    · rintro (h | ⟨c, -, hlt⟩)
      · cases h
      · exact hlt.trans_le (length_word_le c)
    · exact fun hlt => .inr ⟨.getinfo, List.mem_cons_self, hlt⟩
  simp only [hiff]

/-! ## One round -/

section Round

variable {δ : Type} {D : Driver δ} {heap : ℕ → Octets} {io : Client} {s : Conn δ}

theorem handler_spec (c : Cmd) (s : Conn δ) :
    Exec.wp (c.handler D heap io) (Handled D heap s (afterWord c s.unread))
      (fun _ => Stalled io s (afterWord c s.unread)) s := by
  cases c with
  | getinfo => exact Exec.wp_mono (cmdGetinfo_spec s) (fun _ _ h => h) (fun _ _ h => h.elim)
  | settck => exact cmdSettck_spec s
  | shift => exact cmdShift_spec s

variable (io) in
/-- At this peek the whole stream has arrived, and the peek shows enough for any word. -/
def Client.ShowsAll (k : ℕ) : Prop :=
  io.stream.length ≤ io.arrivals.arrived k ∧ 8 ≤ io.arrivals.shown k

/-- A peek shows the first of the unread bytes. -/
theorem wp_recvPeek {Q : List UInt8 → Conn δ → Prop} {E : Stall → Conn δ → Prop}
    (hclosed : s.unread = [] → Q [] { s with peeks := s.peeks + 1 })
    (hstall : s.unread = [] → io.closes = false → E .waiting { s with peeks := s.peeks + 1 })
    (hpeek : ∀ p, s.unread ≠ [] → p ≠ [] → p <+: s.unread →
      p.length ≤ io.arrivals.shown s.peeks →
      (io.ShowsAll s.peeks → s.unread.length ≤ io.stream.length → p.length < 8 → p = s.unread) →
      Q p { s with peeks := s.peeks + 1 }) :
    Exec.wp (recvPeek io 16) Q E s := by
  unfold recvPeek
  rw [Exec.wp_bind, Exec.wp_get, Exec.wp_bind, Exec.wp_set]
  by_cases hnil : s.unread = []
  · rw [if_pos hnil]
    refine Exec.wp_ite (fun _ => hclosed hnil) fun hcloses => hstall hnil ?_
    simpa using hcloses
  · have hlen := List.length_pos_of_ne_nil hnil
    have hshown := io.arrivals.shown_pos s.peeks
    rw [if_neg hnil]
    refine hpeek _ hnil ?_ (List.take_prefix ..) ?_ fun hall hle hshort => ?_
    · intro htake
      have hlen' := congrArg List.length htake
      rw [List.length_take, List.length_nil, Client.ready] at hlen'
      omega
    · rw [List.length_take]
      omega
    · obtain ⟨harrived, hshows⟩ := hall
      have hready : io.ready s.peeks s.unread.length = s.unread.length := by
        unfold Client.ready
        omega
      rw [hready, List.length_take] at hshort
      rw [hready]
      exact List.take_of_length_le (by omega)

variable (D heap) in
/-- The reference parser stops here, and not only for want of bytes. -/
def Stops (s s' : Conn δ) : Prop :=
  (nextCommand s.unread = none ∧ ¬Undecided s.unread ∧ s'.trace = s.trace) ∨
    ∃ c rest es, nextCommand s.unread = some (c, rest) ∧ serve D heap s.backend c = (es, none) ∧
      s'.trace = s.trace ++ es

variable (D heap) in
/-- The next command has been served. -/
def Serves (s s' : Conn δ) : Prop :=
  ∃ c rest es, nextCommand s.unread = some (c, rest) ∧
    serve D heap s.backend c = (es, some s'.backend) ∧ s'.trace = s.trace ++ es ∧ s'.unread = rest

variable (io) in
/-- Too few bytes have been seen. -/
def Waits (s s' : Conn δ) : Prop :=
  s' = { s with peeks := s.peeks + 1 } ∧
    (io.ShowsAll s.peeks → s.unread.length ≤ io.stream.length → Undecided s.unread)

variable (D heap io) in
/-- What a round comes to. -/
def RoundEnd (s : Conn δ) (returned : Bool) (s' : Conn δ) : Prop :=
  if returned then Stops D heap s s' else Serves D heap s s' ∨ Waits io s s'

variable (io) in
/-- The round waits for bytes that do not come. -/
def RoundStall (s s' : Conn δ) : Prop :=
  io.closes = false ∧ nextCommand s.unread = none ∧ s'.trace = s.trace

theorem handle_spec {c : Cmd} (hc : c.word <+: s.unread) {t : Conn δ}
    (ht : t = { s with peeks := s.peeks + 1 }) :
    Exec.wp (do
        let popped ← recvWaitAll io c.word.length
        if popped.length ≠ c.word.length then pure true
        else if ← c.handler D heap io then pure false
        else pure true)
      (RoundEnd D heap io s) (fun _ => RoundStall io s) t := by
  subst ht
  have hle : c.word.length ≤ s.unread.length := hc.length_le
  have hnext := nextCommand_of_word hc
  rw [Exec.wp_bind]
  refine wp_recvWaitAll (fun _ => ?_) (fun hlt => absurd hlt (not_lt.mpr hle))
    (fun hlt => absurd hlt (not_lt.mpr hle))
  have hlen : ¬(s.unread.take c.word.length).length ≠ c.word.length :=
    not_not.mpr (List.length_take_of_le hle)
  rw [if_neg hlen, Exec.wp_bind]
  refine Exec.wp_mono (handler_spec c _) ?_ ?_
  · intro ok s' hhandled
    dsimp only at hhandled
    rw [← hnext] at hhandled
    unfold Handled at hhandled
    cases hcommand : nextCommand s.unread with
    | none =>
        rw [hcommand] at hhandled
        obtain ⟨rfl, htrace⟩ := hhandled
        exact .inl ⟨hcommand, not_undecided_of_word hc, htrace⟩
    | some p =>
        obtain ⟨command, rest⟩ := p
        rw [hcommand] at hhandled
        obtain ⟨htrace, hafter⟩ := hhandled
        dsimp only at htrace hafter
        cases hserve : serve D heap s.backend command with
        | mk es next =>
            rw [hserve] at htrace hafter
            cases next with
            | none =>
                dsimp only at hafter
                subst hafter
                exact .inr ⟨command, rest, es, hcommand, hserve, htrace⟩
            | some b =>
                obtain ⟨rfl, rfl, hunread⟩ := hafter
                exact .inl ⟨command, rest, es, hcommand, hserve, htrace, hunread⟩
  · rintro _ s' ⟨hcloses, hcommand, htrace⟩
    dsimp only at hcommand
    exact ⟨hcloses, hnext.trans hcommand, htrace⟩

theorem connectionRound_spec (s : Conn δ) :
    Exec.wp (connectionRound D heap io) (RoundEnd D heap io s) (fun _ => RoundStall io s) s := by
  unfold connectionRound
  rw [Exec.wp_bind]
  refine wp_recvPeek (fun hnil => ?_) (fun hnil hcloses => ?_)
    (fun p hnil hp hprefix _ hall => ?_)
  · have hempty : ¬Undecided s.unread := fun h => h.1 hnil
    have hnext : nextCommand s.unread = none := by
      rw [hnil]
      decide
    exact .inl ⟨hnext, hempty, rfl⟩
  · refine ⟨hcloses, ?_, rfl⟩
    rw [hnil]
    decide
  · rw [if_neg hp]
    by_cases hword : ∃ c : Cmd, c.word <+: p
    · obtain ⟨c, hc⟩ := hword
      rw [dispatch_of_word hc false commands (by cases c <;> decide)]
      exact handle_spec (hc.trans hprefix) rfl
    · have hnone : ∀ c : Cmd, ¬c.word <+: p := not_exists.mp hword
      rw [dispatch_commands_of_no_word hnone]
      by_cases hshort : p.length < 8
      · rw [if_pos hshort]
        refine .inr ⟨rfl, fun hshows hle => ?_⟩
        have hwhole := hall hshows hle hshort
        subst hwhole
        exact ⟨hnil, hshort, hnone .settck, hnone .shift⟩
      · have hnoWord : ∀ c : Cmd, ¬c.word <+: s.unread := by
          intro c hc
          refine hnone c (List.prefix_of_prefix_length_le hc hprefix ?_)
          exact (length_word_le c).trans (not_lt.mp hshort)
        have hlong : ¬Undecided s.unread := by
          intro h
          exact absurd h.2.1 (not_lt.mpr ((not_lt.mp hshort).trans hprefix.length_le))
        rw [if_neg hshort]
        exact .inl ⟨nextCommand_of_no_word hnoWord, hlong, rfl⟩

/-- A peek that is too short for the word of the next command makes the round wait. -/
theorem connectionRound_short (hnil : s.unread ≠ []) (hshown : io.arrivals.shown s.peeks < 8)
    (hword : ∀ c : Cmd, c.word <+: s.unread → io.arrivals.shown s.peeks < c.word.length) :
    Exec.wp (connectionRound D heap io)
      (fun returned s' => returned = false ∧ s' = { s with peeks := s.peeks + 1 })
      (fun _ _ => False) s := by
  unfold connectionRound
  rw [Exec.wp_bind]
  refine wp_recvPeek (fun h => absurd h hnil) (fun h _ => absurd h hnil)
    (fun p _ hp hprefix hlen _ => ?_)
  have hnone : ∀ c : Cmd, ¬c.word <+: p := fun c hc =>
    absurd (hword c (hc.trans hprefix)) (not_lt.mpr (hc.length_le.trans hlen))
  rw [if_neg hp, dispatch_commands_of_no_word hnone, if_pos (hlen.trans_lt hshown)]
  exact ⟨rfl, rfl⟩

end Round

end TinyXvc.Server
