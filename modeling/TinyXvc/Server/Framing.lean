import TinyXvc.Server.Conformance

/-!
# The commands in the stream of a client

A client writes its commands one after the other.  The reference parser reads back
what was written, and reads nothing else, so at every moment of a connection the
stream is the commands that have been served and the bytes that have not been read.
-/

namespace TinyXvc.Server

open CommandStream

/-- The octets of a command. -/
def Command.encode : Command → List UInt8
  | .getinfo => getinfoWord
  | .settck tckPeriodNs => settckWord ++ LittleEndian.octets tckPeriodNs
  | .shift numBits tms tdi => shiftWord ++ (LittleEndian.octets numBits ++ (tms ++ tdi))

/-- Its numbers are not negative as `int`s, and its vectors have the octets of their bits. -/
def Command.WellFormed : Command → Prop
  | .getinfo => True
  | .settck tckPeriodNs => tckPeriodNs < 2 ^ 31
  | .shift numBits tms tdi => 0 < numBits ∧ numBits < 2 ^ 31 ∧
      tms.length = vectorOctets numBits ∧ tdi.length = vectorOctets numBits

instance : DecidablePred Command.WellFormed := fun c =>
  match c with
  | .getinfo => inferInstanceAs (Decidable True)
  | .settck _ => inferInstanceAs (Decidable (_ < _))
  | .shift _ _ _ => inferInstanceAs (Decidable (_ ∧ _ ∧ _ ∧ _))

/-! ## The parser is the inverse of the encoder -/

theorem readInt_eq_some {s rest : List UInt8} {n : ℕ} :
    readInt s = some ((n : ℤ), rest) ↔ n < 2 ^ 31 ∧ s = LittleEndian.octets n ++ rest := by
  have hsplit := List.take_append_drop 4 s
  unfold readInt
  constructor
  · intro h
    split at h
    · rename_i hlen
      obtain ⟨hn, rfl⟩ := Prod.mk.inj (Option.some.inj h)
      have hfour : (s.take 4).length = 4 := List.length_take_of_le hlen
      have hvalue := LittleEndian.value_lt (s.take 4)
      rw [hfour] at hvalue
      -- an `int` that is not negative is the number itself
      have hsame : LittleEndian.value (s.take 4) = n ∧ n < 2 ^ 31 := by
        rw [Int.bmod_eq_emod] at hn
        split at hn
        · omega
        · omega
      obtain ⟨rfl, hlt⟩ := hsame
      exact ⟨hlt, by rw [LittleEndian.octets_value hfour, hsplit]⟩
    · cases h
  · rintro ⟨hn, rfl⟩
    have htake : (LittleEndian.octets n ++ rest).take 4 = LittleEndian.octets n :=
      List.take_left' (LittleEndian.length_octets n)
    have hdrop : (LittleEndian.octets n ++ rest).drop 4 = rest :=
      List.drop_left' (LittleEndian.length_octets n)
    have hlen : 4 ≤ (LittleEndian.octets n ++ rest).length := by
      rw [List.length_append, LittleEndian.length_octets]
      exact Nat.le_add_right 4 _
    have hmod : ((n : ℤ)).bmod (2 ^ 32) = n := by
      rw [Int.bmod_eq_emod]
      split
      · omega
      · omega
    rw [if_pos hlen, htake, hdrop, LittleEndian.value_octets (by omega), hmod]

theorem readSettck_eq_some {s rest : List UInt8} {c : Command} :
    readSettck s = some (c, rest) ↔
      ∃ period : ℕ, c = .settck period ∧ period < 2 ^ 31 ∧
        s = LittleEndian.octets period ++ rest := by
  unfold readSettck
  rw [Option.bind_eq_some_iff]
  constructor
  · rintro ⟨⟨n, rest'⟩, hint, h⟩
    dsimp only at h
    split at h
    · rename_i hpos
      cases h
      rw [← Int.toNat_of_nonneg hpos, readInt_eq_some] at hint
      exact ⟨n.toNat, rfl, hint⟩
    · cases h
  · rintro ⟨period, rfl, hint⟩
    exact ⟨_, readInt_eq_some.mpr hint, if_pos (Int.natCast_nonneg period)⟩

theorem readShift_eq_some {s rest : List UInt8} {c : Command} :
    readShift s = some (c, rest) ↔
      ∃ (numBits : ℕ) (tms tdi : List UInt8), c = .shift numBits tms tdi ∧ c.WellFormed ∧
        s = LittleEndian.octets numBits ++ (tms ++ tdi) ++ rest := by
  unfold readShift
  rw [Option.bind_eq_some_iff]
  constructor
  · rintro ⟨⟨n, vectors⟩, hint, h⟩
    dsimp only at h
    split at h
    · rename_i hfits
      obtain ⟨hpos, hlen⟩ := hfits
      cases h
      rw [← Int.toNat_of_nonneg hpos.le, readInt_eq_some] at hint
      obtain ⟨hlt, rfl⟩ := hint
      refine ⟨n.toNat, _, _, rfl, ⟨by omega, hlt, ?_, ?_⟩, ?_⟩
      · rw [List.length_take]
        omega
      · rw [List.length_take, List.length_drop]
        omega
      · have hrest : vectors.drop (2 * vectorOctets n.toNat) =
            (vectors.drop (vectorOctets n.toNat)).drop (vectorOctets n.toNat) := by
          rw [List.drop_drop, Nat.two_mul]
        rw [hrest, List.append_assoc, List.append_assoc, List.take_append_drop,
          List.take_append_drop]
    · cases h
  · rintro ⟨numBits, tms, tdi, rfl, ⟨hpos, hlt, htms, htdi⟩, rfl⟩
    have hint : readInt (LittleEndian.octets numBits ++ (tms ++ tdi) ++ rest) =
        some ((numBits : ℤ), tms ++ (tdi ++ rest)) := by
      rw [readInt_eq_some]
      refine ⟨hlt, ?_⟩
      simp only [List.append_assoc]
    refine ⟨_, hint, ?_⟩
    have hfits : (0 : ℤ) < numBits ∧
        2 * vectorOctets (numBits : ℤ).toNat ≤ (tms ++ (tdi ++ rest)).length := by
      rw [Int.toNat_natCast, List.length_append, List.length_append, htms, htdi]
      omega
    have hrest : (tms ++ (tdi ++ rest)).drop (2 * vectorOctets numBits) = rest := by
      rw [← List.append_assoc]
      exact List.drop_left' (by rw [List.length_append]; omega)
    dsimp only
    rw [if_pos hfits, Int.toNat_natCast, hrest, List.take_left' htms, List.drop_left' htms,
      List.take_left' htdi]

theorem nextCommand_word_append (w : Cmd) (s : List UInt8) :
    nextCommand (w.word ++ s) = afterWord w s := by
  rw [nextCommand_of_word (List.prefix_append w.word s), List.drop_left]

/-- The parser finds a command exactly where its octets are. -/
theorem nextCommand_eq_some {s rest : List UInt8} {c : Command} :
    nextCommand s = some (c, rest) ↔ c.WellFormed ∧ s = c.encode ++ rest := by
  constructor
  · intro h
    by_cases hword : ∃ w : Cmd, w.word <+: s
    · obtain ⟨w, payload, rfl⟩ := hword
      rw [nextCommand_word_append] at h
      cases w with
      | getinfo =>
          cases h
          exact ⟨trivial, rfl⟩
      | settck =>
          obtain ⟨period, rfl, hperiod, rfl⟩ := readSettck_eq_some.mp h
          exact ⟨hperiod, (List.append_assoc ..).symm⟩
      | shift =>
          obtain ⟨numBits, tms, tdi, rfl, hc, rfl⟩ := readShift_eq_some.mp h
          exact ⟨hc, (List.append_assoc ..).symm⟩
    · rw [nextCommand_of_no_word (not_exists.mp hword)] at h
      cases h
  · rintro ⟨hc, rfl⟩
    cases c with
    | getinfo => exact nextCommand_word_append .getinfo rest
    | settck period =>
        rw [Command.encode, ← word_settck, List.append_assoc, nextCommand_word_append .settck]
        exact readSettck_eq_some.mpr ⟨period, rfl, hc, rfl⟩
    | shift numBits tms tdi =>
        rw [Command.encode, ← word_shift, List.append_assoc, nextCommand_word_append .shift]
        exact readShift_eq_some.mpr ⟨numBits, tms, tdi, rfl, hc, rfl⟩

theorem nextCommand_eq_none {s : List UInt8} :
    nextCommand s = none ↔ ∀ c : Command, c.WellFormed → ¬c.encode <+: s := by
  constructor
  · rintro hnone c hc ⟨rest, rfl⟩
    rw [nextCommand_eq_some.mpr ⟨hc, rfl⟩] at hnone
    cases hnone
  · intro h
    by_contra hsome
    obtain ⟨⟨c, rest⟩, hnext⟩ := Option.ne_none_iff_exists'.mp hsome
    obtain ⟨hc, rfl⟩ := nextCommand_eq_some.mp hnext
    exact h c hc (List.prefix_append ..)

/-! ## The commands that have been served -/

/-- The octets of the commands of a client. -/
def encodeAll (cmds : List Command) : List UInt8 := cmds.flatMap Command.encode

theorem encodeAll_append (cmds cmds' : List Command) :
    encodeAll (cmds ++ cmds') = encodeAll cmds ++ encodeAll cmds' := List.flatMap_append

theorem encodeAll_concat (cmds : List Command) (c : Command) (rest : List UInt8) :
    encodeAll cmds ++ (c.encode ++ rest) = encodeAll (cmds ++ [c]) ++ rest := by
  rw [encodeAll_append, List.append_assoc, encodeAll, encodeAll, List.flatMap_singleton]

section Runs

variable {δ : Type} (D : Driver δ) (heap : ℕ → Octets)

/-- The stream up to the unread octets is `cmds`, and they have been served. -/
structure Framed (io : Client) (b : Backend δ) (cmds : List Command) (s : Conn δ) : Prop where
  wellFormed : ∀ c ∈ cmds, c.WellFormed
  stream : io.stream = encodeAll cmds ++ s.unread
  served : (xvc D heap).serveAll b cmds = (s.trace, some s.backend)

/-- The connection has come to its end after `cmds`: the driver has failed at the last
of them, or no command follows. -/
structure FramedEnd (io : Client) (b : Backend δ) (cmds : List Command) (rest : List UInt8)
    (trace : List Event) : Prop where
  wellFormed : ∀ c ∈ cmds, c.WellFormed
  stream : io.stream = encodeAll cmds ++ rest
  served : ((xvc D heap).serveAll b cmds).1 = trace
  ends : ((xvc D heap).serveAll b cmds).2 = none ∨ ∀ c : Command, c.WellFormed → ¬c.encode <+: rest

variable {D heap} {io : Client} {b : Backend δ} {cmds : List Command} {s s' : Conn δ}

theorem framed_start (io : Client) (b : Backend δ) : Framed D heap io b [] (io.start b) :=
  ⟨fun _ h => absurd h List.not_mem_nil, rfl, rfl⟩

theorem Framed.append_wellFormed (h : Framed D heap io b cmds s) {c : Command}
    (hc : c.WellFormed) : ∀ d ∈ cmds ++ [c], d.WellFormed := by
  intro d hd
  rcases List.mem_append.mp hd with hd | hd
  · exact h.wellFormed d hd
  · exact List.mem_singleton.mp hd ▸ hc

theorem Framed.stops (h : Framed D heap io b cmds s) (hstops : Stops D heap s s') :
    ∃ cmds' rest, FramedEnd D heap io b cmds' rest s'.trace := by
  rcases hstops with ⟨hnext, -, htrace⟩ | ⟨c, rest, es, hnext, hserve, htrace⟩
  · refine ⟨cmds, s.unread, h.wellFormed, h.stream, ?_, .inr (nextCommand_eq_none.mp hnext)⟩
    rw [h.served, htrace]
  · obtain ⟨hc, hunread⟩ := nextCommand_eq_some.mp hnext
    have hserved := CommandStream.serveAll_concat (S := xvc D heap) h.served hserve
    refine ⟨cmds ++ [c], rest, h.append_wellFormed hc, ?_, ?_, .inl ?_⟩
    · rw [h.stream, hunread, encodeAll_concat]
    · rw [hserved, htrace]
    · rw [hserved]

theorem Framed.serves (h : Framed D heap io b cmds s) (hserves : Serves D heap s s') :
    ∃ cmds', Framed D heap io b cmds' s' := by
  obtain ⟨c, rest, es, hnext, hserve, htrace, hrest⟩ := hserves
  obtain ⟨hc, hunread⟩ := nextCommand_eq_some.mp hnext
  refine ⟨cmds ++ [c], h.append_wellFormed hc, ?_, ?_⟩
  · rw [h.stream, hunread, hrest, encodeAll_concat]
  · rw [htrace]
    exact CommandStream.serveAll_concat (S := xvc D heap) h.served hserve

theorem Framed.waits (h : Framed D heap io b cmds s) (hwaits : Waits io s s') :
    Framed D heap io b cmds s' := by
  obtain ⟨rfl, -⟩ := hwaits
  exact ⟨h.wellFormed, h.stream, h.served⟩

theorem Framed.stall (h : Framed D heap io b cmds s) (hstall : RoundStall io s s') :
    FramedEnd D heap io b cmds s.unread s'.trace := by
  obtain ⟨-, hnext, htrace⟩ := hstall
  refine ⟨h.wellFormed, h.stream, ?_, .inr (nextCommand_eq_none.mp hnext)⟩
  rw [h.served, htrace]

theorem runConnectin_framed (n : ℕ) (h : Framed D heap io b cmds s) :
    Exec.wp (runConnectin D heap io n)
      (fun returned s' =>
        if returned then ∃ cmds' rest, FramedEnd D heap io b cmds' rest s'.trace
        else ∃ cmds', Framed D heap io b cmds' s')
      (fun _ s' => ∃ cmds' rest, FramedEnd D heap io b cmds' rest s'.trace) s := by
  induction n generalizing s cmds with
  | zero => exact ⟨cmds, h⟩
  | succ n ih =>
      rw [runConnectin, Exec.wp_bind]
      refine Exec.wp_mono (connectionRound_spec s) ?_ fun _ _ hstall => ⟨cmds, _, h.stall hstall⟩
      intro returned s' hround
      cases returned with
      | true => exact h.stops hround
      | false =>
          rcases hround with hserves | hwaits
          · obtain ⟨cmds', h'⟩ := h.serves hserves
            exact ih h'
          · exact ih (h.waits hwaits)

end Runs

/-- A stream of commands is answered like them, and then like what follows. -/
theorem trace_of_commands {δ : Type} (D : Driver δ) (heap : ℕ → Octets) {cmds : List Command}
    (hcmds : ∀ c ∈ cmds, c.WellFormed) (rest : List UInt8) (closes : Bool) (sch : Schedule)
    (b : Backend δ) :
    let io : Client := ⟨encodeAll cmds ++ rest, closes, sch.toArrivals⟩
    let served := (xvc D heap).serveAll b cmds
    ∃ m, ∀ n ≥ m, traceOf (runConnectin D heap io n (io.start b)) =
      served.1 ++ served.2.elim [] ((xvc D heap).answers rest) := by
  intro io served
  have hnext : ∀ c ∈ cmds, ∀ after, (xvc D heap).next (c.encode ++ after) = some (c, after) :=
    fun c hc _ => nextCommand_eq_some.mpr ⟨hcmds c hc, rfl⟩
  have hstart : Remains D heap io ((xvc D heap).answers io.stream b)
      ((xvc D heap).leftover io.stream b) (io.start b) := start_remains b
  obtain ⟨m, hm⟩ := trace_complete (sch.exists_showsAll io.stream closes) hstart
  refine ⟨m, fun n hn => ?_⟩
  rw [hm n hn]
  exact CommandStream.answers_encode (S := xvc D heap) cmds hnext b

/-- Every command that a client writes is served in the end, whatever follows it. -/
theorem commands_served {δ : Type} (D : Driver δ) (heap : ℕ → Octets) {cmds : List Command}
    (hcmds : ∀ c ∈ cmds, c.WellFormed) (rest : List UInt8) (closes : Bool) (sch : Schedule)
    (b : Backend δ) :
    let io : Client := ⟨encodeAll cmds ++ rest, closes, sch.toArrivals⟩
    ∃ m, ∀ n ≥ m, ((xvc D heap).serveAll b cmds).1 <+:
      traceOf (runConnectin D heap io n (io.start b)) := by
  intro io
  obtain ⟨m, hm⟩ := trace_of_commands D heap hcmds rest closes sch b
  exact ⟨m, fun n hn => ⟨_, (hm n hn).symm⟩⟩

/-- Whatever arrives and however the driver answers, the connection has served whole
commands in their order, and the octets after them are unread; where it ends, the driver
has failed or no command follows.  Every command that is written is served in the end. -/
theorem connection_frames {δ : Type} (D : Driver δ) (heap : ℕ → Octets) (io : Client)
    (b : Backend δ) :
    (∀ n, Exec.wp (runConnectin D heap io n)
      (fun returned s =>
        if returned then ∃ cmds rest, FramedEnd D heap io b cmds rest s.trace
        else ∃ cmds, Framed D heap io b cmds s)
      (fun _ s => ∃ cmds rest, FramedEnd D heap io b cmds rest s.trace) (io.start b)) ∧
      ∀ (sch : Schedule) (cmds : List Command) (rest : List UInt8),
        io.arrivals = sch.toArrivals → (∀ c ∈ cmds, c.WellFormed) →
          io.stream = encodeAll cmds ++ rest → ∃ m, ∀ n ≥ m,
            ((xvc D heap).serveAll b cmds).1 <+:
              traceOf (runConnectin D heap io n (io.start b)) := by
  refine ⟨fun n => runConnectin_framed n (framed_start io b), ?_⟩
  rintro sch cmds rest harrivals hcmds hstream
  obtain ⟨stream, closes, arrivals⟩ := io
  dsimp only at harrivals hstream
  subst harrivals hstream
  exact commands_served D heap hcmds rest closes sch b

/-- A shift of three bits, with the first octets of another command behind it. -/
theorem connection_frames_shift :
    ∃ m, ∀ n ≥ m, ((xvc idleDriver fun _ _ => 7).serveAll ⟨(), 0, fun _ => 0, 0⟩
        [.getinfo, .shift 3 [0xab] [0xcd]]).1 <+:
      traceOf (runConnectin idleDriver (fun _ _ => 7)
        ⟨encodeAll [.getinfo, .shift 3 [0xab] [0xcd]] ++ octets "sett".toList, true,
          promptSchedule.toArrivals⟩ n
        (Client.start ⟨encodeAll [.getinfo, .shift 3 [0xab] [0xcd]] ++ octets "sett".toList, true,
          promptSchedule.toArrivals⟩ ⟨(), 0, fun _ => 0, 0⟩)) :=
  (connection_frames idleDriver (fun _ _ => 7)
    ⟨encodeAll [.getinfo, .shift 3 [0xab] [0xcd]] ++ octets "sett".toList, true,
      promptSchedule.toArrivals⟩ ⟨(), 0, fun _ => 0, 0⟩).2 promptSchedule
    [.getinfo, .shift 3 [0xab] [0xcd]] (octets "sett".toList) rfl (by decide) rfl

end TinyXvc.Server
