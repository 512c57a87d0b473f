import Mathlib.Data.List.Basic
import Mathlib.Tactic

/-!
# Streams of commands

A service reads a stream command by command.  Each complete command is answered
with some events; the service may stop there, and it stops where the stream does
not begin with a complete command.
-/

/-- A parser for the next command, and what is done with it in a state. -/
structure CommandStream (α κ ε σ : Type) where
  next : List α → Option (κ × List α)
  next_lt : ∀ s c rest, next s = some (c, rest) → rest.length < s.length
  serve : σ → κ → List ε × Option σ

namespace CommandStream

variable {α κ ε σ : Type} (S : CommandStream α κ ε σ)

/-- All events of a stream. -/
def answers (s : List α) (b : σ) : List ε :=
  match _h : S.next s with
  | none => []
  | some (c, rest) =>
      (S.serve b c).1 ++
        match (S.serve b c).2 with
        | none => []
        | some b' => answers rest b'
termination_by s.length
decreasing_by exact S.next_lt s c rest _h

/-- What is left where the stream does not begin with a complete command; `none`
if the service stops before. -/
def leftover (s : List α) (b : σ) : Option (List α) :=
  match _h : S.next s with
  | none => some s
  | some (c, rest) =>
      match (S.serve b c).2 with
      | none => none
      | some b' => leftover rest b'
termination_by s.length
decreasing_by exact S.next_lt s c rest _h

theorem answers_eq (s : List α) (b : σ) :
    S.answers s b = (S.next s).elim [] fun p =>
      (S.serve b p.1).1 ++ (S.serve b p.1).2.elim [] (S.answers p.2) := by
  rw [answers]
  split
  · rename_i h
    rw [h]
    rfl
  · rename_i c rest h
    rw [h, Option.elim_some]
    cases (S.serve b c).2 <;> rfl

theorem leftover_eq (s : List α) (b : σ) :
    S.leftover s b = (S.next s).elim (some s) fun p =>
      (S.serve b p.1).2.elim none (S.leftover p.2) := by
  rw [leftover]
  split
  · rename_i h
    rw [h]
    rfl
  · rename_i c rest h
    rw [h, Option.elim_some]
    cases (S.serve b c).2 <;> rfl

variable {S} {s rest : List α} {b b' : σ} {c : κ} {es : List ε}

/-! ## No command, the last one, and one more -/

theorem answers_of_none (h : S.next s = none) : S.answers s b = [] := by
  rw [answers_eq, h, Option.elim_none]

theorem answers_of_stopped (h : S.next s = some (c, rest)) (hserve : S.serve b c = (es, none)) :
    S.answers s b = es := by
  rw [answers_eq, h, Option.elim_some, hserve]
  exact List.append_nil es

theorem answers_of_served (h : S.next s = some (c, rest)) (hserve : S.serve b c = (es, some b')) :
    S.answers s b = es ++ S.answers rest b' := by
  rw [answers_eq, h, Option.elim_some, hserve, Option.elim_some]

theorem leftover_of_none (h : S.next s = none) : S.leftover s b = some s := by
  rw [leftover_eq, h, Option.elim_none]

theorem leftover_of_stopped (h : S.next s = some (c, rest)) (hserve : S.serve b c = (es, none)) :
    S.leftover s b = none := by
  rw [leftover_eq, h, Option.elim_some, hserve, Option.elim_none]

theorem leftover_of_served (h : S.next s = some (c, rest))
    (hserve : S.serve b c = (es, some b')) : S.leftover s b = S.leftover rest b' := by
  rw [leftover_eq, h, Option.elim_some, hserve, Option.elim_some]

/-! ## Commands one after the other -/

variable (S) in
/-- What a list of commands is answered, up to the one that the service stops at. -/
def serveAll (b : σ) : List κ → List ε × Option σ
  | [] => ([], some b)
  | c :: cs =>
      match S.serve b c with
      | (es, none) => (es, none)
      | (es, some b') => (es ++ (serveAll b' cs).1, (serveAll b' cs).2)

theorem serveAll_cons_stopped {cs : List κ} (h : S.serve b c = (es, none)) :
    S.serveAll b (c :: cs) = (es, none) := by
  rw [serveAll, h]

theorem serveAll_cons_served {cs : List κ} (h : S.serve b c = (es, some b')) :
    S.serveAll b (c :: cs) = (es ++ (S.serveAll b' cs).1, (S.serveAll b' cs).2) := by
  rw [serveAll, h]

/-- After commands that are all served, the next one is served in the state that they
have led to. -/
theorem serveAll_concat {cs : List κ} {fs : List ε} {o : Option σ}
    (hcs : S.serveAll b cs = (es, some b')) (hc : S.serve b' c = (fs, o)) :
    S.serveAll b (cs ++ [c]) = (es ++ fs, o) := by
  induction cs generalizing b es with
  | nil =>
      cases hcs
      cases o with
      | none => exact serveAll_cons_stopped hc
      | some b'' =>
          rw [List.nil_append, serveAll_cons_served hc]
          exact Prod.ext (List.append_nil fs) rfl
  | cons d ds ih =>
      cases hd : S.serve b d with
      | mk gs next =>
          cases next with
          | none =>
              rw [serveAll_cons_stopped hd] at hcs
              cases hcs
          | some b'' =>
              rw [serveAll_cons_served hd] at hcs
              have hds : S.serveAll b'' ds = ((S.serveAll b'' ds).1, some b') :=
                Prod.ext rfl (Prod.mk.inj hcs).2
              rw [List.cons_append, serveAll_cons_served hd, ih hds, ← (Prod.mk.inj hcs).1,
                List.append_assoc]

/-- Where the service stops, it has served all commands before. -/
theorem serveAll_eq_none {cs : List κ} (h : S.serveAll b cs = (es, none)) :
    ∃ pre c post fs b' gs, cs = pre ++ c :: post ∧ S.serveAll b pre = (fs, some b') ∧
      S.serve b' c = (gs, none) ∧ es = fs ++ gs := by
  induction cs generalizing b es with
  | nil => cases h
  | cons d ds ih =>
      cases hd : S.serve b d with
      | mk gs next =>
          cases next with
          | none =>
              rw [serveAll_cons_stopped hd] at h
              cases h
              exact ⟨[], d, ds, [], b, es, rfl, rfl, hd, rfl⟩
          | some b₁ =>
              rw [serveAll_cons_served hd] at h
              obtain ⟨hes, hnone⟩ := Prod.mk.inj h
              have hds : S.serveAll b₁ ds = ((S.serveAll b₁ ds).1, none) := Prod.ext rfl hnone
              obtain ⟨pre, c, post, fs, b', gs', hcs, hpre, hc, htail⟩ := ih hds
              refine ⟨d :: pre, c, post, gs ++ fs, b', gs', congrArg (d :: ·) hcs, ?_, hc, ?_⟩
              · rw [serveAll_cons_served hd, hpre]
              · rw [← hes, htail, List.append_assoc]

/-- A service whose commands each lead to the state `f` leads through all of them. -/
theorem serveAll_eq_foldl {f : σ → κ → σ}
    (hf : ∀ {b : σ} {c : κ} {es : List ε} {b' : σ}, S.serve b c = (es, some b') → b' = f b c)
    {cs : List κ} (h : S.serveAll b cs = (es, some b')) : b' = cs.foldl f b := by
  induction cs generalizing b es with
  | nil =>
      cases h
      rfl
  | cons c cs ih =>
      cases hc : S.serve b c with
      | mk fs next =>
          cases next with
          | none =>
              rw [serveAll_cons_stopped hc] at h
              cases h
          | some b₁ =>
              rw [serveAll_cons_served hc] at h
              rw [List.foldl_cons, ← hf hc]
              apply ih
              exact Prod.ext rfl (Prod.mk.inj h).2

/-- A stream of encoded commands is answered like these commands. -/
theorem answers_encode {encode : κ → List α} (cs : List κ)
    (hnext : ∀ c ∈ cs, ∀ rest, S.next (encode c ++ rest) = some (c, rest)) (b : σ) :
    S.answers (cs.flatMap encode ++ rest) b =
      (S.serveAll b cs).1 ++ (S.serveAll b cs).2.elim [] (S.answers rest) := by
  induction cs generalizing b with
  | nil => rfl
  | cons c cs ih =>
      obtain ⟨hc, hcs⟩ := List.forall_mem_cons.mp hnext
      rw [List.flatMap_cons, List.append_assoc]
      cases hserve : S.serve b c with
      | mk es next =>
          cases next with
          | none =>
              rw [serveAll_cons_stopped hserve, answers_of_stopped (hc _) hserve]
              exact (List.append_nil es).symm
          | some b' =>
              rw [serveAll_cons_served hserve, answers_of_served (hc _) hserve, ih hcs,
                List.append_assoc]

/-! ## The commands of a stream -/

variable (S) in
/-- The complete commands that a stream begins with. -/
def parse (s : List α) : List κ :=
  match _h : S.next s with
  | none => []
  | some (c, rest) => c :: parse rest
termination_by s.length
decreasing_by exact S.next_lt s c rest _h

theorem parse_of_none (h : S.next s = none) : S.parse s = [] := by
  rw [parse]
  split
  · rfl
  · rename_i heq
    rw [h] at heq
    cases heq

theorem parse_of_next (h : S.next s = some (c, rest)) : S.parse s = c :: S.parse rest := by
  rw [parse]
  split
  · rename_i heq
    rw [h] at heq
    cases heq
  · rename_i c' rest' heq
    rw [h] at heq
    cases heq
    rfl

/-- What has been encoded is read back, up to what follows it. -/
theorem parse_encode {encode : κ → List α} (cs : List κ)
    (hnext : ∀ c ∈ cs, ∀ rest, S.next (encode c ++ rest) = some (c, rest)) :
    S.parse (cs.flatMap encode ++ rest) = cs ++ S.parse rest := by
  induction cs with
  | nil => rfl
  | cons c cs ih =>
      obtain ⟨hc, hcs⟩ := List.forall_mem_cons.mp hnext
      rw [List.flatMap_cons, List.append_assoc, parse_of_next (hc _), ih hcs, List.cons_append]

/-! ## Services that can not be told apart -/

variable (S) in
/-- The service comes to the stream `s'` in the state `b'`. -/
inductive Comes : List α → σ → List α → σ → Prop
  | here (s : List α) (b : σ) : Comes s b s b
  | next {s rest s' : List α} {b b' b'' : σ} {c : κ} {es : List ε} :
      S.next s = some (c, rest) → S.serve b c = (es, some b') → Comes rest b' s' b'' →
        Comes s b s' b''

/-- Two services answer alike if they do so for every command that the first one
comes to, and relate the states that they go on in. -/
theorem answers_congr {T : CommandStream α κ ε σ} {R : σ → σ → Prop} (hnext : T.next = S.next)
    {s : List α} {b b' : σ}
    (hserve : ∀ t d d' c rest, S.Comes s b t d → S.next t = some (c, rest) → R d d' →
      (S.serve d c).1 = (T.serve d' c).1 ∧ Option.Rel R (S.serve d c).2 (T.serve d' c).2)
    (hR : R b b') : S.answers s b = T.answers s b' := by
  induction hn : s.length using Nat.strong_induction_on generalizing s b b' with
  | _ n ih =>
      subst hn
      cases hs : S.next s with
      | none =>
          have hs' : T.next s = none := by rw [hnext, hs]
          rw [answers_of_none hs, answers_of_none hs']
      | some p =>
          obtain ⟨c, rest⟩ := p
          have hs' : T.next s = some (c, rest) := by rw [hnext, hs]
          obtain ⟨hevents, hstates⟩ := hserve s b b' c rest (.here s b) hs hR
          generalize hq : S.serve b c = q at hevents hstates
          generalize hq' : T.serve b' c = q' at hevents hstates
          obtain ⟨es, o⟩ := q
          obtain ⟨es', o'⟩ := q'
          dsimp only at hevents hstates
          rcases hstates with hd | _
          · rename_i d d'
            rw [answers_of_served hs hq, answers_of_served hs' hq', hevents]
            congr 1
            refine ih _ (S.next_lt s c rest hs) (fun t u u' c' rest' hcomes => ?_) hd rfl
            exact hserve t u u' c' rest' (.next hs hq hcomes)
          · rw [answers_of_stopped hs hq, answers_of_stopped hs' hq', hevents]

end CommandStream
