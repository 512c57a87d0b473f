import TinyXvc.Lib.Exec

/-!
# Two programs in lockstep

A program over concrete states follows one over abstract states: from the two
starting states both end normally with the same value, or both abort for the same
reason.  The rules walk through both programs at once, or through one of them
while the other one waits.
-/

namespace Exec

variable {ε σ τ α β γ : Type}

/-- How two runs end together. -/
inductive EndTogether (Q : α → σ → τ → Prop) (E : ε → σ → τ → Prop) :
    Except (ε × σ) (α × σ) → Except (ε × τ) (α × τ) → Prop
  | ok (a : α) {s : σ} {t : τ} : Q a s t → EndTogether Q E (.ok (a, s)) (.ok (a, t))
  | abort (e : ε) {s : σ} {t : τ} : E e s t → EndTogether Q E (.error (e, s)) (.error (e, t))

/-- `x` from `s` and `y` from `t` end together. -/
def both (x : Exec ε σ α) (y : Exec ε τ α) (Q : α → σ → τ → Prop) (E : ε → σ → τ → Prop) (s : σ)
    (t : τ) : Prop := EndTogether Q E (x s) (y t)

section Rules

variable {x : Exec ε σ α} {y : Exec ε τ α} {Q Q' : α → σ → τ → Prop} {E E' : ε → σ → τ → Prop}
  {s s' : σ} {t t' : τ}

theorem both_pure {a : α} (h : Q a s t) : both (pure a : Exec ε σ α) (pure a) Q E s t := .ok a h

theorem both_mono (h : both x y Q E s t) (hQ : ∀ a s t, Q a s t → Q' a s t)
    (hE : ∀ e s t, E e s t → E' e s t) : both x y Q' E' s t := by
  unfold both at h ⊢
  generalize x s = p at h
  generalize y t = q at h
  cases h with
  | ok a hq => exact .ok a (hQ _ _ _ hq)
  | abort e he => exact .abort e (hE _ _ _ he)

theorem both_bind {k : α → Exec ε σ β} {l : α → Exec ε τ β} {Q : β → σ → τ → Prop}
    (h : both x y (fun a s t => both (k a) (l a) Q E s t) E s t) :
    both (x >>= k) (y >>= l) Q E s t := by
  unfold both at h
  generalize hs : x s = p at h
  generalize ht : y t = q at h
  cases h with
  | ok a hq =>
      unfold both
      rw [bind_ok hs, bind_ok ht]
      exact hq
  | abort e he =>
      unfold both
      rw [bind_error hs, bind_error ht]
      exact .abort e he

/-- Both programs have done what is known of them. -/
theorem both_ok {a : α} (hx : x s = .ok (a, s')) (hy : y t = .ok (a, t')) (h : Q a s' t') :
    both x y Q E s t := by
  unfold both
  rw [hx, hy]
  exact .ok a h

/-- The second program has a result, and the first one is left to be run. -/
theorem both_of_right {a : α} {u : τ} (hy : y t = .ok (a, u))
    (hx : wp x (fun b s' => b = a ∧ Q a s' u) (fun _ _ => False) s) : both x y Q E s t := by
  obtain ⟨b, s', hrun, rfl, h⟩ := exists_ok hx
  exact both_ok hrun hy h

theorem both_left {x : Exec ε σ γ} {k : γ → Exec ε σ α} {c : γ} (hx : x s = .ok (c, s'))
    (h : both (k c) y Q E s' t) : both (x >>= k) y Q E s t := by
  unfold both
  rw [bind_ok hx]
  exact h

theorem both_right {y : Exec ε τ γ} {l : γ → Exec ε τ α} {c : γ} (hy : y t = .ok (c, t'))
    (h : both x (l c) Q E s t') : both x (y >>= l) Q E s t := by
  unfold both
  rw [bind_ok hy]
  exact h

theorem both_ite {c : Prop} [Decidable c] {x' : Exec ε σ α} {y' : Exec ε τ α}
    (h : c → both x y Q E s t) (h' : ¬c → both x' y' Q E s t) :
    both (if c then x else x') (if c then y else y') Q E s t := by
  split
  · exact h ‹c›
  · exact h' ‹¬c›

/-- What is known of the first program alone holds at the end of both. -/
theorem both_wp {P : α → σ → Prop} (h : both x y Q E s t) (hwp : wp x P (fun _ _ => True) s) :
    both x y (fun a s t => Q a s t ∧ P a s) E s t := by
  unfold both wp at *
  generalize x s = p at h hwp
  generalize y t = q at h
  cases h with
  | ok a hq => exact .ok a ⟨hq, hwp⟩
  | abort e he => exact .abort e he

end Rules

/-! ## As long as the first program ends normally -/

section Follows

variable {ε' α' β' : Type}

/-- If `x` from `s` ends normally, then `y` from `t` does, and `R` relates the ends. -/
def Follows (x : Exec ε σ α) (y : Exec ε' τ α') (R : α → α' → σ → τ → Prop) (s : σ) (t : τ) :
    Prop := ∀ a s', x s = .ok (a, s') → ∃ a' t', y t = .ok (a', t') ∧ R a a' s' t'

variable {x : Exec ε σ α} {y : Exec ε' τ α'} {s : σ} {t : τ}

theorem follows_of_wp {R : α → α' → σ → τ → Prop}
    (h : wp x (fun a s' => ∃ a' t', y t = .ok (a', t') ∧ R a a' s' t') (fun _ _ => True) s) :
    Follows x y R s t := fun _ _ hx => wp_ok h hx

theorem follows_pure {R : α → α' → σ → τ → Prop} {a : α} {a' : α'} (h : R a a' s t) :
    Follows (pure a : Exec ε σ α) (pure a' : Exec ε' τ α') R s t := by
  rintro _ _ ⟨⟩
  exact ⟨a', t, rfl, h⟩

theorem follows_mono {R R' : α → α' → σ → τ → Prop} (h : Follows x y R s t)
    (hR : ∀ a a' s t, R a a' s t → R' a a' s t) : Follows x y R' s t := by
  intro a s' hx
  obtain ⟨a', t', hy, hend⟩ := h a s' hx
  exact ⟨a', t', hy, hR _ _ _ _ hend⟩

theorem follows_bind {k : α → Exec ε σ β} {l : α' → Exec ε' τ β'} {R : β → β' → σ → τ → Prop}
    (h : Follows x y (fun a a' s t => Follows (k a) (l a') R s t) s t) :
    Follows (x >>= k) (y >>= l) R s t := by
  intro b s' hrun
  obtain ⟨a, s₁, hx, hk⟩ := bind_eq_ok hrun
  obtain ⟨a', t₁, hy, hend⟩ := h a s₁ hx
  obtain ⟨b', t', hl, hR⟩ := hend b s' hk
  exact ⟨b', t', (bind_ok hy).trans hl, hR⟩

theorem follows_ite {R : α → α' → σ → τ → Prop} {c c' : Prop} [Decidable c] [Decidable c']
    {x' : Exec ε σ α} {y' : Exec ε' τ α'} (hiff : c ↔ c') (h : c → Follows x y R s t)
    (h' : ¬c → Follows x' y' R s t) :
    Follows (if c then x else x') (if c' then y else y') R s t := by
  by_cases hc : c
  · rw [if_pos hc, if_pos (hiff.mp hc)]
    exact h hc
  · rw [if_neg hc, if_neg fun hc' => hc (hiff.mpr hc')]
    exact h' hc

theorem follows_get_bind {k : σ → Exec ε σ β} {l : τ → Exec ε' τ β'} {R : β → β' → σ → τ → Prop}
    (h : Follows (k s) (l t) R s t) : Follows (get >>= k) (get >>= l) R s t := h

theorem follows_set_bind {k : PUnit → Exec ε σ β} {l : PUnit → Exec ε' τ β'} {s' : σ} {t' : τ}
    {R : β → β' → σ → τ → Prop} (h : Follows (k ⟨⟩) (l ⟨⟩) R s' t') :
    Follows (set s' >>= k) (set t' >>= l) R s t := h

theorem follows_modify_bind {k : PUnit → Exec ε σ β} {f : σ → σ} {R : β → α' → σ → τ → Prop}
    (h : Follows (k ⟨⟩) y R (f s) t) : Follows (modify f >>= k) y R s t := h

theorem follows_congr_right {R : α → α' → σ → τ → Prop} {y' : Exec ε' τ α'} {t' : τ}
    (hy : y t = y' t') (h : Follows x y' R s t') : Follows x y R s t := by
  intro a s' hx
  rw [hy]
  exact h a s' hx

/-- The second program is ahead by a step that can not fail. -/
theorem follows_right {R : α → β' → σ → τ → Prop} {t' : τ} {a' : α'} {l : α' → Exec ε' τ β'}
    (hy : y t = .ok (a', t')) (h : Follows x (l a') R s t') : Follows x (y >>= l) R s t := by
  intro a s' hx
  obtain ⟨b', t'', hl, hR⟩ := h a s' hx
  exact ⟨b', t'', (bind_ok hy).trans hl, hR⟩

end Follows

/-! ## Lists of programs -/

/-- A simulation relation that every step keeps holds at the end of every run. -/
theorem both_mapM {R : σ → τ → Prop} {E : ε → σ → τ → Prop} {f : γ → Exec ε σ α}
    {g : γ → Exec ε τ α} {cs : List γ} {s : σ} {t : τ}
    (hstep : ∀ c ∈ cs, ∀ s t, R s t → both (f c) (g c) (fun _ s t => R s t) E s t) (h : R s t) :
    both (cs.mapM f) (cs.mapM g) (fun _ s t => R s t) E s t := by
  induction cs generalizing s t with
  | nil =>
      rw [List.mapM_nil, List.mapM_nil]
      exact both_pure h
  | cons c cs ih =>
      rw [List.mapM_cons, List.mapM_cons]
      apply both_bind
      refine both_mono (hstep c List.mem_cons_self s t h) (fun a s' t' h' => ?_) fun _ _ _ he => he
      apply both_bind
      refine both_mono (ih (fun d hd => hstep d (List.mem_cons_of_mem c hd)) h') ?_
        fun _ _ _ he => he
      intro as s'' t'' h''
      exact both_pure h''

end Exec
