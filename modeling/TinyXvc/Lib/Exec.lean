import Mathlib.Data.List.Basic
import Mathlib.Tactic

/-!
# Programs over a state that may abort

A program reads and writes a state of type `σ`, and returns a value or stops
with an abort reason of type `ε`; the state it stops in is kept.  The weakest
precondition `wp` speaks about both endings, so a rule never loses the runs
that abort.  Sequences of steps that stop at the first refusal are `List.allM`;
its invariant rule is proved here once.
-/

/-- Programs over the state `σ` that may abort with a reason of type `ε`. -/
abbrev Exec (ε σ α : Type) := StateT σ (Except (ε × σ)) α

namespace Exec

variable {ε σ α β γ : Type}

def abort (e : ε) : Exec ε σ α := fun s => .error (e, s)

/-- From `s`, a run of `x` ends normally in `Q`, or aborts in `E`. -/
def wp (x : Exec ε σ α) (Q : α → σ → Prop) (E : ε → σ → Prop) (s : σ) : Prop :=
  match x s with
  | .ok (a, s') => Q a s'
  | .error (e, s') => E e s'

@[simp] theorem wp_pure (a : α) (Q : α → σ → Prop) (E : ε → σ → Prop) (s : σ) :
    wp (pure a) Q E s ↔ Q a s := Iff.rfl

@[simp] theorem wp_bind (x : Exec ε σ α) (f : α → Exec ε σ β) (Q : β → σ → Prop)
    (E : ε → σ → Prop) (s : σ) :
    wp (x >>= f) Q E s ↔ wp x (fun a s' => wp (f a) Q E s') E s := by
  unfold wp
  cases hx : x s with
  | error e => simp [bind, StateT.bind, Except.bind, hx]
  | ok p => simp [bind, StateT.bind, Except.bind, hx]

@[simp] theorem wp_get (Q : σ → σ → Prop) (E : ε → σ → Prop) (s : σ) :
    wp get Q E s ↔ Q s s := Iff.rfl

@[simp] theorem wp_set (t : σ) (Q : PUnit → σ → Prop) (E : ε → σ → Prop) (s : σ) :
    wp (set t) Q E s ↔ Q ⟨⟩ t := Iff.rfl

@[simp] theorem wp_modify (f : σ → σ) (Q : PUnit → σ → Prop) (E : ε → σ → Prop) (s : σ) :
    wp (modify f) Q E s ↔ Q ⟨⟩ (f s) := Iff.rfl

@[simp] theorem wp_modifyGet (f : σ → α × σ) (Q : α → σ → Prop) (E : ε → σ → Prop) (s : σ) :
    wp (modifyGet f) Q E s ↔ Q (f s).1 (f s).2 := Iff.rfl

@[simp] theorem wp_abort (e : ε) (Q : α → σ → Prop) (E : ε → σ → Prop) (s : σ) :
    wp (abort e) Q E s ↔ E e s := Iff.rfl

theorem wp_ite {c : Prop} [Decidable c] {x y : Exec ε σ α} {Q : α → σ → Prop}
    {E : ε → σ → Prop} {s : σ} (hx : c → wp x Q E s) (hy : ¬c → wp y Q E s) :
    wp (if c then x else y) Q E s := by
  split
  · exact hx ‹c›
  · exact hy ‹¬c›

theorem wp_mono {x : Exec ε σ α} {Q Q' : α → σ → Prop} {E E' : ε → σ → Prop} {s : σ}
    (h : wp x Q E s) (hQ : ∀ a s', Q a s' → Q' a s') (hE : ∀ e s', E e s' → E' e s') :
    wp x Q' E' s := by
  unfold wp at h ⊢
  cases hx : x s with
  | error e => exact hE e.1 e.2 (by simpa [hx] using h)
  | ok p => exact hQ p.1 p.2 (by simpa [hx] using h)

theorem wp_and {x : Exec ε σ α} {Q Q' : α → σ → Prop} {E E' : ε → σ → Prop} {s : σ}
    (h : wp x Q E s) (h' : wp x Q' E' s) :
    wp x (fun a s' => Q a s' ∧ Q' a s') (fun e s' => E e s' ∧ E' e s') s := by
  unfold wp at h h' ⊢
  cases hx : x s with
  | error e => exact ⟨by simpa [hx] using h, by simpa [hx] using h'⟩
  | ok p => exact ⟨by simpa [hx] using h, by simpa [hx] using h'⟩

theorem wp_ok {x : Exec ε σ α} {Q : α → σ → Prop} {E : ε → σ → Prop} {s s' : σ} {a : α}
    (h : wp x Q E s) (hx : x s = .ok (a, s')) : Q a s' := by
  simpa [wp, hx] using h

theorem wp_error {x : Exec ε σ α} {Q : α → σ → Prop} {E : ε → σ → Prop} {s s' : σ} {e : ε}
    (h : wp x Q E s) (hx : x s = .error (e, s')) : E e s' := by
  simpa [wp, hx] using h

theorem wp_of_ok {x : Exec ε σ α} {Q : α → σ → Prop} {E : ε → σ → Prop} {s t : σ} {a : α}
    (hx : x s = .ok (a, t)) (h : Q a t) : wp x Q E s := by
  simpa [wp, hx] using h

/-- A program ends as it does. -/
theorem wp_self (x : Exec ε σ α) (s : σ) :
    wp x (fun a s' => x s = .ok (a, s')) (fun e s' => x s = .error (e, s')) s := by
  unfold wp
  cases x s <;> rfl

theorem wp_always {x : Exec ε σ α} {Q : α → σ → Prop} {E : ε → σ → Prop} {s : σ}
    (hQ : ∀ a s', Q a s') (hE : ∀ e s', E e s') : wp x Q E s := by
  unfold wp
  cases x s with
  | error e => exact hE e.1 e.2
  | ok p => exact hQ p.1 p.2

/-- Every run ends somehow. -/
theorem not_wp_false {x : Exec ε σ α} {s : σ} :
    ¬wp x (fun _ _ => False) (fun _ _ => False) s := by
  unfold wp
  cases x s <;> exact id

/-- A program whose runs can only end normally has a result. -/
theorem exists_ok {x : Exec ε σ α} {Q : α → σ → Prop} {s : σ}
    (h : wp x Q (fun _ _ => False) s) : ∃ a s', x s = .ok (a, s') ∧ Q a s' := by
  unfold wp at h
  cases hx : x s with
  | error e => simp [hx] at h
  | ok p => exact ⟨p.1, p.2, rfl, by simpa [hx] using h⟩

/-- A run ends normally, and its result passes the test. -/
def passes (x : Exec ε σ α) (s : σ) (test : α → σ → Bool) : Bool :=
  match x s with
  | .ok (a, s') => test a s'
  | .error _ => false

/-- A run that can be computed is found by a test of its result. -/
theorem exists_ok_of_test {x : Exec ε σ α} {s : σ} (test : α → σ → Bool)
    (h : passes x s test = true) : ∃ a s', x s = .ok (a, s') ∧ test a s' = true := by
  unfold passes at h
  cases hx : x s with
  | error e => simp [hx] at h
  | ok p => exact ⟨p.1, p.2, rfl, by simpa [hx] using h⟩

theorem bind_ok {x : Exec ε σ α} {f : α → Exec ε σ β} {s s' : σ} {a : α}
    (hx : x s = .ok (a, s')) : (x >>= f) s = f a s' := by
  simp [bind, StateT.bind, Except.bind, hx]

theorem bind_error {x : Exec ε σ α} {f : α → Exec ε σ β} {s : σ} {e : ε × σ}
    (hx : x s = .error e) : (x >>= f) s = .error e := by
  simp [bind, StateT.bind, Except.bind, hx]

theorem wp_bind_ok {x : Exec ε σ α} {f : α → Exec ε σ β} {Q : β → σ → Prop} {E : ε → σ → Prop}
    {s s' : σ} {a : α} (hx : x s = .ok (a, s')) : wp (x >>= f) Q E s ↔ wp (f a) Q E s' := by
  unfold wp
  rw [bind_ok hx]

theorem get_bind (f : σ → Exec ε σ β) (s : σ) : (get >>= f) s = f s s := rfl

/-- Inversion of a sequential composition that ended normally. -/
theorem bind_eq_ok {x : Exec ε σ α} {f : α → Exec ε σ β} {s t : σ} {b : β}
    (h : (x >>= f) s = .ok (b, t)) :
    ∃ a s', x s = .ok (a, s') ∧ f a s' = .ok (b, t) := by
  cases hx : x s with
  | error e => rw [bind_error hx] at h; cases h
  | ok p => exact ⟨p.1, p.2, rfl, by rw [← h, bind_ok hx]⟩

theorem bind_eq_error {x : Exec ε σ α} {f : α → Exec ε σ β} {s : σ} {e : ε × σ}
    (h : (x >>= f) s = .error e) :
    x s = .error e ∨ ∃ a s', x s = .ok (a, s') ∧ f a s' = .error e := by
  cases hx : x s with
  | error e' =>
      rw [bind_error hx] at h
      cases h
      exact .inl rfl
  | ok p => exact .inr ⟨p.1, p.2, rfl, by rw [← h, bind_ok hx]⟩

/-- Two continuations that agree on the results of `x` make the same program. -/
theorem bind_congr {x : Exec ε σ α} {f g : α → Exec ε σ β} {s : σ}
    (h : ∀ a s', x s = .ok (a, s') → f a s' = g a s') : (x >>= f) s = (x >>= g) s := by
  cases hx : x s with
  | error e => rw [bind_error hx, bind_error hx]
  | ok p => rw [bind_ok hx, bind_ok hx, h p.1 p.2 hx]

theorem bind_congr_left {x y : Exec ε σ α} {s : σ} (h : x s = y s) (f : α → Exec ε σ β) :
    (x >>= f) s = (y >>= f) s := by
  simp [bind, StateT.bind, h]

/-! ## Properties of a program from those of its parts -/

/-- What holds of a sequence of programs if it holds of each of them. -/
structure Compositional (P : (α : Type) → Exec ε σ α → Prop) : Prop where
  pure : ∀ {α : Type} (a : α), P α (Pure.pure a)
  bind : ∀ {α β : Type} {x : Exec ε σ α} {k : α → Exec ε σ β},
    P α x → (∀ a, P β (k a)) → P β (x >>= k)

namespace Compositional

variable {P : (α : Type) → Exec ε σ α → Prop}

theorem ite (_h : Compositional P) {c : Prop} [Decidable c] {x y : Exec ε σ α} (hx : P α x)
    (hy : P α y) : P α (if c then x else y) := by
  split
  · exact hx
  · exact hy

theorem andM (h : Compositional P) {x y : Exec ε σ Bool} (hx : P Bool x) (hy : P Bool y) :
    P Bool (x <&&> y) := by
  refine h.bind hx fun ok => ?_
  cases ok with
  | false => exact h.pure _
  | true => exact hy

theorem allM (h : Compositional P) {g : α → Exec ε σ Bool} (hg : ∀ x, P Bool (g x))
    (xs : List α) : P Bool (xs.allM g) := by
  induction xs with
  | nil => exact h.pure _
  | cons x xs ih =>
      rw [List.allM_cons]
      refine h.bind (hg x) fun ok => ?_
      cases ok with
      | false => exact h.pure _
      | true => exact ih

end Compositional

/-! ## Invariants of a program -/

/-- A run of `x` that starts in `J` ends normally in `J`, or aborts in `K`. -/
def Preserves (J : σ → Prop) (K : ε → σ → Prop) (x : Exec ε σ α) : Prop :=
  ∀ s, J s → wp x (fun _ s' => J s') K s

namespace Preserves

variable {J : σ → Prop} {K : ε → σ → Prop}

theorem pure (a : α) : Preserves J K (pure a) := fun _ h => h

theorem get : Preserves J K get := fun _ h => h

theorem abort {e : ε} (h : ∀ s, J s → K e s) : Preserves J K (abort e : Exec ε σ α) := h

theorem modifyGet {g : σ → α × σ} (h : ∀ s, J s → J (g s).2) :
    Preserves J K (modifyGet g : Exec ε σ α) := h

theorem bind {x : Exec ε σ α} {k : α → Exec ε σ β} (hx : Preserves J K x)
    (hk : ∀ a, Preserves J K (k a)) : Preserves J K (x >>= k) := by
  intro s hs
  rw [wp_bind]
  exact wp_mono (hx s hs) (fun a s' hs' => hk a s' hs') (fun _ _ he => he)

theorem compositional : Compositional fun α (x : Exec ε σ α) => Preserves J K x where
  pure := pure
  bind := bind

theorem ite {c : Prop} [Decidable c] {x y : Exec ε σ α} (hx : Preserves J K x)
    (hy : Preserves J K y) : Preserves J K (if c then x else y) := compositional.ite hx hy

theorem andM {x y : Exec ε σ Bool} (hx : Preserves J K x) (hy : Preserves J K y) :
    Preserves J K (x <&&> y) := compositional.andM hx hy

theorem allM {g : α → Exec ε σ Bool} (h : ∀ x, Preserves J K (g x)) (xs : List α) :
    Preserves J K (xs.allM g) := compositional.allM h xs

end Preserves

/-- No run of `x` changes `f` of the state, also when it aborts. -/
def Keeps (f : σ → γ) (x : Exec ε σ α) : Prop :=
  ∀ v, Preserves (fun s => f s = v) (fun _ s => f s = v) x

namespace Keeps

variable {f : σ → γ}

theorem pure (a : α) : Keeps (ε := ε) f (pure a) := fun _ => Preserves.pure a

theorem get : Keeps (ε := ε) f get := fun _ => Preserves.get

theorem abort (e : ε) : Keeps f (abort e : Exec ε σ α) := fun _ => Preserves.abort fun _ h => h

theorem modifyGet {g : σ → α × σ} (h : ∀ s, f (g s).2 = f s) :
    Keeps f (modifyGet g : Exec ε σ α) := fun _ => Preserves.modifyGet fun s hs => (h s).trans hs

theorem modify {g : σ → σ} (h : ∀ s, f (g s) = f s) : Keeps f (modify g : Exec ε σ PUnit) :=
  modifyGet h

theorem bind {x : Exec ε σ α} {k : α → Exec ε σ β} (hx : Keeps f x) (hk : ∀ a, Keeps f (k a)) :
    Keeps f (x >>= k) := fun v => (hx v).bind fun a => hk a v

theorem ite {c : Prop} [Decidable c] {x y : Exec ε σ α} (hx : Keeps f x) (hy : Keeps f y) :
    Keeps f (if c then x else y) := fun v => (hx v).ite (hy v)

theorem andM {x y : Exec ε σ Bool} (hx : Keeps f x) (hy : Keeps f y) : Keeps f (x <&&> y) :=
  fun v => (hx v).andM (hy v)

theorem allM {g : α → Exec ε σ Bool} (h : ∀ x, Keeps f (g x)) (xs : List α) :
    Keeps f (xs.allM g) := fun v => Preserves.allM (fun x => h x v) xs

theorem wp {x : Exec ε σ α} (h : Keeps f x) (s : σ) :
    wp x (fun _ s' => f s' = f s) (fun _ s' => f s' = f s) s := h (f s) s rfl

theorem ok {x : Exec ε σ α} (h : Keeps f x) {s s' : σ} {a : α} (hx : x s = .ok (a, s')) :
    f s' = f s :=
  wp_ok (Q := fun _ s' => f s' = f s) (h.wp s) hx

end Keeps

/-! ## Steps that stop at the first refusal -/

theorem allM_append (f : α → Exec ε σ Bool) (xs ys : List α) :
    (xs ++ ys).allM f = (do if ← xs.allM f then ys.allM f else pure false) := by
  induction xs with
  | nil => simp
  | cons x xs ih =>
      simp only [List.cons_append, List.allM_cons, ih, bind_assoc]
      congr 1
      funext ok
      cases ok <;> simp

/-- Invariant rule for `List.allM`: `I` records the accepted steps, `F` holds
when a step is refused. -/
theorem wp_allM {f : α → Exec ε σ Bool} {l : List α} {I : List α → σ → Prop}
    {F : σ → Prop} {E : ε → σ → Prop} {s : σ} (h0 : I [] s)
    (hstep : ∀ pre x post, l = pre ++ x :: post → ∀ s, I pre s →
      wp (f x) (fun ok s' => if ok then I (pre ++ [x]) s' else F s') E s) :
    wp (l.allM f) (fun ok s' => if ok then I l s' else F s') E s := by
  -- generalise over the accepted prefix, then induct on what is left
  suffices h : ∀ post pre s, l = pre ++ post → I pre s →
      wp (post.allM f) (fun ok s' => if ok then I l s' else F s') E s from h l [] s rfl h0
  intro post
  induction post with
  | nil =>
      intro pre s hxs hI
      simpa [hxs] using hI
  | cons x post ih =>
      intro pre s hxs hI
      rw [List.allM_cons, wp_bind]
      refine wp_mono (hstep pre x post hxs s hI) ?_ (fun _ _ he => he)
      intro ok s' hok
      cases ok with
      | false => simpa using hok
      | true => exact ih (pre ++ [x]) s' (by simp [hxs]) (by simpa using hok)

/-- A step that accepts everything and updates the state by `g` folds `g`. -/
theorem allM_eq_foldl {f : α → Exec ε σ Bool} {g : σ → α → σ}
    (hf : ∀ x s, f x s = .ok (true, g s x)) (xs : List α) (s : σ) :
    xs.allM f s = .ok (true, xs.foldl g s) := by
  induction xs generalizing s with
  | nil => rfl
  | cons x xs ih =>
      rw [List.allM_cons, bind_ok (hf x s)]
      simpa using ih (g s x)

end Exec
