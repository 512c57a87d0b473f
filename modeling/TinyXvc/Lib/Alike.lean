import TinyXvc.Lib.Exec

/-!
# Programs that do not look at a part of the state

A relation on states says what two runs may differ in.  A program that runs alike
from all related states does not look at that: it returns the same value, or
aborts for the same reason, and leaves related states behind.
-/

namespace Exec

variable {ε σ α β : Type}

/-- How two runs end that can not be told apart. -/
inductive EndAlike (R : σ → σ → Prop) : Except (ε × σ) (α × σ) → Except (ε × σ) (α × σ) → Prop
  | ok (a : α) {s t : σ} : R s t → EndAlike R (.ok (a, s)) (.ok (a, t))
  | abort (e : ε) {s t : σ} : R s t → EndAlike R (.error (e, s)) (.error (e, t))

/-- From related states `x` runs alike. -/
def Alike (R : σ → σ → Prop) (x : Exec ε σ α) : Prop := ∀ ⦃s t⦄, R s t → EndAlike R (x s) (x t)

namespace Alike

variable {R : σ → σ → Prop}

theorem pure (a : α) : Alike R (pure a : Exec ε σ α) := fun _ _ h => .ok a h

theorem abort (e : ε) : Alike R (abort e : Exec ε σ α) := fun _ _ h => .abort e h

theorem abort_bind (e : ε) (k : α → Exec ε σ β) : Alike R (Exec.abort e >>= k) :=
  fun _ _ h => .abort e h

theorem modifyGet {g : σ → α × σ} (hval : ∀ s t, R s t → (g s).1 = (g t).1)
    (hstate : ∀ s t, R s t → R (g s).2 (g t).2) : Alike R (modifyGet g : Exec ε σ α) := by
  intro s t h
  change EndAlike R (.ok ((g s).1, (g s).2)) (.ok ((g t).1, (g t).2))
  rw [← hval s t h]
  exact .ok _ (hstate s t h)

theorem modify {g : σ → σ} (h : ∀ s t, R s t → R (g s) (g t)) :
    Alike R (modify g : Exec ε σ PUnit) := modifyGet (fun _ _ _ => rfl) h

/-- A program may look at the state, if it does the same in related states. -/
theorem get_bind {k : σ → Exec ε σ β} (hsame : ∀ s t, R s t → k s = k t)
    (hk : ∀ s, Alike R (k s)) : Alike R (get >>= k) := by
  intro s t h
  rw [Exec.get_bind, Exec.get_bind, ← hsame s t h]
  exact hk s h

theorem bind {x : Exec ε σ α} {k : α → Exec ε σ β} (hx : Alike R x) (hk : ∀ a, Alike R (k a)) :
    Alike R (x >>= k) := by
  intro s t h
  have hend := hx h
  generalize hs : x s = p at hend
  generalize ht : x t = q at hend
  rcases hend with ⟨a, h'⟩ | ⟨e, h'⟩
  · rw [bind_ok hs, bind_ok ht]
    exact hk a h'
  · rw [bind_error hs, bind_error ht]
    exact .abort e h'

theorem compositional : Compositional fun α (x : Exec ε σ α) => Alike R x where
  pure := pure
  bind := bind

end Alike

end Exec
