import Mathlib.Data.List.Basic
import Mathlib.Tactic

/-!
# Sending a stream in attempts

A sender queues a stream and offers what it has queued to a channel that takes
some of it.  An attempt that the channel acknowledges settles all it offered;
any other attempt settles nothing, and the sender keeps all it offered.
-/

namespace Resend

variable {α : Type}

/-- What was offered, how much of it the other side got, and whether all of it
was acknowledged. -/
structure Attempt (α : Type) where
  offered : List α
  arrived : List α
  acknowledged : Bool
  deriving DecidableEq, Repr

def Attempt.settled (a : Attempt α) : List α := if a.acknowledged then a.offered else []

/-- An acknowledgement is a promise that everything arrived. -/
def Attempt.Honest (a : Attempt α) : Prop := a.acknowledged = true → a.arrived = a.offered

def settled (as : List (Attempt α)) : List α := as.flatMap Attempt.settled

def arrived (as : List (Attempt α)) : List α := as.flatMap Attempt.arrived

/-- No attempt got through in part: what was not acknowledged did not arrive. -/
def AllOrNothing (as : List (Attempt α)) : Prop := ∀ a ∈ as, a.acknowledged = false → a.arrived = []

instance [DecidableEq α] (as : List (Attempt α)) : Decidable (AllOrNothing as) :=
  inferInstanceAs (Decidable (∀ a ∈ as, a.acknowledged = false → a.arrived = []))

@[simp] theorem settled_nil : settled ([] : List (Attempt α)) = [] := rfl

@[simp] theorem settled_append (as bs : List (Attempt α)) :
    settled (as ++ bs) = settled as ++ settled bs := List.flatMap_append

@[simp] theorem arrived_append (as bs : List (Attempt α)) :
    arrived (as ++ bs) = arrived as ++ arrived bs := List.flatMap_append

theorem settled_of_acknowledged {a : Attempt α} (h : a.acknowledged = true) :
    settled [a] = a.offered := by
  simp [settled, Attempt.settled, h]

theorem settled_of_not_acknowledged {a : Attempt α} (h : a.acknowledged = false) :
    settled [a] = [] := by
  simp [settled, Attempt.settled, h]

/-- The books of a sender that has queued `stream`: the settled part comes first
and the rest is still queued, and every attempt offered what followed the part
that was settled before it. -/
structure Ledger (stream : List α) (as : List (Attempt α)) (pending : List α) : Prop where
  stream_eq : stream = settled as ++ pending
  resumes : ∀ before a after, as = before ++ a :: after → settled before ++ a.offered <+: stream

namespace Ledger

variable {stream pending : List α} {as : List (Attempt α)} {a : Attempt α}

theorem start (pending : List α) : Ledger pending [] pending where
  stream_eq := rfl
  resumes before a after h := by simp at h

theorem queue (h : Ledger stream as pending) (more : List α) :
    Ledger (stream ++ more) as (pending ++ more) where
  stream_eq := by rw [h.stream_eq, List.append_assoc]
  resumes before a after has := (h.resumes before a after has).trans (List.prefix_append _ _)

/-- One more attempt offers what is pending. -/
theorem resumes_concat (h : Ledger stream as pending) (hoffered : a.offered = pending) :
    ∀ before b after, as ++ [a] = before ++ b :: after →
      settled before ++ b.offered <+: stream := by
  intro before b after heq
  rcases List.eq_nil_or_concat' after with rfl | ⟨after, c, rfl⟩
  · obtain ⟨rfl, rfl⟩ := List.append_inj' heq rfl |>.imp_right List.singleton_inj.mp
    rw [hoffered, ← h.stream_eq]
  · have hcut : as ++ [a] = (before ++ b :: after) ++ [c] := by
      rw [heq, List.append_assoc]
      rfl
    exact h.resumes before b after (List.append_inj' hcut rfl).1

theorem fail (h : Ledger stream as pending) (hoffered : a.offered = pending)
    (hack : a.acknowledged = false) : Ledger stream (as ++ [a]) pending where
  stream_eq := by
    rw [settled_append, settled_of_not_acknowledged hack, List.append_nil]
    exact h.stream_eq
  resumes := h.resumes_concat hoffered

theorem settle (h : Ledger stream as pending) (hoffered : a.offered = pending)
    (hack : a.acknowledged = true) : Ledger stream (as ++ [a]) [] where
  stream_eq := by
    rw [settled_append, settled_of_acknowledged hack, hoffered, List.append_nil]
    exact h.stream_eq
  resumes := h.resumes_concat hoffered

end Ledger

/-- If no attempt got through in part, exactly the settled part arrived. -/
theorem arrived_eq_settled {as : List (Attempt α)} (hhonest : ∀ a ∈ as, a.Honest)
    (h : AllOrNothing as) : arrived as = settled as := by
  refine List.flatMap_congr fun a ha => ?_
  unfold Attempt.settled
  cases hack : a.acknowledged with
  | true => exact hhonest a ha hack
  | false => exact h a ha hack

/-- Everything settled arrived, and what arrived besides is too much. -/
theorem length_arrived_eq {as : List (Attempt α)} (hhonest : ∀ a ∈ as, a.Honest) :
    (arrived as).length = (settled as).length +
      (arrived (as.filter fun a => !a.acknowledged)).length := by
  induction as with
  | nil => rfl
  | cons a as ih =>
      have ha := hhonest a List.mem_cons_self
      have hrest := ih fun b hb => hhonest b (List.mem_cons_of_mem a hb)
      simp only [arrived, settled, List.flatMap_cons, List.length_append] at hrest ⊢
      cases hack : a.acknowledged with
      | true =>
          rw [ha hack]
          simp only [Attempt.settled, List.filter_cons, hack, Bool.not_true, if_true]
          simp only [Bool.false_eq_true, if_false]
          omega
      | false =>
          simp only [Attempt.settled, List.filter_cons, hack, Bool.not_false, if_true,
            List.flatMap_cons, List.length_append, Bool.false_eq_true, if_false, List.length_nil]
          omega

theorem allOrNothing_of_length_le {as : List (Attempt α)} (hhonest : ∀ a ∈ as, a.Honest)
    (h : (arrived as).length ≤ (settled as).length) : AllOrNothing as := by
  intro a ha hack
  have hlen := length_arrived_eq hhonest
  have hzero : (arrived (as.filter fun a => !a.acknowledged)).length = 0 := by omega
  have hnil := List.flatMap_eq_nil_iff.mp (List.length_eq_zero_iff.mp hzero)
  exact hnil a (List.mem_filter.mpr ⟨ha, by rw [hack]; rfl⟩)

end Resend
