import TinyXvc.Lib.Mpsse

/-!
# The commands of an octet stream

The engine alone decides where commands end: a stream is cut after every octet
that makes it wait for an opcode again.  Streams made of whole commands are cut
where they were joined.
-/

namespace Mpsse

/-- The commands of a stream, and the octets of the one it breaks off in, if
`acc` was received of the first one. -/
def framesFrom : Awaiting → List UInt8 → List UInt8 → List (List UInt8) × List UInt8
  | _, acc, [] => ([], acc)
  | a, acc, b :: bs =>
      if a.next b = .opcode then
        ((acc ++ [b]) :: (framesFrom .opcode [] bs).1, (framesFrom .opcode [] bs).2)
      else framesFrom (a.next b) (acc ++ [b]) bs

def frames (bs : List UInt8) : List (List UInt8) × List UInt8 := framesFrom .opcode [] bs

/-- The octets are one whole command. -/
def IsFrame (c : List UInt8) : Prop := frames c = ([c], [])

instance (c : List UInt8) : Decidable (IsFrame c) :=
  inferInstanceAs (Decidable (frames c = ([c], [])))

theorem framesFrom_flatten (a : Awaiting) (acc bs : List UInt8) :
    (framesFrom a acc bs).1.flatten ++ (framesFrom a acc bs).2 = acc ++ bs := by
  induction bs generalizing a acc with
  | nil => simp [framesFrom]
  | cons b bs ih =>
      rw [framesFrom]
      split
      · rw [List.flatten_cons, List.append_assoc, ih, List.append_assoc]
        rfl
      · rw [ih, List.append_assoc]
        rfl

theorem framesFrom_append {a : Awaiting} {acc c : List UInt8}
    (h : framesFrom a acc c = ([acc ++ c], [])) (bs : List UInt8) :
    framesFrom a acc (c ++ bs) = ((acc ++ c) :: (frames bs).1, (frames bs).2) := by
  induction c generalizing a acc with
  | nil => cases h
  | cons b c ih =>
      rw [framesFrom] at h
      rw [List.cons_append, framesFrom]
      split at h
      · -- the command ends here, so nothing of it is left
        rename_i hnext
        have hacc : acc ++ [b] = acc ++ b :: c :=
          (List.cons.inj (congrArg Prod.fst h)).1
        have hc : c = [] := by
          have htail := List.append_cancel_left hacc
          exact (List.cons.inj htail).2.symm
        subst hc
        rw [if_pos hnext]
        rfl
      · rename_i hnext
        rw [if_neg hnext]
        have hstep : acc ++ b :: c = acc ++ [b] ++ c := by rw [List.append_assoc]; rfl
        rw [hstep] at h ⊢
        exact ih h

/-- Whole commands are cut where they were joined. -/
theorem frames_flatten {cs : List (List UInt8)} (h : ∀ c ∈ cs, IsFrame c) :
    frames cs.flatten = (cs, []) := by
  induction cs with
  | nil => rfl
  | cons c cs ih =>
      have hrest := ih fun d hd => h d (List.mem_cons_of_mem c hd)
      have hc := framesFrom_append
        (show framesFrom .opcode [] c = ([[] ++ c], []) from h c List.mem_cons_self)
        cs.flatten
      rw [hrest] at hc
      exact hc

theorem isFrame_of_mem_framesFrom {a : Awaiting} {acc bs c : List UInt8}
    (h : ∀ xs, frames (acc ++ xs) = framesFrom a acc xs) (hc : c ∈ (framesFrom a acc bs).1) :
    IsFrame c := by
  induction bs generalizing a acc with
  | nil => cases hc
  | cons b bs ih =>
      rw [framesFrom] at hc
      split at hc
      · rename_i hnext
        rcases List.mem_cons.mp hc with rfl | hc
        · rw [IsFrame, h, framesFrom, if_pos hnext]
          rfl
        · exact ih (fun xs => rfl) hc
      · rename_i hnext
        refine ih (fun xs => ?_) hc
        rw [List.append_assoc, h, List.singleton_append, framesFrom, if_neg hnext]

/-- What a stream is cut into are whole commands. -/
theorem isFrame_of_mem_frames {bs c : List UInt8} (hc : c ∈ (frames bs).1) : IsFrame c :=
  isFrame_of_mem_framesFrom (fun _ => rfl) hc

theorem awaiting_of_framesFrom {a : Awaiting} {acc bs : List UInt8} (ha : a = .opcode ∨ acc ≠ [])
    (h : (framesFrom a acc bs).2 = []) : bs.foldl Awaiting.next a = .opcode := by
  induction bs generalizing a acc with
  | nil => exact ha.resolve_right fun hne => hne h
  | cons b bs ih =>
      rw [framesFrom] at h
      rw [List.foldl_cons]
      split at h
      · rename_i hnext
        rw [hnext]
        exact ih (Or.inl rfl) h
      · exact ih (Or.inr (List.append_ne_nil_of_right_ne_nil _ (List.cons_ne_nil _ _))) h

/-- A stream that does not break off leaves the engine waiting for an opcode. -/
theorem awaiting_of_frames {bs : List UInt8} (h : (frames bs).2 = []) :
    bs.foldl Awaiting.next .opcode = .opcode := awaiting_of_framesFrom (Or.inl rfl) h

theorem length_flatten_le_of_sublist {l l' : List (List UInt8)} (h : l.Sublist l') :
    l.flatten.length ≤ l'.flatten.length := h.flatten.length_le

end Mpsse
