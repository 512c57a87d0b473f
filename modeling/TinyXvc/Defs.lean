import TinyXvc.Lib.Exec
import TinyXvc.Lib.Octets

/-!
# What every part of the program shares

A C function becomes a program over the state it can reach.  The process may
end by itself: a `FATAL` message aborts it, `TXVC_UNREACHABLE` traps.  Signed
overflow has no defined result, so a run that reaches one is also ended.
-/

namespace TinyXvc

inductive Abort where
  /-- `ALWAYS_ASSERT`: "Violated condition". -/
  | violatedCondition (cond : String)
  /-- "OOM at %zu-bytes mempool". -/
  | oom (poolBytes : ℕ)
  /-- `TXVC_UNREACHABLE`. -/
  | unreachable
  /-- An `int` result outside its range. -/
  | signedOverflow
  /-- A write through `NULL`. -/
  | nullPointer
  /-- A loop made no progress for as many rounds as it has work. -/
  | endless
  deriving DecidableEq, Repr

def alwaysAssert {σ : Type} (cond : Bool) (text : String) : Exec Abort σ Unit :=
  if cond then pure () else Exec.abort (.violatedCondition text)

@[simp] theorem alwaysAssert_true {σ : Type} (text : String) :
    (alwaysAssert true text : Exec Abort σ Unit) = pure () := rfl

/-- `INT_MAX` of the 32-bit `int`. -/
def intMax : ℕ := 2 ^ 31 - 1

/-- Checks a non-negative `int` result. -/
def checkInt {σ : Type} (n : ℕ) : Exec Abort σ Unit :=
  if n ≤ intMax then pure () else Exec.abort .signedOverflow

theorem checkInt_of_le {σ : Type} {n : ℕ} (h : n ≤ intMax) :
    (checkInt n : Exec Abort σ Unit) = pure () := if_pos h

/-- The characters of a string before its NUL, one for each byte. -/
abbrev CString := List Char

/-- A memory block a driver may write to: the response buffer in the stack
frame of `check_device_in_sync`, or a vector of the caller. -/
inductive Block where
  | resp
  | vector (id : ℕ)
  deriving DecidableEq, Repr

structure Ptr where
  block : Block
  off : ℕ
  deriving DecidableEq, Repr

/-- Contents of the blocks. -/
abbrev Mem := Block → Octets

def Ptr.add (p : Ptr) (n : ℕ) : Ptr := { p with off := p.off + n }

/-- What a pointer can read. -/
def Mem.view (m : Mem) (p : Ptr) : Octets := fun i => m p.block (p.off + i)

/-- Replaces what a pointer can read. -/
def Mem.write (m : Mem) (p : Ptr) (v : Octets) : Mem :=
  Function.update m p.block fun i => if p.off ≤ i then v (i - p.off) else m p.block i

@[simp] theorem Mem.view_write (m : Mem) (p : Ptr) (v : Octets) : (m.write p v).view p = v := by
  funext i
  simp [Mem.view, Mem.write]

theorem Mem.write_of_ne (m : Mem) (p : Ptr) (v : Octets) {b : Block} (hb : b ≠ p.block) :
    m.write p v b = m b := by
  simp [Mem.write, hb]

theorem Mem.bit_view (m : Mem) (p : Ptr) (k : ℕ) :
    (m.view p).bit k = (m p.block).bit (8 * p.off + k) := by
  have hdiv : (8 * p.off + k) / 8 = p.off + k / 8 := by omega
  have hmod : (8 * p.off + k) % 8 = k % 8 := by omega
  rw [Octets.bit, Octets.bit, hdiv, hmod]
  rfl

theorem Mem.bit_write (m : Mem) (p : Ptr) (v : Octets) (b : Block) (i : ℕ) :
    (m.write p v b).bit i =
      if b = p.block ∧ 8 * p.off ≤ i then v.bit (i - 8 * p.off) else (m b).bit i := by
  by_cases hb : b = p.block
  · subst hb
    have hdiv : (i - 8 * p.off) / 8 = i / 8 - p.off := by omega
    simp only [Octets.bit, Mem.write, Function.update_self, true_and, hdiv]
    by_cases hi : 8 * p.off ≤ i
    · have hmod : (i - 8 * p.off) % 8 = i % 8 := by omega
      have hoff : p.off ≤ i / 8 := by omega
      rw [if_pos hi, if_pos hoff, hmod]
    · have hoff : ¬ p.off ≤ i / 8 := by omega
      rw [if_neg hi, if_neg hoff]
  · rw [Mem.write_of_ne _ _ _ hb, if_neg (fun h => hb h.1)]

@[simp] theorem Mem.write_view (m : Mem) (p : Ptr) : m.write p (m.view p) = m := by
  funext b
  by_cases hb : b = p.block
  · subst hb
    funext i
    simp only [Mem.write, Mem.view, Function.update_self]
    split
    · congr 1
      omega
    · rfl
  · exact Mem.write_of_ne m p _ hb

@[simp] theorem Mem.write_write (m : Mem) (p : Ptr) (v w : Octets) :
    (m.write p v).write p w = m.write p w := by
  funext b
  by_cases hb : b = p.block
  · subst hb
    funext i
    simp only [Mem.write, Function.update_self]
    split <;> rfl
  · rw [Mem.write_of_ne _ _ _ hb, Mem.write_of_ne _ _ _ hb, Mem.write_of_ne _ _ _ hb]

end TinyXvc
