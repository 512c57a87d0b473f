import TinyXvc.Defs
import TinyXvc.Lib.CStrings

/-!
# Backend profiles

`profile.c`.  The parser copies the text into the scratchpad of the profile and
cuts it there: driver name, keys and values are pointers into the scratchpad.
-/

namespace TinyXvc

open CBuffer

/-- A `const char *` of a profile. -/
inductive CharPtr where
  | scratchpad (off : ℕ)
  | literal (s : CString)
  deriving DecidableEq, Repr

/-- `privateScratchpad` holds 1024 characters. -/
structure BackendProfile where
  driverName : CharPtr
  numArg : ℕ
  argKeys : ℕ → CharPtr
  argValues : ℕ → CharPtr
  privateScratchpad : List Char

namespace BackendProfile

/-- The string that a pointer points to. -/
def str (p : BackendProfile) : CharPtr → CString
  | .scratchpad off => CBuffer.str p.privateScratchpad off
  | .literal s => s

/-- What a user of the profile reads: the driver name, keys and values. -/
def contents (p : BackendProfile) : CString × List (CString × CString) :=
  (p.str p.driverName,
    (List.range p.numArg).map fun i => (p.str (p.argKeys i), p.str (p.argValues i)))

/-- `out->privateScratchpad[i] = '\0'`. -/
def terminate (p : BackendProfile) (i : ℕ) : BackendProfile :=
  { p with privateScratchpad := p.privateScratchpad.set i '\x00' }

end BackendProfile

/-- Cuts the argument at `cur` off the ones behind it. -/
def cutArg (out : BackendProfile) (cur : ℕ) : BackendProfile × Option ℕ :=
  match strchr out.privateScratchpad cur ',' with
  | some comma => (out.terminate comma, some (comma + 1))
  | none => (out, none)

/-- Adds the argument at `tmp`. -/
def addArg (out : BackendProfile) (tmp : ℕ) : BackendProfile :=
  let out := { out with argKeys := Function.update out.argKeys out.numArg (.scratchpad tmp) }
  let out :=
    match strchr out.privateScratchpad tmp '=' with
    | some eq =>
        { out.terminate eq with
          argValues := Function.update out.argValues out.numArg (.scratchpad (eq + 1)) }
    | none => { out with argValues := Function.update out.argValues out.numArg (.literal []) }
  { out with numArg := out.numArg + 1 }

theorem length_addArg (out : BackendProfile) (tmp : ℕ) :
    (addArg out tmp).privateScratchpad.length = out.privateScratchpad.length := by
  unfold addArg
  dsimp only
  split
  · exact List.length_set
  · rfl

theorem length_cutArg (out : BackendProfile) (cur : ℕ) :
    (cutArg out cur).1.privateScratchpad.length = out.privateScratchpad.length := by
  unfold cutArg
  split
  · exact List.length_set
  · rfl

theorem cutArg_bounds {out : BackendProfile} {cur next : ℕ} (h : (cutArg out cur).2 = some next) :
    cur < next ∧ next ≤ out.privateScratchpad.length := by
  unfold cutArg at h
  split at h
  · have hbounds := strchr_bounds ‹_›
    cases h
    omega
  · cases h

/-- The loop over the arguments, at most 32 of them. -/
def parseArgs (out : BackendProfile) (cur : Option ℕ) : Option BackendProfile :=
  match cur with
  | none => some out
  | some i =>
      if out.privateScratchpad.getD i '\x00' = '\x00' then some out
      else if out.numArg ≥ 32 then none
      else parseArgs (addArg (cutArg out i).1 i) (cutArg out i).2
termination_by cur.elim 0 fun i => out.privateScratchpad.length + 1 - i
decreasing_by
  rw [length_addArg, length_cutArg]
  have hin : i < out.privateScratchpad.length := by
    by_contra hge
    have hnone := List.getElem?_eq_none (Nat.le_of_not_lt hge)
    exact ‹¬ _ = _› (by rw [List.getD_eq_getElem?_getD, hnone, Option.getD_none])
  cases hnext : (cutArg out i).2 with
  | none =>
      simp only [Option.elim_none, Option.elim_some]
      omega
  | some next =>
      have hbounds := cutArg_bounds hnext
      simp only [Option.elim_some]
      omega

/-- `none` where the source returns `false`. -/
def txvcBackendProfileParse (profileStr : CString) (out : BackendProfile) : Option BackendProfile :=
  if profileStr.length > 1024 - 1 then none
  else
    let out :=
      { out with
        privateScratchpad :=
          profileStr ++ '\x00' :: out.privateScratchpad.drop (profileStr.length + 1)
        driverName := .scratchpad 0
        numArg := 0 }
    match strchr out.privateScratchpad 0 ':' with
    | some colon => parseArgs (out.terminate colon) (some (colon + 1))
    | none => some out

end TinyXvc
