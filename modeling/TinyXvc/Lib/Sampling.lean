import TinyXvc.Lib.Transducer
import Mathlib.Tactic

/-!
# Rising edges and batches

Two machines over a stream of samples: one answers the samples at which a
level rises, one collects what it reads and answers it in batches of a fixed
length.  What a batcher has answered and what it still holds is what it read.
-/

namespace Sampling

variable {α : Type}

/-! ## Rising edges -/

/-- The samples whose level is high, and whose predecessor's is low. -/
def rising (level : α → Bool) (last : Bool) (xs : List α) : List α :=
  ((xs.zip (last :: xs.map level)).filter fun p => level p.1 && !p.2).map Prod.fst

variable {cap : ℕ} {pending : List α}

end Sampling
