import TinyXvc.Defs

/-!
# The arena allocator

`mempool.c`: blocks are cut off the head of one allocation and given back all
at once.  Addresses are numbers, and a pool lies well inside the address
space, so `head + sz` does not wrap.
-/

namespace TinyXvc

structure TxvcMempool where
  start : ℕ
  limit : ℕ
  head : ℕ
  fatalOom : Bool
  deriving DecidableEq, Repr

/-- `txvc_mempool_init`, given the address that `malloc` returned. -/
def txvcMempoolInit (p sz : ℕ) : TxvcMempool where
  start := p
  limit := p + sz
  head := p
  fatalOom := true

variable {σ : Type}

/-- The branch of an allocation that does not fit. -/
def txvcMempoolOom (pool : TxvcMempool) : Exec Abort σ (Option ℕ × TxvcMempool) :=
  if pool.fatalOom then Exec.abort (.oom (pool.limit - pool.start)) else pure (none, pool)

def txvcMempoolAllocUnaligned (pool : TxvcMempool) (sz : ℕ) :
    Exec Abort σ (Option ℕ × TxvcMempool) :=
  if sz = 0 then pure (none, pool)
  else if pool.head + sz ≤ pool.limit then
    pure (some pool.head, { pool with head := pool.head + sz })
  else txvcMempoolOom pool

/-- `adjustedHead` of `txvc_mempool_alloc_aligned`. -/
def TxvcMempool.adjustedHead (pool : TxvcMempool) (align : ℕ) : ℕ :=
  let alignMask := align - 1
  let mod := pool.head &&& alignMask
  pool.head + (if mod ≠ 0 then align - mod else 0)

def txvcMempoolAllocAligned (pool : TxvcMempool) (sz align : ℕ) :
    Exec Abort σ (Option ℕ × TxvcMempool) :=
  if sz = 0 ∨ align = 0 then pure (none, pool)
  else do
    alwaysAssert (align &&& (align - 1) == 0) "(align & alignMask) == 0"
    let adjustedHead := pool.adjustedHead align
    if adjustedHead + sz ≤ pool.limit then
      pure (some adjustedHead, { pool with head := adjustedHead + sz })
    else txvcMempoolOom pool

def txvcMempoolReclaimAll (pool : TxvcMempool) : TxvcMempool :=
  { pool with head := pool.start }

/-- The pool after an allocation of `sz` bytes at `addr`. -/
def TxvcMempool.cut (pool : TxvcMempool) (addr sz : ℕ) : TxvcMempool :=
  { pool with head := addr + sz }

theorem TxvcMempool.head_le_adjustedHead (pool : TxvcMempool) (align : ℕ) :
    pool.head ≤ pool.adjustedHead align := Nat.le_add_right _ _

/-- The pools of the driver abort when an allocation does not fit. -/
theorem wp_allocUnaligned {pool : TxvcMempool} (hfatal : pool.fatalOom = true) {sz : ℕ}
    (hsz : 0 < sz) {Q : Option ℕ × TxvcMempool → σ → Prop} {E : Abort → σ → Prop} {s : σ} :
    Exec.wp (txvcMempoolAllocUnaligned pool sz) Q E s ↔
      if pool.head + sz ≤ pool.limit then Q (some pool.head, pool.cut pool.head sz) s
      else E (.oom (pool.limit - pool.start)) s := by
  rw [txvcMempoolAllocUnaligned, if_neg hsz.ne', txvcMempoolOom, if_pos hfatal]
  split <;> rfl

theorem wp_allocAligned {pool : TxvcMempool} (hfatal : pool.fatalOom = true) {sz align : ℕ}
    (hsz : 0 < sz) (halign : 0 < align) (hpow : align &&& (align - 1) = 0)
    {Q : Option ℕ × TxvcMempool → σ → Prop} {E : Abort → σ → Prop} {s : σ} :
    Exec.wp (txvcMempoolAllocAligned pool sz align) Q E s ↔
      if pool.adjustedHead align + sz ≤ pool.limit then
        Q (some (pool.adjustedHead align), pool.cut (pool.adjustedHead align) sz) s
      else E (.oom (pool.limit - pool.start)) s := by
  have hsome : ¬ (sz = 0 ∨ align = 0) := by omega
  rw [txvcMempoolAllocAligned, if_neg hsome, hpow, txvcMempoolOom, if_pos hfatal]
  simp only [beq_self_eq_true, alwaysAssert_true, pure_bind]
  split <;> rfl

end TinyXvc
