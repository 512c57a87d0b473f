import TinyXvc.Lib.Align
import TinyXvc.Mempool

/-!
# The arena allocator on machine words

`mempool.c` with 64-bit addresses and sizes, whose sums wrap.  The bounds check
adds before it compares: it is right as long as the sum does not wrap.
-/

namespace TinyXvc

/-- The last address of a block may be that of the last byte. -/
structure MempoolWords where
  start : UInt64
  limit : UInt64
  head : UInt64
  fatalOom : Bool
  deriving DecidableEq, Repr

namespace MempoolWords

variable {σ : Type} (pool : MempoolWords)

/-- What both allocations do once they know the address. -/
def grant (addr sz : UInt64) : Exec Abort σ (Option UInt64 × MempoolWords) :=
  if addr + sz ≤ pool.limit then pure (some addr, { pool with head := addr + sz })
  else if pool.fatalOom then Exec.abort (.oom (pool.limit - pool.start).toNat)
  else pure (none, pool)

def allocUnaligned (sz : UInt64) : Exec Abort σ (Option UInt64 × MempoolWords) :=
  if sz = 0 then pure (none, pool) else pool.grant pool.head sz

def adjustedHead (align : UInt64) : UInt64 :=
  let mod := pool.head &&& (align - 1)
  pool.head + if mod ≠ 0 then align - mod else 0

def allocAligned (sz align : UInt64) : Exec Abort σ (Option UInt64 × MempoolWords) :=
  if sz = 0 ∨ align = 0 then pure (none, pool)
  else do
    alwaysAssert (align &&& (align - 1) == 0) "(align & alignMask) == 0"
    pool.grant (pool.adjustedHead align) sz

def reclaimAll : MempoolWords := { pool with head := pool.start }

/-- What holds of every pool. -/
def Ordered : Prop := pool.start ≤ pool.head ∧ pool.head ≤ pool.limit

/-- The same pool with numbers for words. -/
def toPool : TxvcMempool where
  start := pool.start.toNat
  limit := pool.limit.toNat
  head := pool.head.toNat
  fatalOom := pool.fatalOom

end MempoolWords

def IsPowerOfTwo (align : UInt64) : Prop := ∃ k < 64, align.toNat = 2 ^ k

section Align

variable {align : UInt64}

theorem IsPowerOfTwo.pos (h : IsPowerOfTwo align) : 0 < align.toNat := by
  obtain ⟨k, -, hk⟩ := h
  rw [hk]
  exact Nat.two_pow_pos k

theorem IsPowerOfTwo.ne_zero (h : IsPowerOfTwo align) : align ≠ 0 := by
  rintro rfl
  exact absurd h.pos (by decide)

theorem IsPowerOfTwo.dvd (h : IsPowerOfTwo align) : align.toNat ∣ 2 ^ 64 := by
  obtain ⟨k, hlt, hk⟩ := h
  rw [hk]
  exact Nat.pow_dvd_pow 2 hlt.le

theorem IsPowerOfTwo.toNat_sub_one (h : IsPowerOfTwo align) :
    (align - 1).toNat = align.toNat - 1 := by
  apply UInt64.toNat_sub_of_le
  rw [UInt64.le_iff_toNat_le]
  exact h.pos

/-- Masking takes the remainder. -/
theorem IsPowerOfTwo.toNat_and (h : IsPowerOfTwo align) (x : UInt64) :
    (x &&& (align - 1)).toNat = x.toNat % align.toNat := by
  rw [UInt64.toNat_and, h.toNat_sub_one]
  obtain ⟨k, -, hk⟩ := h
  rw [hk, Nat.and_two_pow_sub_one_eq_mod]

theorem IsPowerOfTwo.and_self (h : IsPowerOfTwo align) : (align &&& (align - 1) == 0) = true := by
  rw [beq_iff_eq, ← UInt64.toNat_inj, h.toNat_and]
  exact Nat.mod_self _

/-- The adjusted head, but for a wrap, is the next aligned address. -/
theorem IsPowerOfTwo.toNat_adjustedHead (h : IsPowerOfTwo align) (pool : MempoolWords) :
    (pool.adjustedHead align).toNat = alignUp pool.head.toNat align.toNat % 2 ^ 64 := by
  have hmod := h.toNat_and pool.head
  have hlt := Nat.mod_lt pool.head.toNat h.pos
  have hzero : pool.head &&& (align - 1) = 0 ↔ pool.head.toNat % align.toNat = 0 := by
    rw [← UInt64.toNat_inj, hmod]
    rfl
  unfold MempoolWords.adjustedHead
  rw [alignUp_eq h.pos, UInt64.toNat_add]
  congr 2
  by_cases hpad : pool.head &&& (align - 1) = 0
  · rw [if_neg (not_not_intro hpad), if_neg (not_not_intro (hzero.mp hpad))]
    rfl
  · rw [if_pos hpad, if_pos (mt hzero.mpr hpad), ← hmod]
    apply UInt64.toNat_sub_of_le
    rw [UInt64.le_iff_toNat_le, hmod]
    exact hlt.le

theorem IsPowerOfTwo.alignUp_le (h : IsPowerOfTwo align) (x : UInt64) :
    alignUp x.toNat align.toNat ≤ 2 ^ 64 :=
  (alignUp_le_iff h.pos h.dvd).mpr (UInt64.toNat_lt x).le

end Align

/-! Without a wrap, words and numbers compute the same. -/

section Refinement

variable {σ : Type} {pool : MempoolWords} {sz align : UInt64}

namespace MempoolWords

/-- The result of an allocation with numbers for words. -/
def toResult (r : Option UInt64 × MempoolWords) : Option ℕ × TxvcMempool :=
  (r.1.map UInt64.toNat, r.2.toPool)

theorem grant_refines (hpool : pool.Ordered) {addr : UInt64}
    (haddr : addr.toNat + sz.toNat < 2 ^ 64) :
    (toResult <$> pool.grant addr sz : Exec Abort σ _) =
      if addr.toNat + sz.toNat ≤ pool.toPool.limit then
        pure (some addr.toNat, { pool.toPool with head := addr.toNat + sz.toNat })
      else txvcMempoolOom pool.toPool := by
  have hsum : (addr + sz).toNat = addr.toNat + sz.toNat := by
    rw [UInt64.toNat_add, Nat.mod_eq_of_lt haddr]
  have hbytes : (pool.limit - pool.start).toNat = pool.toPool.limit - pool.toPool.start :=
    UInt64.toNat_sub_of_le _ _ (UInt64.le_trans hpool.1 hpool.2)
  have hle : addr + sz ≤ pool.limit ↔ addr.toNat + sz.toNat ≤ pool.toPool.limit := by
    rw [UInt64.le_iff_toNat_le, hsum]
    rfl
  unfold grant txvcMempoolOom
  by_cases hfits : addr.toNat + sz.toNat ≤ pool.toPool.limit
  · rw [if_pos (hle.mpr hfits), if_pos hfits, map_pure, toResult, toPool, hsum]
    rfl
  · have hsame : pool.toPool.fatalOom = pool.fatalOom := rfl
    rw [if_neg (mt hle.mp hfits), if_neg hfits, hbytes, hsame]
    by_cases hfatal : pool.fatalOom = true
    · rw [if_pos hfatal, if_pos hfatal]
      rfl
    · rw [if_neg hfatal, if_neg hfatal]
      rfl

theorem toNat_ne_zero (h : sz ≠ 0) : sz.toNat ≠ 0 := fun hzero => h (UInt64.toNat_inj.mp hzero)

theorem allocUnaligned_refines (hpool : pool.Ordered)
    (hwrap : pool.head.toNat + sz.toNat < 2 ^ 64) :
    (toResult <$> pool.allocUnaligned sz : Exec Abort σ _) =
      txvcMempoolAllocUnaligned pool.toPool sz.toNat := by
  unfold allocUnaligned txvcMempoolAllocUnaligned
  by_cases hzero : sz = 0
  · subst hzero
    rfl
  · rw [if_neg hzero, if_neg (toNat_ne_zero hzero), grant_refines hpool hwrap]
    rfl

theorem allocAligned_refines (hpool : pool.Ordered) (halign : IsPowerOfTwo align)
    (hwrap : alignUp pool.head.toNat align.toNat + sz.toNat < 2 ^ 64) :
    (toResult <$> pool.allocAligned sz align : Exec Abort σ _) =
      txvcMempoolAllocAligned pool.toPool sz.toNat align.toNat := by
  have hassert : (align.toNat &&& (align.toNat - 1) == 0) = true := by
    have hself := halign.toNat_and align
    rw [UInt64.toNat_and, halign.toNat_sub_one, Nat.mod_self] at hself
    rw [hself]
    rfl
  have hpadded : (pool.adjustedHead align).toNat = pool.toPool.adjustedHead align.toNat := by
    have hmask := halign.toNat_and pool.head
    rw [UInt64.toNat_and, halign.toNat_sub_one] at hmask
    rw [halign.toNat_adjustedHead pool, Nat.mod_eq_of_lt ((Nat.le_add_right _ _).trans_lt hwrap),
      alignUp_eq halign.pos, ← hmask]
    rfl
  have haddr : (pool.adjustedHead align).toNat + sz.toNat < 2 ^ 64 := by
    rwa [halign.toNat_adjustedHead pool,
      Nat.mod_eq_of_lt ((Nat.le_add_right _ _).trans_lt hwrap)]
  unfold allocAligned txvcMempoolAllocAligned
  by_cases hzero : sz = 0
  · subst hzero
    rw [if_pos (.inl rfl), if_pos (.inl rfl)]
    rfl
  · have hsome : ¬(sz = 0 ∨ align = 0) := not_or.mpr ⟨hzero, halign.ne_zero⟩
    have hsome' : ¬(sz.toNat = 0 ∨ align.toNat = 0) :=
      not_or.mpr ⟨toNat_ne_zero hzero, halign.pos.ne'⟩
    rw [if_neg hsome, if_neg hsome', halign.and_self, hassert, alwaysAssert_true, pure_bind,
      pure_bind, grant_refines hpool haddr, hpadded]

end MempoolWords

end Refinement

end TinyXvc
