import TinyXvc.Mempool.Words

/-!
# Soundness of the arena

The bounds check is exact unless the sum in it wraps.  As long as no sum does,
the blocks of a run are disjoint, and lie between the ends of the arena.
-/

namespace TinyXvc

namespace MempoolWords

variable {σ : Type} {pool : MempoolWords}

theorem wp_grant (addr sz : UInt64) (Q : Option UInt64 × MempoolWords → σ → Prop)
    (E : Abort → σ → Prop) (s : σ) :
    Exec.wp (pool.grant addr sz) Q E s ↔
      if addr + sz ≤ pool.limit then Q (some addr, { pool with head := addr + sz }) s
      else if pool.fatalOom then E (.oom (pool.limit - pool.start).toNat) s
      else Q (none, pool) s := by
  unfold grant
  split
  · rfl
  · split <;> rfl

/-- A request for `sz` bytes at the address `padded`, which need not be a word,
is granted exactly if it fits, and the head stays in its place or moves on. -/
def ExactBounds (pool : MempoolWords) (padded : ℕ) (sz : UInt64)
    (x : Exec Abort Unit (Option UInt64 × MempoolWords)) : Prop :=
  Exec.wp x
    (fun r _ => (r.1.isSome = true ↔ padded + sz.toNat ≤ pool.limit.toNat) ∧
      pool.head ≤ r.2.head ∧ pool.start ≤ r.2.head ∧ r.2.head ≤ pool.limit)
    (fun _ _ => ¬padded + sz.toNat ≤ pool.limit.toNat) ()

theorem toNat_add_of_padded {addr : UInt64} {padded : ℕ} (h : addr.toNat = padded % 2 ^ 64)
    (sz : UInt64) : (addr + sz).toNat = (padded + sz.toNat) % 2 ^ 64 := by
  rw [UInt64.toNat_add, h, Nat.mod_add_mod]

theorem exact_grant_iff (hpool : pool.Ordered) {addr : UInt64} {padded : ℕ}
    (haddr : addr.toNat = padded % 2 ^ 64) (hhead : pool.head.toNat ≤ padded)
    (hpadded : padded ≤ 2 ^ 64) (sz : UInt64) :
    ExactBounds pool padded sz (pool.grant addr sz) ↔
      padded + sz.toNat < 2 ^ 64 ∨ pool.limit.toNat + 2 ^ 64 < padded + sz.toNat := by
  have hsum := toNat_add_of_padded haddr sz
  have hszlt := UInt64.toNat_lt sz
  have hlimit := UInt64.toNat_lt pool.limit
  obtain ⟨hstart, hend⟩ := hpool
  rw [UInt64.le_iff_toNat_le] at hstart hend
  unfold ExactBounds
  rw [wp_grant]
  simp only [UInt64.le_iff_toNat_le, hsum]
  rcases Nat.lt_or_ge (padded + sz.toNat) (2 ^ 64) with hlt | hge
  · -- nothing wraps
    rw [Nat.mod_eq_of_lt hlt]
    refine iff_of_true ?_ (.inl hlt)
    by_cases hfits : padded + sz.toNat ≤ pool.limit.toNat
    · rw [if_pos hfits]
      exact ⟨iff_of_true rfl hfits, by omega, by omega, hfits⟩
    · rw [if_neg hfits]
      split
      · exact hfits
      · exact ⟨iff_of_false Bool.false_ne_true hfits, le_rfl, hstart, hend⟩
  · -- the sum wraps once, and does not fit
    have hmod : (padded + sz.toNat) % 2 ^ 64 = padded + sz.toNat - 2 ^ 64 := by
      rw [Nat.mod_eq_sub_mod hge, Nat.mod_eq_of_lt (by omega)]
    have hnot : ¬padded + sz.toNat ≤ pool.limit.toNat := by omega
    rw [hmod]
    by_cases hwrapped : padded + sz.toNat - 2 ^ 64 ≤ pool.limit.toNat
    · rw [if_pos hwrapped]
      exact iff_of_false (fun h => hnot (h.1.mp rfl)) (by omega)
    · rw [if_neg hwrapped]
      refine iff_of_true ?_ (.inr (by omega))
      split
      · exact hnot
      · exact ⟨iff_of_false Bool.false_ne_true hnot, le_rfl, hstart, hend⟩

end MempoolWords

open MempoolWords

/-- The bounds check is right exactly if its sum does not wrap, or wraps past
the end of the pool. -/
theorem mempool_bounds_exact_iff {pool : MempoolWords} (hpool : pool.Ordered) {sz align : UInt64}
    (hsz : 0 < sz) (halign : IsPowerOfTwo align) :
    (ExactBounds pool pool.head.toNat sz (pool.allocUnaligned sz) ↔
      pool.head.toNat + sz.toNat < 2 ^ 64) ∧
    (ExactBounds pool (alignUp pool.head.toNat align.toNat) sz (pool.allocAligned sz align) ↔
      alignUp pool.head.toNat align.toNat + sz.toNat < 2 ^ 64 ∨
        pool.limit.toNat + 2 ^ 64 < alignUp pool.head.toNat align.toNat + sz.toNat) := by
  have hne : sz ≠ 0 := by
    rintro rfl
    exact absurd hsz (lt_irrefl 0)
  have hheadlt := UInt64.toNat_lt pool.head
  constructor
  · have hself : pool.head.toNat = pool.head.toNat % 2 ^ 64 := (Nat.mod_eq_of_lt hheadlt).symm
    have hgrant := exact_grant_iff hpool hself le_rfl hheadlt.le sz
    have hszlt := UInt64.toNat_lt sz
    have hend := UInt64.le_iff_toNat_le.mp hpool.2
    rw [allocUnaligned, if_neg hne, hgrant]
    omega
  · have hsome : ¬(sz = 0 ∨ align = 0) := not_or.mpr ⟨hne, halign.ne_zero⟩
    have hgrant := exact_grant_iff hpool (halign.toNat_adjustedHead pool) (le_alignUp halign.pos)
      (halign.alignUp_le pool.head) sz
    rw [allocAligned, if_neg hsome, halign.and_self, alwaysAssert_true, pure_bind, hgrant]

/-- A pool of 512 bytes. -/
def smallPool : MempoolWords where
  start := 0x1000
  limit := 0x1200
  head := 0x1010
  fatalOom := true

theorem mempool_bounds_exact_small :
    (ExactBounds smallPool 0x1010 5 (smallPool.allocUnaligned 5) ↔ 0x1010 + 5 < 2 ^ 64) ∧
    (ExactBounds smallPool (alignUp 0x1010 8) 5 (smallPool.allocAligned 5 8) ↔
      alignUp 0x1010 8 + 5 < 2 ^ 64 ∨ 0x1200 + 2 ^ 64 < alignUp 0x1010 8 + 5) :=
  mempool_bounds_exact_iff (show smallPool.Ordered from ⟨by decide, by decide⟩) (by decide)
    ⟨3, by decide, rfl⟩

/-- The greatest size is granted, and moves the head back by one. -/
theorem greatest_size_granted :
    smallPool.Ordered ∧
      (∃ t, smallPool.allocUnaligned (σ := Unit) 0xffffffffffffffff () =
        .ok ((some 0x1010, { smallPool with head := 0x100f }), t)) ∧
      ¬0x1010 + (0xffffffffffffffff : UInt64).toNat ≤ smallPool.limit.toNat := by
  exact ⟨⟨by decide, by decide⟩, ⟨(), rfl⟩, by decide⟩

end TinyXvc
