import TinyXvc.Mempool.Soundness

/-!
# Runs of the arena

All blocks handed out since the last `reclaim_all` lie below the head, one
behind the other.
-/

namespace TinyXvc

open MempoolWords

/-- A block that was returned, and the alignment it was asked for with. -/
structure PoolBlock where
  addr : ℕ
  size : ℕ
  align : ℕ

def PoolBlock.Disjoint (b c : PoolBlock) : Prop :=
  b.addr + b.size ≤ c.addr ∨ c.addr + c.size ≤ b.addr

/-- A pool and the blocks returned since the last `reclaim_all`. -/
structure Arena where
  pool : MempoolWords
  blocks : List PoolBlock

inductive PoolOp where
  | allocUnaligned (sz : UInt64)
  | allocAligned (sz align : UInt64)
  | reclaimAll

namespace PoolOp

def size : PoolOp → UInt64
  | allocUnaligned sz => sz
  | allocAligned sz _ => sz
  | reclaimAll => 0

/-- Where the block of a request begins, after the least padding. -/
def padded (pool : MempoolWords) : PoolOp → ℕ
  | allocAligned _ align => alignUp pool.head.toNat align.toNat
  | _ => pool.head.toNat

def align : PoolOp → ℕ
  | allocAligned _ align => align.toNat
  | _ => 1

/-- The end of the block is an address, and the alignment a power of two. -/
def NoWrap (pool : MempoolWords) (op : PoolOp) : Prop :=
  op.padded pool + op.size.toNat < 2 ^ 64 ∧
  match op with
  | allocAligned _ align => IsPowerOfTwo align
  | _ => True

def call (pool : MempoolWords) : PoolOp → Exec Abort Arena (Option UInt64 × MempoolWords)
  | allocUnaligned sz => pool.allocUnaligned sz
  | allocAligned sz align => pool.allocAligned sz align
  | reclaimAll => pure (none, pool.reclaimAll)

/-- The blocks after a call that returned `p`. -/
def blocksAfter (blocks : List PoolBlock) (p : Option UInt64) : PoolOp → List PoolBlock
  | reclaimAll => []
  | op => blocks ++ (p.map fun addr => ⟨addr.toNat, op.size.toNat, op.align⟩).toList

def perform (op : PoolOp) : Exec Abort Arena (Option UInt64) := do
  let a ← get
  let (p, pool) ← op.call a.pool
  set { pool := pool, blocks := op.blocksAfter a.blocks p : Arena }
  pure p

/-- The address of an aligned request is the padded one. -/
theorem toNat_addr {pool : MempoolWords} {sz align : UInt64}
    (h : NoWrap pool (allocAligned sz align)) :
    (pool.adjustedHead align).toNat = alignUp pool.head.toNat align.toNat := by
  rw [h.2.toNat_adjustedHead pool, Nat.mod_eq_of_lt]
  exact (Nat.le_add_right _ _).trans_lt h.1

/-- What a request for at least one byte does. -/
theorem wp_perform {a : Arena} {op : PoolOp} (hop : op.NoWrap a.pool) (hsz : 0 < op.size)
    (Q : Option UInt64 → Arena → Prop) (E : Abort → Arena → Prop) :
    Exec.wp op.perform Q E a ↔
      if op.padded a.pool + op.size.toNat ≤ a.pool.limit.toNat then
        ∃ addr head : UInt64, addr.toNat = op.padded a.pool ∧
          head.toNat = op.padded a.pool + op.size.toNat ∧
          Q (some addr) ⟨{ a.pool with head := head },
            a.blocks ++ [⟨addr.toNat, op.size.toNat, op.align⟩]⟩
      else if a.pool.fatalOom then E (.oom (a.pool.limit - a.pool.start).toNat) a
      else Q none a := by
  have hgrant : ∀ addr : UInt64, addr.toNat = op.padded a.pool →
      op.call a.pool = a.pool.grant addr op.size → op ≠ .reclaimAll →
      (Exec.wp op.perform Q E a ↔
        if op.padded a.pool + op.size.toNat ≤ a.pool.limit.toNat then
          ∃ addr head : UInt64, addr.toNat = op.padded a.pool ∧
            head.toNat = op.padded a.pool + op.size.toNat ∧
            Q (some addr) ⟨{ a.pool with head := head },
              a.blocks ++ [⟨addr.toNat, op.size.toNat, op.align⟩]⟩
        else if a.pool.fatalOom then E (.oom (a.pool.limit - a.pool.start).toNat) a
        else Q none a) := by
    intro addr haddr hcall hne
    have hend : (addr + op.size).toNat = op.padded a.pool + op.size.toNat := by
      rw [UInt64.toNat_add, haddr, Nat.mod_eq_of_lt hop.1]
    have hafter : ∀ p, op.blocksAfter a.blocks p =
        a.blocks ++ (p.map fun addr => ⟨addr.toNat, op.size.toNat, op.align⟩).toList := by
      intro p
      cases op with
      | reclaimAll => exact absurd rfl hne
      | allocUnaligned _ => rfl
      | allocAligned _ _ => rfl
    simp only [perform, Exec.wp_bind, Exec.wp_get, hcall, wp_grant, Exec.wp_set, Exec.wp_pure,
      hafter, UInt64.le_iff_toNat_le, hend]
    by_cases hfits : op.padded a.pool + op.size.toNat ≤ a.pool.limit.toNat
    · rw [if_pos hfits, if_pos hfits]
      constructor
      · exact fun h => ⟨addr, _, haddr, hend, h⟩
      · rintro ⟨addr', head', haddr', hend', h⟩
        have haddrs : addr' = addr := UInt64.toNat_inj.mp (haddr'.trans haddr.symm)
        have hends : head' = addr + op.size := UInt64.toNat_inj.mp (hend'.trans hend.symm)
        rw [haddrs, hends] at h
        exact h
    · rw [if_neg hfits, if_neg hfits, Option.map_none, Option.toList_none, List.append_nil]
  have hne : op.size ≠ 0 := by
    intro hzero
    rw [hzero] at hsz
    exact absurd hsz (lt_irrefl 0)
  cases op with
  | allocUnaligned sz =>
      exact hgrant a.pool.head rfl (if_neg hne) (fun h => by cases h)
  | allocAligned sz align =>
      have hsome : ¬(sz = 0 ∨ align = 0) := not_or.mpr ⟨hne, hop.2.ne_zero⟩
      refine hgrant (a.pool.adjustedHead align) (toNat_addr hop) ?_ (fun h => by cases h)
      change a.pool.allocAligned sz align = _
      rw [MempoolWords.allocAligned, if_neg hsome, hop.2.and_self, alwaysAssert_true, pure_bind]
      rfl
  | reclaimAll => exact absurd rfl hne

/-- A request for no bytes changes nothing. -/
theorem perform_zero {op : PoolOp} (hop : op ≠ .reclaimAll) (hsz : op.size = 0) (a : Arena) :
    op.perform a = .ok (none, a) := by
  have hcall : op.call a.pool = pure (none, a.pool) := by
    cases op with
    | allocUnaligned sz => exact if_pos hsz
    | allocAligned sz align => exact if_pos (.inl hsz)
    | reclaimAll => exact absurd rfl hop
  have hafter : op.blocksAfter a.blocks none = a.blocks := by
    cases op with
    | reclaimAll => exact absurd rfl hop
    | allocUnaligned _ => exact List.append_nil _
    | allocAligned _ _ => exact List.append_nil _
  rw [perform, Exec.get_bind, hcall, pure_bind]
  change Except.ok (none, (⟨a.pool, op.blocksAfter a.blocks none⟩ : Arena)) = _
  rw [hafter]

end PoolOp

/-- The states on the way from `a₀`, by calls whose sums do not wrap. -/
inductive PoolRun (a₀ : Arena) : Arena → Prop
  | init : PoolRun a₀ a₀
  | step {a b : Arena} {op : PoolOp} {p : Option UInt64} (hrun : PoolRun a₀ a)
      (hop : op.NoWrap a.pool) (hstep : op.perform a = .ok (p, b)) : PoolRun a₀ b

/-- The invariant of a run over the pool `pool₀`. -/
structure Arena.Sound (pool₀ : MempoolWords) (a : Arena) : Prop where
  start : a.pool.start = pool₀.start
  limit : a.pool.limit = pool₀.limit
  fatalOom : a.pool.fatalOom = pool₀.fatalOom
  ordered : a.pool.Ordered
  below : ∀ b ∈ a.blocks, pool₀.start.toNat ≤ b.addr ∧ b.addr + b.size ≤ a.pool.head.toNat ∧
    b.align ∣ b.addr
  inOrder : a.blocks.Pairwise fun b c => b.addr + b.size ≤ c.addr

section Sound

variable {pool₀ : MempoolWords} {a : Arena}

theorem PoolOp.align_dvd (op : PoolOp) (pool : MempoolWords) : op.align ∣ op.padded pool := by
  cases op with
  | allocAligned _ align => exact dvd_alignUp _ _
  | allocUnaligned _ => exact one_dvd _
  | reclaimAll => exact one_dvd _

theorem PoolOp.NoWrap.head_le {op : PoolOp} {pool : MempoolWords} (h : op.NoWrap pool) :
    pool.head.toNat ≤ op.padded pool := by
  cases op with
  | allocAligned _ align => exact le_alignUp h.2.pos
  | allocUnaligned _ => exact le_rfl
  | reclaimAll => exact le_rfl

/-- A new block lies behind all others. -/
theorem Arena.Sound.granted (h : a.Sound pool₀) {op : PoolOp} (hop : op.NoWrap a.pool)
    {addr head : UInt64} (haddr : addr.toNat = op.padded a.pool)
    (hhead : head.toNat = op.padded a.pool + op.size.toNat)
    (hfits : op.padded a.pool + op.size.toNat ≤ a.pool.limit.toNat) :
    Arena.Sound pool₀ ⟨{ a.pool with head := head },
      a.blocks ++ [⟨addr.toNat, op.size.toNat, op.align⟩]⟩ := by
  have hstart := UInt64.le_iff_toNat_le.mp h.ordered.1
  have hbehind := hop.head_le
  refine
    { h with
      ordered := ?_
      below := ?_
      inOrder := ?_ }
  · refine ⟨UInt64.le_iff_toNat_le.mpr ?_, UInt64.le_iff_toNat_le.mpr ?_⟩
    · change a.pool.start.toNat ≤ head.toNat
      omega
    · change head.toNat ≤ a.pool.limit.toNat
      omega
  · intro b hb
    change _ ∧ b.addr + b.size ≤ head.toNat ∧ _
    rcases List.mem_append.mp hb with hb | hb
    · obtain ⟨hlow, hhigh, hdvd⟩ := h.below b hb
      exact ⟨hlow, by omega, hdvd⟩
    · rw [List.mem_singleton.mp hb]
      dsimp only
      refine ⟨?_, by omega, haddr ▸ op.align_dvd a.pool⟩
      rw [← h.start]
      omega
  · rw [List.pairwise_append]
    refine ⟨h.inOrder, List.pairwise_singleton _ _, ?_⟩
    intro b hb c hc
    obtain ⟨-, hhigh, -⟩ := h.below b hb
    rw [List.mem_singleton.mp hc]
    dsimp only
    omega

theorem Arena.Sound.reclaimed (h : a.Sound pool₀) :
    Arena.Sound pool₀ ⟨a.pool.reclaimAll, []⟩ where
  start := h.start
  limit := h.limit
  fatalOom := h.fatalOom
  ordered := ⟨UInt64.le_refl _, UInt64.le_trans h.ordered.1 h.ordered.2⟩
  below b hb := by cases hb
  inOrder := List.Pairwise.nil

theorem Arena.Sound.step (h : a.Sound pool₀) {op : PoolOp} (hop : op.NoWrap a.pool) :
    Exec.wp op.perform (fun _ b => b.Sound pool₀) (fun _ b => b.Sound pool₀) a := by
  by_cases hreclaim : op = .reclaimAll
  · subst hreclaim
    exact h.reclaimed
  by_cases hsz : op.size = 0
  · exact Exec.wp_of_ok (PoolOp.perform_zero hreclaim hsz a) h
  rw [PoolOp.wp_perform hop (UInt64.pos_iff_ne_zero.mpr hsz)]
  split
  · rename_i hfits
    have hlt := hop.1
    have hpadded : (UInt64.ofNat (op.padded a.pool)).toNat = op.padded a.pool :=
      UInt64.toNat_ofNat_of_lt' ((Nat.le_add_right _ _).trans_lt hlt)
    have hend : (UInt64.ofNat (op.padded a.pool + op.size.toNat)).toNat =
        op.padded a.pool + op.size.toNat := UInt64.toNat_ofNat_of_lt' hlt
    exact ⟨_, _, hpadded, hend, h.granted hop hpadded hend hfits⟩
  · split
    · exact h
    · exact h

theorem PoolRun.sound (h₀ : pool₀.Ordered) (hrun : PoolRun ⟨pool₀, []⟩ a) : a.Sound pool₀ := by
  induction hrun with
  | init =>
      exact
        { start := rfl
          limit := rfl
          fatalOom := rfl
          ordered := h₀
          below := fun b hb => by cases hb
          inOrder := List.Pairwise.nil }
  | step _ hop hstep ih => exact Exec.wp_ok (Q := fun _ b => b.Sound pool₀) (ih.step hop) hstep

end Sound

/-- Over every run: the head stays in the arena, the blocks since the last
`reclaim_all` lie in the arena, aligned and disjoint, a request for at least one
byte fails exactly if it does not fit after the least padding, one for no bytes
returns `NULL`, and `reclaim_all` leaves a fresh pool. -/
theorem arena_sound {pool₀ : MempoolWords} {a : Arena} (h₀ : pool₀.Ordered)
    (hrun : PoolRun ⟨pool₀, []⟩ a) :
    (pool₀.start ≤ a.pool.head ∧ a.pool.head ≤ pool₀.limit) ∧
    (∀ b ∈ a.blocks, pool₀.start.toNat ≤ b.addr ∧ b.addr + b.size ≤ pool₀.limit.toNat ∧
      b.align ∣ b.addr) ∧
    a.blocks.Pairwise PoolBlock.Disjoint ∧
    (∀ op : PoolOp, op.NoWrap a.pool → 0 < op.size →
      Exec.wp op.perform
        (fun p b => (p.isSome = true ↔
            op.padded a.pool + op.size.toNat ≤ pool₀.limit.toNat) ∧
          (p = none → b = a ∧ pool₀.fatalOom = false))
        (fun _ b => ¬op.padded a.pool + op.size.toNat ≤ pool₀.limit.toNat ∧ b = a ∧
          pool₀.fatalOom = true) a) ∧
    (∀ op : PoolOp, op ≠ .reclaimAll → op.size = 0 → op.perform a = .ok (none, a)) ∧
    PoolOp.reclaimAll.perform a = .ok (none, ⟨{ pool₀ with head := pool₀.start }, []⟩) := by
  have h := hrun.sound h₀
  have hstart := h.start
  have hlimit := h.limit
  have hhead := UInt64.le_iff_toNat_le.mp h.ordered.2
  rw [hlimit] at hhead
  refine ⟨⟨hstart ▸ h.ordered.1, hlimit ▸ h.ordered.2⟩, ?_, h.inOrder.imp fun hle => .inl hle, ?_,
    fun op hop hsz => PoolOp.perform_zero hop hsz a, ?_⟩
  · intro b hb
    obtain ⟨hlow, hhigh, hdvd⟩ := h.below b hb
    exact ⟨hlow, hhigh.trans hhead, hdvd⟩
  · intro op hop hsz
    rw [PoolOp.wp_perform hop hsz, hlimit]
    split
    · rename_i hfits
      have hlt := hop.1
      refine ⟨UInt64.ofNat (op.padded a.pool), UInt64.ofNat (op.padded a.pool + op.size.toNat),
        UInt64.toNat_ofNat_of_lt' ((Nat.le_add_right _ _).trans_lt hlt),
        UInt64.toNat_ofNat_of_lt' hlt, ?_⟩
      exact ⟨iff_of_true rfl hfits, fun hnone => by cases hnone⟩
    · rename_i hfits
      split
      · rename_i hfatal
        exact ⟨hfits, rfl, h.fatalOom ▸ hfatal⟩
      · rename_i hfatal
        refine ⟨iff_of_false Bool.false_ne_true hfits, fun _ => ⟨rfl, ?_⟩⟩
        rw [← h.fatalOom]
        exact Bool.eq_false_of_not_eq_true hfatal
  · have hpool : a.pool.reclaimAll = { pool₀ with head := pool₀.start } := by
      rw [MempoolWords.reclaimAll, ← hstart, ← hlimit, ← h.fatalOom]
    rw [← hpool]
    rfl

/-- An unaligned block of five bytes, and an aligned one behind it. -/
theorem arena_sound_two_blocks :
    ∃ a, PoolRun ⟨smallPool, []⟩ a ∧ a.blocks.map PoolBlock.addr = [0x1010, 0x1018] ∧
      a.blocks.Pairwise PoolBlock.Disjoint := by
  have hfirst : PoolRun ⟨smallPool, []⟩
      ⟨{ smallPool with head := 0x1015 }, [⟨0x1010, 5, 1⟩]⟩ :=
    .step .init (show (PoolOp.allocUnaligned 5).NoWrap smallPool from ⟨by decide, trivial⟩) rfl
  have hsecond : PoolRun ⟨smallPool, []⟩
      ⟨{ smallPool with head := 0x1020 }, [⟨0x1010, 5, 1⟩, ⟨0x1018, 8, 8⟩]⟩ :=
    .step hfirst (show (PoolOp.allocAligned 8 8).NoWrap { smallPool with head := 0x1015 } from
      ⟨by decide, 3, by decide, rfl⟩) rfl
  exact ⟨_, hsecond, rfl, (arena_sound ⟨by decide, by decide⟩ hsecond).2.2.1⟩

/-- A request for no bytes fits, and returns `NULL`. -/
theorem zero_bytes_fail :
    (PoolOp.allocUnaligned 0).NoWrap { smallPool with fatalOom := false } ∧
      (∃ b, (PoolOp.allocUnaligned 0).perform ⟨{ smallPool with fatalOom := false }, []⟩ =
        .ok (none, b)) ∧
      (PoolOp.allocUnaligned 0).padded { smallPool with fatalOom := false } +
        (PoolOp.allocUnaligned 0).size.toNat ≤ smallPool.limit.toNat :=
  ⟨⟨by decide, trivial⟩, ⟨_, rfl⟩, by decide⟩

end TinyXvc
