import TinyXvc.FtdiGeneric.Cells

/-!
# The representation invariant of the command buffer

After any calls and with any outcomes of the D2XX calls, the buffers are there
exactly if they hold something, the nodes are linked in the order in which they
were queued, their data pointers tile the expected replies, and what is in use
are separate blocks of the pool.
-/

namespace TinyXvc

namespace Cells

open LinkedList Tiling

variable {τ : Type}

/-- The copy stays in the buffer it is meant for. -/
def Copy.Inside (c : Copy) : Prop := c.block ≤ c.dst ∧ c.dst + c.len ≤ c.block + c.size

def FtBuffer.txBlock (b : FtBuffer) : Option PoolBlock :=
  b.txBuffer.map fun p => ⟨p, b.maxTxBufferBytes, 1⟩

def FtBuffer.rxBlock (b : FtBuffer) : Option PoolBlock :=
  b.rxBuffer.map fun p => ⟨p, b.maxRxBufferBytes, 1⟩

def nodeBlock (node : ℕ) : PoolBlock := ⟨node, sizeofRxObserverNode, alignofRecord⟩

/-- The blocks in use, when `ns` are the nodes. -/
def FtBuffer.used (b : FtBuffer) (ns : List ℕ) : List PoolBlock :=
  b.txBlock.toList ++ (b.rxBlock.toList ++ ns.map nodeBlock)

/-- What the fields say about the memory, when `ns` are the nodes. -/
structure Laid (chip : ℕ) (s : State τ) (ns : List ℕ) : Prop where
  fatalOom : s.cmdBuffer.pool.fatalOom = true
  maxTx : s.cmdBuffer.maxTxBufferBytes = 3 * chip
  maxRx : s.cmdBuffer.maxRxBufferBytes = chip
  tx_le : s.cmdBuffer.txNumBytes ≤ s.cmdBuffer.maxTxBufferBytes
  rx_le : s.cmdBuffer.rxNumBytes ≤ s.cmdBuffer.maxRxBufferBytes
  tx_null : s.cmdBuffer.txBuffer = none ↔ s.cmdBuffer.txNumBytes = 0
  links : Links (fun node => (s.nodes node).next) s.cmdBuffer.rxObserverFirst ns
  last : s.cmdBuffer.rxObserverLast = ns.getLast?
  data : ns.map (fun node => some (s.nodes node).data) =
    s.slices.map fun x => s.cmdBuffer.rxBuffer.map (· + x.1)
  tiles : Tiling.Tiles 0 s.cmdBuffer.rxNumBytes s.slices
  disjoint : (s.cmdBuffer.used ns).Pairwise PoolBlock.Disjoint
  allocated : ∀ b ∈ s.cmdBuffer.used ns, b ∈ s.blocks
  below : ∀ b ∈ s.blocks, b.addr + b.size ≤ s.cmdBuffer.pool.head
  inside : ∀ c ∈ s.copies, c.Inside

/-- The invariant between the calls. -/
structure WellFormed (chip : ℕ) (s : State τ) (ns : List ℕ) : Prop extends Laid chip s ns where
  rx_null : s.cmdBuffer.rxBuffer = none ↔ s.cmdBuffer.rxNumBytes = 0

/-- The only way for a call to end the process. -/
def Oom (e : Abort) (_ : State τ) : Prop := ∃ poolBytes, e = .oom poolBytes

/-! ## Allocations -/

theorem wp_allocUnaligned {s : State τ} (hfatal : s.cmdBuffer.pool.fatalOom = true) {size : ℕ}
    (hsize : 0 < size) {Q : Option ℕ → State τ → Prop} {E : Abort → State τ → Prop}
    (hQ : Q (some s.cmdBuffer.pool.head)
      { s with
        cmdBuffer := { s.cmdBuffer with
          pool := s.cmdBuffer.pool.cut s.cmdBuffer.pool.head size }
        blocks := s.blocks ++ [⟨s.cmdBuffer.pool.head, size, 1⟩] })
    (hE : ∀ poolBytes, E (.oom poolBytes) s) : Exec.wp (allocUnaligned size) Q E s := by
  unfold allocUnaligned alloc cmdBuffer
  simp only [Exec.wp_bind, Exec.wp_get, Exec.wp_pure, TinyXvc.wp_allocUnaligned hfatal hsize,
    Exec.wp_modify]
  split
  · exact hQ
  · exact hE _

theorem wp_allocObject {s : State τ} (hfatal : s.cmdBuffer.pool.fatalOom = true) {size : ℕ}
    (hsize : 0 < size) {Q : Option ℕ → State τ → Prop} {E : Abort → State τ → Prop}
    (hQ : Q (some (s.cmdBuffer.pool.adjustedHead alignofRecord))
      { s with
        cmdBuffer := { s.cmdBuffer with
          pool := s.cmdBuffer.pool.cut (s.cmdBuffer.pool.adjustedHead alignofRecord) size }
        blocks := s.blocks ++
          [⟨s.cmdBuffer.pool.adjustedHead alignofRecord, size, alignofRecord⟩] })
    (hE : ∀ poolBytes, E (.oom poolBytes) s) : Exec.wp (allocObject size) Q E s := by
  unfold allocObject alloc cmdBuffer
  simp only [Exec.wp_bind, Exec.wp_get, Exec.wp_pure,
    TinyXvc.wp_allocAligned hfatal hsize (by decide : 0 < alignofRecord) (by decide),
    Exec.wp_modify]
  split
  · exact hQ
  · exact hE _

/-- A block cut off behind the head is behind all others. -/
theorem below_concat {blocks : List PoolBlock} {head addr size align : ℕ}
    (h : ∀ b ∈ blocks, b.addr + b.size ≤ head) (hle : head ≤ addr) :
    ∀ b ∈ blocks ++ [⟨addr, size, align⟩], b.addr + b.size ≤ addr + size := by
  intro b hb
  rcases List.mem_append.mp hb with hb | hb
  · exact ((h b hb).trans hle).trans (Nat.le_add_right _ _)
  · rw [List.mem_singleton.mp hb]

theorem disjoint_of_le {b c : PoolBlock} {addr : ℕ} (hb : b.addr + b.size ≤ addr)
    (hc : addr ≤ c.addr) : b.Disjoint c := .inl (hb.trans hc)

namespace Laid

variable {chip : ℕ} {s : State τ} {ns : List ℕ}

theorem used_below (h : Laid chip s ns) {b : PoolBlock} (hb : b ∈ s.cmdBuffer.used ns) :
    b.addr + b.size ≤ s.cmdBuffer.pool.head := h.below b (h.allocated b hb)

theorem node_below (h : Laid chip s ns) {node : ℕ} (hnode : node ∈ ns) :
    node + sizeofRxObserverNode ≤ s.cmdBuffer.pool.head :=
  h.used_below (b := nodeBlock node)
    (List.mem_append_right _ (List.mem_append_right _ (List.mem_map_of_mem hnode)))

theorem nodup (h : Laid chip s ns) : ns.Nodup := by
  have hnodes := (List.pairwise_append.mp (List.pairwise_append.mp h.disjoint).2.1).2.1
  rw [List.pairwise_map] at hnodes
  refine hnodes.imp ?_
  rintro a b (hle | hle) rfl
  · exact absurd hle (by simp [nodeBlock, sizeofRxObserverNode])
  · exact absurd hle (by simp [nodeBlock, sizeofRxObserverNode])

theorem length_eq (h : Laid chip s ns) : ns.length = s.slices.length := by
  have hlen := congrArg List.length h.data
  rwa [List.length_map, List.length_map] at hlen

theorem length_le (h : Laid chip s ns) : ns.length ≤ s.cmdBuffer.rxNumBytes := by
  have hle := h.tiles.length_le
  rw [h.length_eq]
  omega

/-- There are nodes exactly if replies are expected. -/
theorem nodes_nil_iff (h : Laid chip s ns) : ns = [] ↔ s.cmdBuffer.rxNumBytes = 0 := by
  rw [← List.length_eq_zero_iff, h.length_eq, List.length_eq_zero_iff, h.tiles.eq_nil_iff, eq_comm]

end Laid

/-! ## Flushes -/

section Calls

variable {io : D2xx τ} {chip : ℕ} {s : State τ} {ns : List ℕ}

/-- The loop over the nodes reaches each of them once, and ends. -/
theorem runObservers_eq (rxEnd : ℕ) {fuel : ℕ} {p : Option ℕ} (hfuel : ns.length ≤ fuel)
    (hlinks : Links (fun node => (s.nodes node).next) p ns) :
    runObservers rxEnd fuel p s =
      .ok ((), { s with mem := ns.foldl (fun m node => (s.nodes node).run s rxEnd m) s.mem }) := by
  induction ns generalizing fuel p s with
  | nil =>
      cases hlinks
      cases fuel <;> rfl
  | cons node ns ih =>
      obtain ⟨rfl, hrest⟩ := hlinks
      obtain ⟨fuel, rfl⟩ : ∃ f, fuel = f + 1 := ⟨fuel - 1, by rw [List.length_cons] at hfuel; omega⟩
      have hrun := ih (s := { s with mem := (s.nodes node).run s rxEnd s.mem })
        (Nat.le_of_succ_le_succ hfuel) hrest
      rw [runObservers, Exec.get_bind]
      exact hrun

theorem flushTx_spec (h : WellFormed chip s ns) :
    Exec.wp (ftBufferFlushTx io)
      (fun ok t => WellFormed chip t ns ∧ (ok = true → t.cmdBuffer.txBuffer = none)) Oom s := by
  unfold ftBufferFlushTx cmdBuffer
  rw [bind_assoc, Exec.wp_bind, Exec.wp_get, Exec.wp_bind, Exec.wp_pure]
  cases htx : s.cmdBuffer.txBuffer with
  | none => exact ⟨h, fun _ => htx⟩
  | some p =>
      simp only [ftWrite, Exec.wp_bind, Exec.wp_modifyGet]
      refine Exec.wp_ite (fun _ => ⟨{ h with }, fun hok => absurd hok Bool.false_ne_true⟩)
        fun _ => ?_
      refine Exec.wp_ite (fun _ => ⟨{ h with }, fun hok => absurd hok Bool.false_ne_true⟩)
        fun _ => ?_
      rw [modifyCmdBuffer, Exec.wp_bind, Exec.wp_modify, Exec.wp_pure]
      have hsub : (s.cmdBuffer.rxBlock.toList ++ ns.map nodeBlock).Sublist (s.cmdBuffer.used ns) :=
        List.sublist_append_right _ _
      refine ⟨{ h with
        tx_le := Nat.zero_le _
        tx_null := iff_of_true rfl rfl
        disjoint := h.disjoint.sublist hsub
        allocated := fun b hb => h.allocated b (hsub.mem hb) }, fun _ => rfl⟩

theorem inside_concat {copies : List Copy} {c : Copy} (h : ∀ d ∈ copies, d.Inside)
    (hc : c.Inside) : ∀ d ∈ copies ++ [c], d.Inside := by
  intro d hd
  rcases List.mem_append.mp hd with hd | hd
  · exact h d hd
  · rw [List.mem_singleton.mp hd]
    exact hc

theorem flushRx_spec (h : WellFormed chip s ns) :
    Exec.wp (ftBufferFlushRx io)
      (fun ok t => t.cmdBuffer.txBuffer = s.cmdBuffer.txBuffer ∧
        if ok then WellFormed chip t [] ∧ t.cmdBuffer.rxBuffer = none else WellFormed chip t ns)
      Oom s := by
  unfold ftBufferFlushRx cmdBuffer
  rw [bind_assoc, Exec.wp_bind, Exec.wp_get, Exec.wp_bind, Exec.wp_pure]
  cases hrx : s.cmdBuffer.rxBuffer with
  | none =>
      have hnil : ns = [] := h.nodes_nil_iff.mpr (h.rx_null.mp hrx)
      rw [hnil] at h
      exact ⟨rfl, h, hrx⟩
  | some p =>
      have hcopy : Copy.Inside ⟨p, s.cmdBuffer.rxNumBytes, p, s.cmdBuffer.maxRxBufferBytes⟩ :=
        ⟨le_rfl, Nat.add_le_add_left h.rx_le p⟩
      have hinside := inside_concat h.inside hcopy
      simp only [ftRead, Exec.wp_bind, Exec.wp_modifyGet]
      refine Exec.wp_ite (fun _ => ⟨rfl, { h with inside := hinside }⟩) fun _ => ?_
      refine Exec.wp_ite (fun _ => ⟨rfl, { h with inside := hinside }⟩) fun _ => ?_
      rw [Exec.wp_bind]
      refine Exec.wp_of_ok (runObservers_eq _ h.length_le h.links) ?_
      rw [Exec.wp_bind, Exec.wp_modify, Exec.wp_pure]
      have hsub : (s.cmdBuffer.txBlock.toList ++ ([] ++ [])).Sublist (s.cmdBuffer.used ns) :=
        (List.Sublist.refl _).append (List.nil_sublist _)
      refine ⟨rfl, ⟨{ h with
        rx_le := Nat.zero_le _
        links := rfl
        last := rfl
        data := rfl
        tiles := rfl
        disjoint := h.disjoint.sublist hsub
        allocated := fun b hb => h.allocated b (hsub.mem hb)
        inside := hinside }, iff_of_true rfl rfl⟩, rfl⟩

/-- A flush keeps the invariant on each of its exits, and leaves nothing behind
when it succeeds. -/
theorem flush_invariant (h : WellFormed chip s ns) :
    Exec.wp (ftBufferFlush io)
      (fun ok t => if ok then WellFormed chip t [] ∧ t.cmdBuffer.txBuffer = none ∧
          t.cmdBuffer.rxBuffer = none
        else WellFormed chip t ns) Oom s := by
  unfold ftBufferFlush
  rw [Exec.wp_bind]
  refine Exec.wp_mono (flushTx_spec h) ?_ (fun _ _ he => he)
  rintro (_ | _) t ⟨ht, htx⟩
  · exact ht
  · rw [if_pos rfl, Exec.wp_bind]
    refine Exec.wp_mono (flushRx_spec ht) ?_ (fun _ _ he => he)
    rintro (_ | _) u ⟨hsame, hu⟩
    · exact hu
    · obtain ⟨hu, hrx⟩ := hu
      have htx' : u.cmdBuffer.txBuffer = none := hsame.trans (htx rfl)
      have hunused : u.cmdBuffer.used [] = [] := by
        rw [FtBuffer.used, FtBuffer.txBlock, FtBuffer.rxBlock, htx', hrx]
        rfl
      rw [if_pos rfl, Exec.wp_bind, Exec.wp_modify, Exec.wp_pure]
      refine ⟨{ hu with
        allocated := fun b hb => ?_
        below := List.forall_mem_nil _ }, htx', hrx⟩
      have hb' : b ∈ u.cmdBuffer.used [] := hb
      rw [hunused] at hb'
      cases hb'

theorem ensure_invariant (h : WellFormed chip s ns) {m n : ℕ} (hm : m ≤ chip) (hn : n ≤ chip) :
    Exec.wp (ftBufferEnsureCanAppend io m n)
      (fun ok t => ∃ ns', WellFormed chip t ns' ∧
        (ok = true → t.cmdBuffer.txNumBytes + m ≤ t.cmdBuffer.maxTxBufferBytes ∧
          t.cmdBuffer.rxNumBytes + n ≤ t.cmdBuffer.maxRxBufferBytes)) Oom s := by
  have hassert : (decide (m ≤ s.cmdBuffer.maxRxBufferBytes) &&
      decide (n ≤ s.cmdBuffer.maxRxBufferBytes)) = true := by
    rw [h.maxRx, decide_eq_true hm, decide_eq_true hn]
    rfl
  unfold ftBufferEnsureCanAppend cmdBuffer
  rw [bind_assoc, Exec.wp_bind, Exec.wp_get, Exec.wp_bind, Exec.wp_pure, hassert,
    alwaysAssert_true, pure_bind]
  apply Exec.wp_ite
  · intro _
    refine Exec.wp_mono (flush_invariant h) ?_ (fun _ _ he => he)
    rintro (_ | _) t ht
    · exact ⟨ns, ht, fun hok => absurd hok Bool.false_ne_true⟩
    · obtain ⟨ht, htx, hrx⟩ := ht
      refine ⟨[], ht, fun _ => ?_⟩
      rw [ht.tx_null.mp htx, ht.rx_null.mp hrx, ht.maxTx, ht.maxRx]
      omega
  · intro hfits
    refine ⟨ns, h, fun _ => ?_⟩
    simp only [Bool.or_eq_true, decide_eq_true_eq] at hfits
    omega

/-! ## Appends -/

/-- The bytes go to the end of the TX buffer. -/
def State.txCopied (s : State τ) (p : ℕ) (txData : List UInt8) : State τ :=
  { s with
    bytes := writeBytes s.bytes (p + s.cmdBuffer.txNumBytes) txData
    copies := s.copies ++
      [⟨p + s.cmdBuffer.txNumBytes, txData.length, p, s.cmdBuffer.maxTxBufferBytes⟩]
    cmdBuffer := { s.cmdBuffer with txNumBytes := s.cmdBuffer.txNumBytes + txData.length } }

theorem memcpyTx_eq {p : ℕ} (htx : s.cmdBuffer.txBuffer = some p) (txData : List UInt8) :
    (do
      memcpyTx txData
      modifyCmdBuffer fun b => { b with txNumBytes := b.txNumBytes + txData.length }) s =
      .ok ((), s.txCopied p txData) := by
  unfold memcpyTx cmdBuffer
  rw [bind_assoc, bind_assoc, Exec.get_bind, pure_bind, htx]
  rfl

theorem appendTx_invariant (h : WellFormed chip s ns) {txData : List UInt8}
    (hfits : s.cmdBuffer.txNumBytes + txData.length ≤ s.cmdBuffer.maxTxBufferBytes) :
    Exec.wp (ftBufferAppendTx txData)
      (fun _ t => WellFormed chip t ns ∧ t.cmdBuffer.rxNumBytes = s.cmdBuffer.rxNumBytes)
      Oom s := by
  unfold ftBufferAppendTx
  by_cases hlen : txData.length > 0
  · have hcopied : ∀ p, Copy.Inside ⟨p + s.cmdBuffer.txNumBytes, txData.length, p,
        s.cmdBuffer.maxTxBufferBytes⟩ := fun p => ⟨Nat.le_add_right _ _, by
      change p + s.cmdBuffer.txNumBytes + txData.length ≤ p + s.cmdBuffer.maxTxBufferBytes
      omega⟩
    rw [if_pos hlen]
    simp only [cmdBuffer, Exec.wp_bind, Exec.wp_get, Exec.wp_pure]
    cases htx : s.cmdBuffer.txBuffer with
    | none =>
        rw [Option.isNone_none, if_pos rfl, Exec.wp_bind]
        refine wp_allocUnaligned h.fatalOom (by omega) ?_ (fun n => ⟨n, rfl⟩)
        rw [modifyCmdBuffer, Exec.wp_bind, Exec.wp_modify]
        refine Exec.wp_of_ok (memcpyTx_eq rfl txData) ⟨?_, rfl⟩
        have hunused : s.cmdBuffer.txBlock = none := by rw [FtBuffer.txBlock, htx]; rfl
        have hrest : ∀ b ∈ s.cmdBuffer.rxBlock.toList ++ ns.map nodeBlock,
            b ∈ s.cmdBuffer.used ns := fun b hb => List.mem_append_right _ hb
        have hdisjoint := h.disjoint
        rw [FtBuffer.used, hunused] at hdisjoint
        refine { h with
          tx_le := hfits
          tx_null := iff_of_false (Option.some_ne_none _) (by change ¬_ + _ = 0; omega)
          disjoint := List.pairwise_cons.mpr ⟨fun b hb => ?_, hdisjoint⟩
          allocated := fun b hb => ?_
          below := below_concat h.below le_rfl
          inside := inside_concat h.inside (hcopied _) }
        · exact (disjoint_of_le (h.used_below (hrest b hb)) le_rfl).symm
        · rcases List.mem_cons.mp hb with rfl | hb
          · exact List.mem_append_right _ List.mem_cons_self
          · exact List.mem_append_left _ (h.allocated b (hrest b hb))
    | some p =>
        rw [Option.isNone_some, if_neg Bool.false_ne_true]
        refine Exec.wp_of_ok (memcpyTx_eq htx txData) ⟨?_, rfl⟩
        exact { h with
          tx_le := hfits
          tx_null := iff_of_false (fun hnone => by cases htx.symm.trans hnone)
            (by change ¬_ + _ = 0; omega)
          inside := inside_concat h.inside (hcopied p) }
  · rw [if_neg hlen]
    exact ⟨h, rfl⟩

/-- The state once a node for `n` replies is linked and the replies are counted. -/
def State.withNode (s : State τ) (nodes : ℕ → RxObserverNode) (first : Option ℕ) (node n : ℕ) :
    State τ :=
  { s with
    cmdBuffer := { s.cmdBuffer with
      pool := s.cmdBuffer.pool.cut node sizeofRxObserverNode
      rxNumBytes := s.cmdBuffer.rxNumBytes + n
      rxObserverFirst := first
      rxObserverLast := some node }
    nodes := nodes
    blocks := s.blocks ++ [nodeBlock node]
    slices := s.slices ++ [(s.cmdBuffer.rxNumBytes, n)] }

theorem Laid.withNode (h : Laid chip s ns) {p n : ℕ} (hrx : s.cmdBuffer.rxBuffer = some p)
    (hn : 0 < n) (hfits : s.cmdBuffer.rxNumBytes + n ≤ s.cmdBuffer.maxRxBufferBytes)
    {nodes : ℕ → RxObserverNode} {first : Option ℕ} {node : ℕ}
    (hnode : s.cmdBuffer.pool.head ≤ node)
    (hlinks : Links (fun node => (nodes node).next) first (ns ++ [node]))
    (hold : ∀ a ∈ ns, (nodes a).data = (s.nodes a).data)
    (hnew : (nodes node).data = p + s.cmdBuffer.rxNumBytes) :
    WellFormed chip (s.withNode nodes first node n) (ns ++ [node]) := by
  have hused : (s.withNode nodes first node n).cmdBuffer.used (ns ++ [node]) =
      s.cmdBuffer.used ns ++ [nodeBlock node] := by
    rw [FtBuffer.used, FtBuffer.used, List.map_append, List.append_assoc, List.append_assoc]
    rfl
  have hdata : ns.map (fun a => some (nodes a).data) = ns.map fun a => some (s.nodes a).data :=
    List.map_congr_left fun a ha => congrArg some (hold a ha)
  refine ⟨{ h with
    rx_le := hfits
    links := hlinks
    last := (List.getLast?_concat).symm
    data := ?_
    tiles := h.tiles.concat hn
    disjoint := ?_
    allocated := ?_
    below := below_concat h.below hnode }, ?_⟩
  · change (ns ++ [node]).map (fun a => some (nodes a).data) =
      (s.slices ++ [_]).map fun x : ℕ × ℕ => s.cmdBuffer.rxBuffer.map (· + x.1)
    rw [List.map_append, hdata, h.data, List.map_append, List.map_singleton, List.map_singleton,
      hnew, hrx]
    rfl
  · rw [hused]
    refine List.pairwise_append.mpr ⟨h.disjoint, List.pairwise_singleton _ _, ?_⟩
    intro b hb c hc
    rw [List.mem_singleton.mp hc]
    exact disjoint_of_le ((h.used_below hb).trans hnode) le_rfl
  · rw [hused]
    intro b hb
    rcases List.mem_append.mp hb with hb | hb
    · exact List.mem_append_left _ (h.allocated b hb)
    · exact List.mem_append_right _ hb
  · refine iff_of_false (fun hnone => by cases hrx.symm.trans hnone) ?_
    change ¬s.cmdBuffer.rxNumBytes + n = 0
    omega

/-- A new node is stored, and then linked behind the last one. -/
theorem linkBehind_spec (nodes : ℕ → RxObserverNode) {last node : ℕ} (hne : last ≠ node)
    (o : RxObserverNode) :
    let stored := Function.update nodes node o
    let linked := Function.update stored last { stored last with next := some node }
    (linked last).next = some node ∧ (linked last).data = (nodes last).data ∧ linked node = o ∧
      ∀ c, c ≠ last → c ≠ node → linked c = nodes c := by
  intro stored linked
  have hlast : stored last = nodes last := Function.update_of_ne hne _ _
  have hlinked : linked last = { stored last with next := some node } := Function.update_self _ _ _
  refine ⟨by rw [hlinked], by rw [hlinked, hlast], ?_, fun c hc hcn => ?_⟩
  · exact (Function.update_of_ne hne.symm _ _).trans (Function.update_self _ _ _)
  · exact (Function.update_of_ne hc _ _).trans (Function.update_of_ne hcn _ _)

theorem addReplies_invariant (h : Laid chip s ns) {p n : ℕ} (hrx : s.cmdBuffer.rxBuffer = some p)
    (hn : 0 < n) (hfits : s.cmdBuffer.rxNumBytes + n ≤ s.cmdBuffer.maxRxBufferBytes)
    (fn : RxObserverFn) (extra : ℕ) :
    Exec.wp (do
        ftBufferAddObserver (some (fn, extra)) n
        modifyCmdBuffer fun b => { b with rxNumBytes := b.rxNumBytes + n })
      (fun _ t => ∃ ns', WellFormed chip t ns') Oom s := by
  have hhead := s.cmdBuffer.pool.head_le_adjustedHead alignofRecord
  generalize hnode : s.cmdBuffer.pool.adjustedHead alignofRecord = node at hhead
  have hfresh : ∀ a ∈ ns, a ≠ node := by
    rintro a ha rfl
    have hlt := h.node_below ha
    simp only [sizeofRxObserverNode] at hlt
    omega
  rw [Exec.wp_bind, ftBufferAddObserver, addNode, Exec.wp_bind]
  refine wp_allocObject h.fatalOom (by decide) ?_ (fun n => ⟨n, rfl⟩)
  rw [hnode]
  have hrxDeref : (deref s.cmdBuffer.rxBuffer : Prog τ ℕ) = pure p := by
    rw [hrx]
    rfl
  simp only [deref_some, cmdBuffer, modifyCmdBuffer, Exec.wp_bind, Exec.wp_get, Exec.wp_pure,
    hrxDeref, Exec.wp_modify]
  rcases ns.eq_nil_or_concat' with rfl | ⟨ms, last, rfl⟩
  · -- the first node
    have hfirst : s.cmdBuffer.rxObserverFirst.isNone = true := by
      rw [h.links.eq_none_iff.mpr rfl]
      rfl
    rw [if_pos hfirst, Exec.wp_modify]
    have hself : Function.update s.nodes node ⟨none, fn, p + s.cmdBuffer.rxNumBytes, extra⟩ node =
        ⟨none, fn, p + s.cmdBuffer.rxNumBytes, extra⟩ := Function.update_self _ _ _
    exact ⟨_, h.withNode hrx hn hfits hhead ⟨rfl, congrArg RxObserverNode.next hself⟩
      (List.forall_mem_nil _) (congrArg RxObserverNode.data hself)⟩
  · -- a node behind the last one
    have hfirst : ¬s.cmdBuffer.rxObserverFirst.isNone = true := by
      rw [Option.isNone_iff_eq_none, h.links.eq_none_iff]
      simp
    have hlast : (deref s.cmdBuffer.rxObserverLast : Prog τ ℕ) = pure last := by
      rw [h.last, List.getLast?_concat]
      rfl
    have hne : last ≠ node := hfresh last (by simp)
    rw [if_neg hfirst, Exec.wp_bind, hlast, Exec.wp_pure, Exec.wp_bind, Exec.wp_modify,
      Exec.wp_modify]
    obtain ⟨hnext, hdata, hnew, hrest⟩ := linkBehind_spec s.nodes hne
      ⟨none, fn, p + s.cmdBuffer.rxNumBytes, extra⟩
    have hmem : ∀ c ∈ ms, c ≠ last := fun c hc heq =>
      List.disjoint_of_nodup_append h.nodup hc (heq ▸ List.mem_singleton_self last)
    have hold : ∀ c ∈ ms, c ≠ node := fun c hc => hfresh c (List.mem_append_left _ hc)
    refine ⟨_, h.withNode hrx hn hfits hhead ?_ ?_ (congrArg RxObserverNode.data hnew)⟩
    · rw [List.append_assoc]
      exact h.links.snoc
        (fun c hc => congrArg RxObserverNode.next (hrest c (hmem c hc) (hold c hc))) hnext
        (congrArg RxObserverNode.next hnew)
    · intro c hc
      rcases List.mem_append.mp hc with hc | hc
      · exact congrArg RxObserverNode.data (hrest c (hmem c hc) (hold c hc))
      · rw [List.mem_singleton.mp hc]
        exact hdata

/-- The state once the RX buffer is cut off the pool. -/
def State.withRxBuffer (s : State τ) : State τ :=
  { s with
    cmdBuffer := { s.cmdBuffer with
      pool := s.cmdBuffer.pool.cut s.cmdBuffer.pool.head s.cmdBuffer.maxRxBufferBytes
      rxBuffer := some s.cmdBuffer.pool.head }
    blocks := s.blocks ++ [⟨s.cmdBuffer.pool.head, s.cmdBuffer.maxRxBufferBytes, 1⟩] }

/-- A new RX buffer has no nodes yet. -/
theorem WellFormed.newRx (h : WellFormed chip s ns) (hrx : s.cmdBuffer.rxBuffer = none) :
    ns = [] ∧ Laid chip s.withRxBuffer [] := by
  have hnodes : ns = [] := h.nodes_nil_iff.mpr (h.rx_null.mp hrx)
  subst hnodes
  have hslices : s.slices = [] := List.length_eq_zero_iff.mp h.length_eq.symm
  have hunused : s.cmdBuffer.rxBlock = none := by rw [FtBuffer.rxBlock, hrx]; rfl
  have hused : s.cmdBuffer.used [] = s.cmdBuffer.txBlock.toList := by
    rw [FtBuffer.used, hunused]
    exact List.append_nil _
  refine ⟨rfl, { h.toLaid with
    data := ?_
    disjoint := ?_
    allocated := ?_
    below := below_concat h.below le_rfl }⟩
  · change [] = s.slices.map _
    rw [hslices]
    rfl
  · refine List.pairwise_append.mpr ⟨?_, List.pairwise_singleton _ _, ?_⟩
    · have hdisjoint := h.disjoint
      rwa [hused] at hdisjoint
    · intro b hb c hc
      rw [List.mem_singleton.mp hc]
      exact disjoint_of_le (h.used_below (hused ▸ hb)) le_rfl
  · intro b hb
    rcases List.mem_append.mp hb with hb | hb
    · exact List.mem_append_left _ (h.allocated b (hused ▸ hb))
    · exact List.mem_append_right _ hb

theorem appendRx_invariant (h : WellFormed chip s ns) {observer : Option (RxObserverFn × ℕ)}
    {n : ℕ} (hobserver : 0 < n → observer.isSome = true)
    (hfits : s.cmdBuffer.rxNumBytes + n ≤ s.cmdBuffer.maxRxBufferBytes) :
    Exec.wp (ftBufferAppendRx observer n) (fun _ t => ∃ ns', WellFormed chip t ns') Oom s := by
  unfold ftBufferAppendRx
  by_cases hn : n > 0
  · obtain ⟨⟨fn, extra⟩, rfl⟩ := Option.isSome_iff_exists.mp (hobserver hn)
    rw [if_pos hn]
    simp only [cmdBuffer, Exec.wp_bind, Exec.wp_get, Exec.wp_pure]
    cases hrx : s.cmdBuffer.rxBuffer with
    | none =>
        rw [Option.isNone_none, if_pos rfl, Exec.wp_bind]
        refine wp_allocUnaligned h.fatalOom (by omega) ?_ (fun n => ⟨n, rfl⟩)
        rw [modifyCmdBuffer, Exec.wp_bind, Exec.wp_modify]
        obtain ⟨rfl, hlaid⟩ := h.newRx hrx
        exact addReplies_invariant hlaid rfl hn hfits fn extra
    | some p =>
        rw [Option.isNone_some, if_neg Bool.false_ne_true]
        exact addReplies_invariant h.toLaid hrx hn hfits fn extra
  · rw [if_neg hn]
    exact ⟨ns, h⟩

theorem append_invariant (h : WellFormed chip s ns) {txData : List UInt8}
    {observer : Option (RxObserverFn × ℕ)} {n : ℕ} (hobserver : 0 < n → observer.isSome = true)
    (htx : s.cmdBuffer.txNumBytes + txData.length ≤ s.cmdBuffer.maxTxBufferBytes)
    (hrx : s.cmdBuffer.rxNumBytes + n ≤ s.cmdBuffer.maxRxBufferBytes) :
    Exec.wp (ftBufferAppend txData observer n) (fun _ t => ∃ ns', WellFormed chip t ns') Oom s := by
  unfold ftBufferAppend
  rw [Exec.wp_bind]
  refine Exec.wp_mono (appendTx_invariant h htx) ?_ (fun _ _ he => he)
  rintro _ t ⟨ht, hsame⟩
  rw [Exec.wp_bind]
  refine Exec.wp_mono (appendRx_invariant ht hobserver ?_) (fun _ _ hu => hu) (fun _ _ he => he)
  rw [hsame, ht.maxRx, ← h.maxRx]
  exact hrx

/-- Every call keeps the invariant, and only an exhausted pool ends the process. -/
theorem perform_invariant (h : WellFormed chip s ns) {call : Call} (hcall : call.Admissible chip) :
    Exec.wp (call.perform io) (fun _ t => ∃ ns', WellFormed chip t ns') Oom s := by
  cases call with
  | add txData observer n =>
      obtain ⟨htx, hrx, hobserver⟩ := hcall
      change Exec.wp (ftBufferAddWriteToChipWithReadback io txData observer n) _ _ s
      unfold ftBufferAddWriteToChipWithReadback andM
      rw [Exec.wp_bind]
      refine Exec.wp_mono (ensure_invariant h htx hrx) ?_ (fun _ _ he => he)
      rintro (_ | _) t ⟨ns', ht, hroom⟩
      · exact ⟨ns', ht⟩
      · exact append_invariant ht hobserver (hroom rfl).1 (hroom rfl).2
  | addSimple txData rxData n =>
      obtain ⟨htx, hrx⟩ := hcall
      change Exec.wp (ftBufferAddWriteToChipWithReadbackSimple io txData rxData n) _ _ s
      unfold ftBufferAddWriteToChipWithReadbackSimple
      rw [Exec.wp_bind]
      refine Exec.wp_mono (ensure_invariant h htx hrx) ?_ (fun _ _ he => he)
      rintro (_ | _) t ⟨ns', ht, hroom⟩
      · exact ⟨ns', ht⟩
      · rw [if_pos rfl, Exec.wp_bind]
        refine wp_allocObject ht.fatalOom (by decide) ?_ (fun n => ⟨n, rfl⟩)
        rw [deref_some, Exec.wp_bind, Exec.wp_pure, Exec.wp_bind, Exec.wp_modify]
        have hrecord : WellFormed chip
            { t with
              cmdBuffer := { t.cmdBuffer with
                pool := t.cmdBuffer.pool.cut (t.cmdBuffer.pool.adjustedHead alignofRecord)
                  sizeofByteCopierExtra }
              blocks := t.blocks ++
                [⟨t.cmdBuffer.pool.adjustedHead alignofRecord, sizeofByteCopierExtra,
                  alignofRecord⟩]
              byteExtras := Function.update t.byteExtras
                (t.cmdBuffer.pool.adjustedHead alignofRecord) ⟨rxData, n⟩ } ns' :=
          { ht with
            allocated := fun b hb => List.mem_append_left _ (ht.allocated b hb)
            below := below_concat ht.below (TxvcMempool.head_le_adjustedHead _ _) }
        exact append_invariant hrecord (fun _ => rfl) (hroom rfl).1 (hroom rfl).2
  | flush =>
      refine Exec.wp_mono (flush_invariant h) ?_ (fun _ _ he => he)
      rintro (_ | _) t ht
      · exact ⟨ns, ht⟩
      · exact ⟨[], ht.1⟩

end Calls

/-! ## Runs -/

/-- The state that `ft_buffer_init` leaves. -/
structure State.Initial (poolStart chip : ℕ) (s : State τ) : Prop where
  cmdBuffer : s.cmdBuffer = ftBufferInit poolStart chip
  blocks : s.blocks = []
  slices : s.slices = []
  copies : s.copies = []

/-- The states after any calls that the pool had room for, whatever they
returned. -/
inductive Reached (io : D2xx τ) (chip : ℕ) (s₀ : State τ) : State τ → Prop
  | init : Reached io chip s₀ s₀
  | call {s t : State τ} {ok : Bool} (call : Call) : Reached io chip s₀ s →
      call.Admissible chip → call.perform io s = .ok (ok, t) → Reached io chip s₀ t

theorem State.Initial.wellFormed {poolStart chip : ℕ} {s : State τ} (h : s.Initial poolStart chip) :
    WellFormed chip s [] := by
  obtain ⟨hbuffer, hblocks, hslices, hcopies⟩ := h
  obtain ⟨cmdBuffer, bytes, nodes, mem, bitExtras, byteExtras, usb, calls, blocks, slices,
    copies⟩ := s
  dsimp only at hbuffer hblocks hslices hcopies
  subst hbuffer hblocks hslices hcopies
  exact ⟨⟨rfl, rfl, rfl, Nat.zero_le _, Nat.zero_le _, iff_of_true rfl rfl, rfl, rfl, rfl, rfl,
    .nil, List.forall_mem_nil _, List.forall_mem_nil _, List.forall_mem_nil _⟩,
    iff_of_true rfl rfl⟩

theorem Reached.wellFormed {io : D2xx τ} {poolStart chip : ℕ} {s₀ s : State τ}
    (h₀ : s₀.Initial poolStart chip) (h : Reached io chip s₀ s) : ∃ ns, WellFormed chip s ns := by
  induction h with
  | init => exact ⟨[], h₀.wellFormed⟩
  | call call _ hcall hrun ih =>
      obtain ⟨ns, hns⟩ := ih
      exact Exec.wp_ok (perform_invariant hns hcall) hrun

/-- After any calls, with any failures and short transfers, the buffer is well
formed and has nodes exactly if it expects replies; the next call can only end
the process for want of pool space. -/
theorem buffer_representation (io : D2xx τ) {poolStart chip : ℕ} {s₀ s : State τ}
    (h₀ : s₀.Initial poolStart chip) (h : Reached io chip s₀ s) :
    ∃ ns, WellFormed chip s ns ∧
      (s.cmdBuffer.rxObserverFirst = none ↔ s.cmdBuffer.rxNumBytes = 0) ∧
      ∀ call : Call, call.Admissible chip →
        Exec.wp (call.perform io) (fun _ _ => True) Oom s := by
  obtain ⟨ns, hns⟩ := h.wellFormed h₀
  refine ⟨ns, hns, hns.links.eq_none_iff.trans hns.nodes_nil_iff, fun call hcall => ?_⟩
  exact Exec.wp_mono (perform_invariant hns hcall) (fun _ _ _ => trivial) (fun _ _ he => he)

/-- A library whose writes succeed and whose reads fail. -/
def deafD2xx : D2xx Unit where
  ftWrite data _ := (⟨true, data.length⟩, ())
  ftRead _ _ := (⟨false, []⟩, ())

def initialState : State Unit where
  cmdBuffer := ftBufferInit 0x1000 1024
  bytes _ := 0
  nodes _ := ⟨none, .bitCopier, 0, 0⟩
  mem _ _ := 0
  bitExtras _ := ⟨0, ⟨.resp, 0⟩, 0, 0⟩
  byteExtras _ := ⟨⟨.resp, 0⟩, 0⟩
  usb := ()
  calls := []
  blocks := []
  slices := []
  copies := []

/-- A read fails, and another one is queued behind it. -/
theorem buffer_representation_deaf :
    ∃ s : State Unit, s.slices = [(0, 2), (2, 1)] ∧ s.cmdBuffer.txNumBytes = 3 ∧
      ∃ ns, WellFormed 1024 s ns := by
  have h₀ : initialState.Initial 0x1000 1024 := ⟨rfl, rfl, rfl, rfl⟩
  have hfirst : Reached deafD2xx 1024 initialState _ :=
    .call (.addSimple [0xab] ⟨.resp, 0⟩ 2) .init ⟨by decide, by decide⟩ rfl
  have hflush : Reached deafD2xx 1024 initialState _ := .call .flush hfirst trivial rfl
  have hsecond : Reached deafD2xx 1024 initialState _ :=
    .call (.add [1, 2, 3] (some (.bitCopier, 0)) 1) hflush ⟨by decide, by decide, fun _ => rfl⟩ rfl
  obtain ⟨ns, hns, -⟩ := buffer_representation deafD2xx h₀ hsecond
  exact ⟨_, rfl, rfl, ns, hns⟩

end Cells

end TinyXvc
