import TinyXvc.FtdiGeneric.Shifts
import TinyXvc.Lib.Tiling

/-!
# The commands of a TDI shift

The requests of `append_tdi_shift_to_transaction` are cut into commands, each
for a slice of the shifted bits.  The slices tile the range; a command carries
the TDI bits of its slice, and its observer puts the reply where they came
from.
-/

namespace TinyXvc

open Mpsse Tiling

/-- A command of a TDI shift, by the bits it is for. -/
inductive TdiCommand where
  | bits (fromBitIdx numBits : ℕ)
  | octets (octet numOctets : ℕ)
  | last (bitIdx : ℕ)
  deriving DecidableEq, Repr

/-- The first bit of a command, and how many there are. -/
def TdiCommand.slice : TdiCommand → ℕ × ℕ
  | bits fromBitIdx numBits => (fromBitIdx, numBits)
  | octets octet numOctets => (8 * octet, 8 * numOctets)
  | last bitIdx => (bitIdx, 1)

/-- The order of the commands of a shift. -/
structure TdiLayout where
  leading : Option (ℕ × ℕ)
  inner : List (ℕ × ℕ)
  trailing : Option (ℕ × ℕ)
  lastBitIdx : ℕ

def TdiLayout.commands (l : TdiLayout) : List TdiCommand :=
  (l.leading.map fun x => .bits x.1 x.2).toList ++ (l.inner.map fun x => .octets x.1 x.2) ++
    ((l.trailing.map fun x => .bits x.1 x.2).toList ++ [.last l.lastBitIdx])

namespace TdiShift

variable (t : TdiShift)

/-- What the requests that queue a command have to be like. -/
def CarriedBy (chip : ℕ) : TdiCommand → List Request → Prop
  | .bits a n, qs => 1 ≤ n ∧ n ≤ 7 ∧ a % 8 + n ≤ 8 ∧
      ∃ op len payload e, qs = [.readBits [op, len, payload] e] ∧
        Opcode.decode op = .shiftBits ∧ len.toNat + 1 = n ∧
        (∀ i < n, Octet.bit payload i = t.tdi.bit (a + i)) ∧
        ∀ reply m, Stored m ((RxCopy.bits e).run (Octets.ofList [reply]) m) t.tdo a
          ((List.range n).map fun i => Octet.bit reply (8 - n + i))
  | .octets octet k, qs => 1 ≤ k ∧ k ≤ chip ∧
      ∃ op lo hi payload rxData, qs = [.write [op, lo, hi], .readBytes payload rxData k] ∧
        Opcode.decode op = .shiftOctets ∧
        (chip ≤ 65536 → lo.toNat + 256 * hi.toNat + 1 = k) ∧ payload.length = k ∧
        (∀ i < 8 * k, (Octets.ofList payload).bit i = t.tdi.bit (8 * octet + i)) ∧
        ∀ replies m, Stored m ((RxCopy.bytes ⟨rxData, k⟩).run (Octets.ofList replies) m) t.tdo
          (8 * octet) ((Octets.ofList replies).bits 0 (8 * k))
  | .last b, qs => ∃ op levels e, qs = [.readBits [op, 0x00, levels] e] ∧
      Opcode.decode op = .shiftTms true ∧ Octet.bit levels 7 = t.tdi.bit b ∧
      Octet.bit levels 0 = t.lastTmsBitHigh ∧ Octet.bit levels 1 = t.lastTmsBitHigh ∧
      ∀ reply m, Stored m ((RxCopy.bits e).run (Octets.ofList [reply]) m) t.tdo b
        [Octet.bit reply 7]

/-- The requests are those of a layout whose commands tile the shifted bits. -/
def EncodedBy (chip : ℕ) (l : TdiLayout) (qs : List Request) : Prop :=
  ∃ groups, qs = groups.flatten ∧ List.Forall₂ (t.CarriedBy chip) l.commands groups ∧
    Tiling.Tiles t.fromBitIdx t.toBitIdx (l.commands.map TdiCommand.slice) ∧
    (∀ x ∈ l.trailing, x.1 % 8 = 0) ∧ l.lastBitIdx = t.toBitIdx - 1

/-! ## Single commands -/

/-- The bit copier puts a reply of one octet back in place. -/
theorem stored_reply (m : Mem) (tdo : Ptr) (a : ℕ) {n : ℕ} (hn : n ≤ 8) (reply : UInt8) :
    Stored m ((RxCopy.bits ⟨8 - n, tdo, a, n⟩).run (Octets.ofList [reply]) m) tdo a
      ((List.range n).map fun i => Octet.bit reply (8 - n + i)) := by
  refine stored_bitCopier _ _ m ?_
  apply List.map_congr_left
  intro i hi
  have hi' := List.mem_range.mp hi
  have hdiv : (8 - n + i) / 8 = 0 := by omega
  have hmod : (8 - n + i) % 8 = 8 - n + i := by omega
  rw [Octets.bit, hdiv, hmod]
  rfl

theorem toNat_numBits {n : ℕ} (h1 : 1 ≤ n) (h7 : n ≤ 7) : (UInt8.ofNat (n - 1)).toNat + 1 = n := by
  rw [UInt8.toNat_ofNat']
  omega

variable {t} {chip : ℕ}

theorem carriedBy_bits {a n : ℕ} (h1 : 1 ≤ n) (h7 : n ≤ 7) (hoctet : a % 8 + n ≤ 8)
    {payload : UInt8} (hpayload : ∀ i < n, Octet.bit payload i = t.tdi.bit (a + i)) :
    t.CarriedBy chip (.bits a n) [.readBits (tdiBitsCmd n payload) ⟨8 - n, t.tdo, a, n⟩] :=
  ⟨h1, h7, hoctet, _, _, payload, _, rfl, rfl, toNat_numBits h1 h7, hpayload,
    fun reply m => stored_reply m t.tdo a (by omega) reply⟩

theorem carriedBy_octets {octet k : ℕ} (h1 : 1 ≤ k) (hchip : k ≤ chip) :
    t.CarriedBy chip (.octets octet k)
      [.write (tdiOctetsCmd k),
        .readBytes ((List.range k).map fun i => t.tdi (octet + i)) (t.tdo.add octet) k] := by
  refine ⟨h1, hchip, _, _, _, _, _, rfl, rfl, fun hmax => ?_, by simp, fun i hi => ?_,
    fun replies m => stored_add (stored_byteCopier _ ⟨t.tdo.add octet, k⟩ m rfl)⟩
  · have hoperands := octets_operands h1 (hchip.trans hmax)
    omega
  · have hlt : i / 8 < k := by omega
    have hdiv : (8 * octet + i) / 8 = octet + i / 8 := by omega
    have hmod : (8 * octet + i) % 8 = i % 8 := by omega
    rw [Octets.bit, Octets.bit, hdiv, hmod]
    simp [Octets.ofList, List.getD_eq_getElem?_getD, hlt]

theorem carriedBy_last : t.CarriedBy chip (.last t.split.lastBitIdx) [t.lastRequest] := by
  have hbits : ∀ d m : Bool,
      Octet.bit (ofBool d <<< 7 ||| ofBool m <<< 1 ||| ofBool m) 7 = d ∧
        Octet.bit (ofBool d <<< 7 ||| ofBool m <<< 1 ||| ofBool m) 0 = m ∧
        Octet.bit (ofBool d <<< 7 ||| ofBool m <<< 1 ||| ofBool m) 1 = m := by
    decide
  obtain ⟨htdi, htms, htms'⟩ := hbits (getBit t.tdi t.split.lastBitIdx) t.lastTmsBitHigh
  exact ⟨_, _, _, rfl, rfl, htdi.trans (getBit_eq _ _), htms, htms',
    fun reply m => stored_reply m t.tdo _ (by decide : 1 ≤ 8) reply⟩

/-! ## The parts of the layout -/

variable (chip) in
theorem carriedBy_leading (hn : t.split.numLeadingBits > 0) (h8 : t.split.numLeadingBits < 8) :
    List.Forall₂ (t.CarriedBy chip) [.bits t.fromBitIdx t.split.numLeadingBits]
      [t.leadingRequests] := by
  have hle := t.numLeadingBits_le
  unfold leadingRequests
  dsimp only
  rw [if_pos hn]
  refine .cons (carriedBy_bits hn (by omega) hle fun i hi => ?_) .nil
  have hdiv : (t.fromBitIdx + i) / 8 = t.fromBitIdx / 8 := by omega
  have hmod : (t.fromBitIdx + i) % 8 = t.fromBitIdx % 8 + i := by omega
  rw [Octet.bit_shiftRight _ (Nat.mod_lt _ (by decide)), Octets.bit, hdiv, hmod]

/-- The whole octets are sent in pieces of at most `chip` octets. -/
theorem exists_inner (hchip : 1 ≤ chip) (octet n : ℕ) :
    ∃ (inner : List (ℕ × ℕ)) (groups : List (List Request)),
      t.innerRequests chip octet n = groups.flatten ∧
        List.Forall₂ (t.CarriedBy chip) (inner.map fun x => .octets x.1 x.2) groups ∧
        Tiling.Tiles (8 * octet) (8 * (octet + n))
          ((inner.map fun x => TdiCommand.octets x.1 x.2).map TdiCommand.slice) := by
  induction n using Nat.strong_induction_on generalizing octet with
  | _ n ih =>
      rw [innerRequests]
      by_cases hn : 0 < n
      · rw [if_pos ⟨hn, hchip⟩]
        dsimp only
        generalize hk : min n chip = k
        obtain ⟨inner, groups, hqs, hcarry, htiles⟩ := ih (n - k) (by omega) (octet + k)
        refine ⟨(octet, k) :: inner, _ :: groups, ?_,
          .cons (carriedBy_octets (by omega) (by omega)) hcarry, rfl, ?_, ?_⟩
        · rw [hqs]
          rfl
        · change 0 < 8 * k
          omega
        · have hstart : 8 * octet + 8 * k = 8 * (octet + k) := by omega
          have hend : 8 * (octet + k + (n - k)) = 8 * (octet + n) := by omega
          rw [hend] at htiles
          change Tiling.Tiles (8 * octet + 8 * k) _ _
          rw [hstart]
          exact htiles
      · have hzero : n = 0 := by omega
        rw [if_neg (fun h => hn h.1), hzero]
        exact ⟨[], [], rfl, .nil, rfl⟩

/-- A part of at most seven bits is there if it is not empty. -/
theorem exists_part {a n : ℕ} {qs : List Request} (hnil : ¬n > 0 → qs = [])
    (hcarry : n > 0 → List.Forall₂ (t.CarriedBy chip) [.bits a n] [qs]) :
    ∃ (part : Option (ℕ × ℕ)) (groups : List (List Request)), qs = groups.flatten ∧
      List.Forall₂ (t.CarriedBy chip) (part.map fun x => .bits x.1 x.2).toList groups ∧
      Tiling.Tiles a (a + n)
        ((part.map fun x => TdiCommand.bits x.1 x.2).toList.map TdiCommand.slice) ∧
      ∀ x ∈ part, x.1 = a := by
  by_cases hn : n > 0
  · refine ⟨some (a, n), [qs], (List.append_nil qs).symm, hcarry hn, tiles_singleton hn, ?_⟩
    rintro x ⟨⟩
    rfl
  · have hzero : n = 0 := by omega
    refine ⟨none, [], hnil hn, .nil, ?_, fun x hx => absurd hx (Option.not_mem_none x)⟩
    rw [hzero]
    rfl

variable (chip) in
theorem carriedBy_trailing {octet : ℕ} (hend : t.split.innerEndIdx = 8 * octet)
    (hn : t.split.numTrailingBits > 0) (h8 : t.split.numTrailingBits < 8) :
    List.Forall₂ (t.CarriedBy chip) [.bits (8 * octet) t.split.numTrailingBits]
      [t.trailingRequests] := by
  have hnat : t.split.innerEndIdx.toNat = 8 * octet := by omega
  unfold trailingRequests
  dsimp only
  rw [if_pos hn, hnat]
  refine .cons (carriedBy_bits hn (by omega) (by omega) fun i hi => ?_) .nil
  exact (Octets.bit_of_aligned t.tdi (by omega) (by omega)).symm

/-- What is sent between the leading bits and the last one. -/
theorem exists_middle (h : t.fromBitIdx < t.toBitIdx) (hchip : 1 ≤ chip) :
    ∃ (inner : List (ℕ × ℕ)) (trailing : Option (ℕ × ℕ)) (groups trails : List (List Request))
      (mid : ℕ),
      t.innerRequests chip t.innerOctet t.innerOctets = groups.flatten ∧
        List.Forall₂ (t.CarriedBy chip) (inner.map fun x => .octets x.1 x.2) groups ∧
        Tiling.Tiles (t.fromBitIdx + t.split.numLeadingBits) mid
          ((inner.map fun x => TdiCommand.octets x.1 x.2).map TdiCommand.slice) ∧
        t.trailingRequests = trails.flatten ∧
        List.Forall₂ (t.CarriedBy chip) (trailing.map fun x => .bits x.1 x.2).toList trails ∧
        Tiling.Tiles mid t.split.lastBitIdx
          ((trailing.map fun x => TdiCommand.bits x.1 x.2).toList.map TdiCommand.slice) ∧
        ∀ x ∈ trailing, x.1 % 8 = 0 := by
  have hnoTrail : ¬t.split.numTrailingBits > 0 → t.trailingRequests = [] := fun hn => by
    unfold trailingRequests
    dsimp only
    rw [if_neg hn]
  obtain ⟨-, -, htrail8, ⟨hend, hinner, htrail⟩ | ⟨hbegin, -, hinnerEnd, hend⟩⟩ := t.split_cases h
  · -- all bits before the last one are leading ones
    have hnone : t.innerRequests chip t.innerOctet t.innerOctets = [] := by
      rw [innerRequests, if_neg (by omega)]
    exact ⟨[], none, [], [], _, hnone, .nil, rfl, hnoTrail (by omega), .nil, hend,
      fun x hx => absurd hx (Option.not_mem_none x)⟩
  · obtain ⟨inner, groups, hgroups, hcarry, htiles⟩ :=
      exists_inner (t := t) hchip t.innerOctet t.innerOctets
    obtain ⟨trailing, trails, htrails, hcarry', htiles', hstart⟩ :=
      exists_part hnoTrail fun hn => carriedBy_trailing chip hinnerEnd hn htrail8
    rw [← hbegin] at htiles
    rw [hend] at htiles'
    refine ⟨inner, trailing, groups, trails, _, hgroups, hcarry, htiles, htrails, hcarry', htiles',
      fun x hx => ?_⟩
    rw [hstart x hx]
    exact Nat.mul_mod_right 8 _

variable (t) in
/-- The requests of a shift are laid out as commands for all its bits. -/
theorem exists_layout (h : t.fromBitIdx < t.toBitIdx) (hchip : 1 ≤ chip) :
    ∃ l, t.EncodedBy chip l (t.requests chip) := by
  obtain ⟨hlast, hlead8, -, -⟩ := t.split_cases h
  have hnoLead : ¬t.split.numLeadingBits > 0 → t.leadingRequests = [] := by
    intro hn
    unfold leadingRequests
    dsimp only
    rw [if_neg hn]
  obtain ⟨leading, leads, hleads, hcarry, htiles, -⟩ :=
    exists_part hnoLead fun hn => carriedBy_leading chip hn hlead8
  obtain ⟨inner, trailing, groups, trails, mid, hgroups, hcarry', htiles', htrails, hcarry'',
    htiles'', haligned⟩ := exists_middle h hchip
  refine ⟨⟨leading, inner, trailing, t.split.lastBitIdx⟩,
    leads ++ groups ++ (trails ++ [[t.lastRequest]]), ?_, ?_, ?_, haligned,
    Nat.eq_sub_of_add_eq hlast⟩
  · rw [requests, hleads, hgroups, htrails]
    simp only [List.flatten_append, List.flatten_cons, List.flatten_nil, List.append_nil]
  · have hend : List.Forall₂ (t.CarriedBy chip) [.last t.split.lastBitIdx] [[t.lastRequest]] :=
      .cons carriedBy_last .nil
    exact List.rel_append (List.rel_append hcarry hcarry') (List.rel_append hcarry'' hend)
  · have hend := (htiles.append htiles').append (htiles''.concat Nat.one_pos)
    rw [hlast] at hend
    simp only [TdiLayout.commands, List.map_append]
    exact hend

end TdiShift

/-! ## The history of the appends -/

section History

variable {τ : Type} (io : D2xx τ)

/-- What was appended with a request. -/
def Request.data (q : Request) : QueuedData := ⟨q.txData, q.rxNumBytes⟩

theorem append_history (txData : List UInt8) (observer : Option (RxObserverFn × ℕ)) (n : ℕ)
    (s : Sys τ) :
    Exec.wp (ftBufferAppend txData observer n)
      (fun _ s' => s'.queued = s.queued ++ [⟨txData, n⟩]) (fun _ _ => True) s := by
  have hsteps : AppendSteps fun α (x : Prog τ α) =>
      Exec.Preserves (fun t => t.queued = s.queued) (fun _ _ => True) x :=
    appendSteps_preserves (fun _ _ _ _ => trivial) fun _ _ ht => ht
  unfold ftBufferAppend
  rw [Exec.wp_bind]
  refine Exec.wp_mono (hsteps.appendTx txData s rfl) ?_ (fun _ _ he => he)
  intro _ t ht
  rw [Exec.wp_bind]
  refine Exec.wp_mono (hsteps.appendRx observer n t ht) ?_ (fun _ _ he => he)
  intro _ u hu
  change u.queued ++ [_] = _
  rw [hu]

/-- Making room for an append appends nothing. -/
theorem ensure_history (m n : ℕ) (s : Sys τ) :
    Exec.wp (ftBufferEnsureCanAppend io m n) (fun _ s' => s'.queued = s.queued)
      (fun _ _ => True) s := by
  have hflush : Exec.Preserves (fun t : Sys τ => t.queued = s.queued) (fun _ _ => True)
      (ftBufferFlush io) :=
    ftBufferFlush_preserves io (fun _ _ ht => ht) (fun _ _ _ _ _ ht => ht)
  refine cmdBuffer_preserves.bind (fun b => Exec.Preserves.bind ?_ fun _ => ?_) s rfl
  · exact (Exec.Preserves.pure _).ite (Exec.Preserves.abort fun _ _ => trivial)
  · exact hflush.ite (Exec.Preserves.pure _)

theorem add_history (txData : List UInt8) (observer : Option (RxObserverFn × ℕ)) (n : ℕ)
    (s : Sys τ) :
    Exec.wp (ftBufferAddWriteToChipWithReadback io txData observer n)
      (fun ok s' => ok = true → s'.queued = s.queued ++ [⟨txData, n⟩]) (fun _ _ => True) s := by
  unfold ftBufferAddWriteToChipWithReadback andM
  rw [Exec.wp_bind]
  refine Exec.wp_mono (ensure_history io txData.length n s) ?_ (fun _ _ he => he)
  intro ok t ht
  cases ok with
  | false => exact fun hfalse => absurd hfalse Bool.false_ne_true
  | true =>
      refine Exec.wp_mono (append_history txData observer n t) ?_ (fun _ _ he => he)
      intro _ u hu _
      rw [hu, ht]

theorem Request.queue_history (q : Request) (s : Sys τ) :
    Exec.wp (q.queue io) (fun ok s' => ok = true → s'.queued = s.queued ++ [q.data])
      (fun _ _ => True) s := by
  have htrivial : ∀ (e : Abort) (t : Sys τ), e.OfBuffer → t.queued = s.queued → True :=
    fun _ _ _ _ => trivial
  cases q with
  | write cmd => exact add_history io cmd none 0 s
  | readBits cmd e =>
      change Exec.wp (addBitRead io cmd e) _ _ s
      unfold addBitRead allocDriver
      rw [Exec.wp_bind, Exec.wp_bind, Exec.wp_get, Exec.wp_bind]
      refine Exec.wp_mono (allocAligned_preserves htrivial _ _ _ s rfl) ?_ (fun _ _ he => he)
      intro p t ht
      rw [Exec.wp_bind, Exec.wp_modify, Exec.wp_pure, Exec.wp_bind]
      refine Exec.wp_mono (deref_preserves htrivial p.1 _ ht) ?_ (fun _ _ he => he)
      intro addr u hu
      rw [Exec.wp_bind, Exec.wp_modify]
      refine Exec.wp_mono (add_history io cmd (some (.bitCopier, addr)) 1 _) ?_ (fun _ _ he => he)
      intro ok x hx hok
      rw [hx hok]
      exact congrArg (· ++ [_]) hu
  | readBytes txData rxData n =>
      change Exec.wp (ftBufferAddWriteToChipWithReadbackSimple io txData rxData n) _ _ s
      unfold ftBufferAddWriteToChipWithReadbackSimple
      rw [Exec.wp_bind]
      refine Exec.wp_mono (ensure_history io txData.length n s) ?_ (fun _ _ he => he)
      rintro (_ | _) t ht
      · exact fun hfalse => absurd hfalse Bool.false_ne_true
      · have halloc : Exec.Preserves (fun u : Sys τ => u.queued = s.queued) (fun _ _ => True)
            (allocCmd fun pool =>
              txvcMempoolAllocAligned pool sizeofByteCopierExtra alignofRecord) :=
          cmdBuffer_preserves.bind fun _ => (allocAligned_preserves htrivial _ _ _).bind fun _ =>
            (modifyCmdBuffer_preserves (fun _ _ h => h) _).bind fun _ => Exec.Preserves.pure _
        rw [if_pos rfl, Exec.wp_bind]
        refine Exec.wp_mono (halloc t ht) ?_ (fun _ _ he => he)
        intro p u hu
        rw [Exec.wp_bind]
        refine Exec.wp_mono (deref_preserves htrivial p u hu) ?_ (fun _ _ he => he)
        intro addr x hx
        rw [Exec.wp_bind, Exec.wp_modify]
        refine Exec.wp_mono (append_history txData (some (.byteCopier, addr)) n _) ?_
          (fun _ _ he => he)
        intro _ y hy _
        rw [hy]
        exact congrArg (· ++ [_]) hx

/-- Requests that all succeed are appended one after another. -/
theorem queueAll_history (qs : List Request) (s : Sys τ) :
    Exec.wp (qs.allM (Request.queue io))
      (fun ok s' => ok = true → s'.queued = s.queued ++ qs.map Request.data)
      (fun _ _ => True) s := by
  induction qs generalizing s with
  | nil => exact fun _ => (List.append_nil _).symm
  | cons q qs ih =>
      rw [List.allM_cons, Exec.wp_bind]
      refine Exec.wp_mono (q.queue_history io s) ?_ (fun _ _ he => he)
      rintro (_ | _) t ht
      · exact fun hfalse => absurd hfalse Bool.false_ne_true
      · refine Exec.wp_mono (ih t) ?_ (fun _ _ he => he)
        intro ok u hu hok
        rw [hu hok, ht rfl, List.append_assoc]
        rfl

end History

/-- The encoder cuts its range into commands for all its bits, and then does
nothing but append their requests: none of its own assertions fails, and it
ends as soon as the appends do. -/
theorem tdi_range_partitioned (t : TdiShift) (h : t.fromBitIdx < t.toBitIdx) {chip : ℕ}
    (hchip : 1 ≤ chip) :
    ∃ l qs, t.EncodedBy chip l qs ∧
      (∀ k, (l.commands.map TdiCommand.slice).countP (Covers k) =
        if t.fromBitIdx ≤ k ∧ k < t.toBitIdx then 1 else 0) ∧
      ∀ {τ : Type} (io : D2xx τ) (s : Sys τ), s.gFtdi.chipBufferBytes = chip →
        appendTdiShiftToTransaction io t s = (qs.allM (Request.queue io) >>= t.finish) s ∧
        ∀ s', qs.allM (Request.queue io) s = .ok (true, s') →
          ∃ s'', appendTdiShiftToTransaction io t s = .ok (true, s'') ∧
            s''.queued = s.queued ++ qs.map Request.data := by
  obtain ⟨l, hl⟩ := t.exists_layout h hchip
  refine ⟨l, t.requests chip, hl, fun k => ?_, fun io s hs => ?_⟩
  · obtain ⟨-, -, -, htiles, -⟩ := hl
    exact htiles.countP_covers
  · have heq := appendTdiShift_eq io h s (hchip.trans_eq hs.symm)
    rw [hs] at heq
    refine ⟨heq, fun s' hrun => ?_⟩
    rw [Exec.bind_ok hrun] at heq
    have hqueued := Exec.wp_ok (queueAll_history io _ s) hrun rfl
    exact ⟨_, heq, hqueued⟩

/-- The 27 bits from bit 3 on, for a chip with a buffer of 4096 bytes. -/
theorem tdi_range_partitioned_27_bits :
    ∃ l qs, TdiShift.EncodedBy ⟨fun _ => 0xa5, ⟨.vector 0, 0⟩, 3, 30, true⟩ 4096 l qs := by
  obtain ⟨l, qs, hl, -⟩ := tdi_range_partitioned ⟨fun _ => 0xa5, ⟨.vector 0, 0⟩, 3, 30, true⟩
    (by decide) (show 1 ≤ 4096 by decide)
  exact ⟨l, qs, hl⟩

end TinyXvc
