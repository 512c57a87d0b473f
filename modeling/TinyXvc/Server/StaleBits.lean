import TinyXvc.FtdiGeneric.Blindness
import TinyXvc.FtdiGeneric.PoolLimit
import TinyXvc.JtagSplitter.LoopBounds
import TinyXvc.Server.Conformance

/-!
# What the client sees of stale memory

The server answers a shift request with its TDO vector, which is never cleared.
The FTDI driver stores the samples of the clocks in the shift states there, and
leaves the other bits as they are.
-/

namespace TinyXvc.Server

open Mpsse

/-- The TDO vector of the connection. -/
def tdoVector : Ptr := ⟨.vector 0, 0⟩

def shiftRequest (numBits : ℕ) (tms tdi : List UInt8) : SplitRequest :=
  ⟨numBits, Octets.ofList tms, Octets.ofList tdi, tdoVector⟩

/-- A driver whose TDO vector holds `tdo`. -/
def withTdo (s : Sys Usb) (tdo : Octets) : Sys Usb := { s with mem := s.mem.write tdoVector tdo }

/-- `set_tck_period`: what it returns, and the driver; `none` is a process that has
ended. -/
def ftdiSetTckPeriod (dev : Device) (tckPeriodNs : ℤ) (s : Sys Usb) : ℤ × Option (Sys Usb) :=
  match setTckPeriod (link dev) tckPeriodNs s with
  | .ok (period, t) => (period, some t)
  | .error _ => (-1, none)

/-- `shift_bits`: what it returns, the TDO vector, and the driver. -/
def ftdiShiftBits (dev : Device) (r : SplitRequest) (tdo : Octets) (s : Sys Usb) :
    Bool × Octets × Option (Sys Usb) :=
  match shiftBits (link dev) r (withTdo s tdo) with
  | .ok (ok, t) => (ok, t.mem.view tdoVector, some t)
  | .error _ => (false, tdo, none)

/-- The FTDI driver behind the server. -/
def ftdiDriver (dev : Device) : Driver (Option (Sys Usb)) where
  maxVectorBits := fun d =>
    match d with
    | none => (0, none)
    | some s => (TinyXvc.maxVectorBits s.gFtdi, some s)
  setTckPeriod := fun tckPeriodNs d =>
    match d with
    | none => (-1, none)
    | some s => ftdiSetTckPeriod dev tckPeriodNs s
  shiftBits := fun numBits tms tdi tdo d =>
    match d with
    | none => (false, tdo, none)
    | some s => ftdiShiftBits dev (shiftRequest numBits tms tdi) tdo s

/-- Two connections that have received and sent the same, and whose drivers are in
the state `s`, but for what the memory and the TDO vectors hold. -/
structure Twins (s : Sys Usb) (c₁ c₂ : Conn (Option (Sys Usb))) : Prop where
  unread : c₂.unread = c₁.unread
  trace : c₂.trace = c₁.trace
  vectorNumBytes : c₂.backend.vectorNumBytes = c₁.backend.vectorNumBytes
  driver : c₁.backend.driver = some s
  driver' : ∃ m, c₂.backend.driver = some { s with mem := m }

/-- The shift request that `unread` begins with is answered alike on both of any
two such connections. -/
def StaleFree (dev : Device) (s : Sys Usb) (unread : List UInt8) : Prop :=
  ∀ (io : Client) (heap₁ heap₂ : ℕ → Octets) (c₁ c₂ : Conn (Option (Sys Usb))),
    Twins s c₁ c₂ → c₁.unread = unread →
      traceOf (cmdShift (ftdiDriver dev) heap₁ io c₁) =
        traceOf (cmdShift (ftdiDriver dev) heap₂ io c₂)

/-- The loops do not overflow, and the pool of the driver suffices. -/
def Answered (r : SplitRequest) (st : JtagState) : Prop := r.FitsInt ∧ r.records st ≤ 2730

instance (r : SplitRequest) (st : JtagState) : Decidable (Answered r st) :=
  inferInstanceAs (Decidable (_ ∧ _))

/-- The vector has whole octets, and the TAP shifts at every clock. -/
def FullyWritten (r : SplitRequest) (st : JtagState) : Prop :=
  8 ∣ r.numBits ∧ ∀ k < r.numBits, (r.stateAt st k).isShift = true

instance (r : SplitRequest) (st : JtagState) : Decidable (FullyWritten r st) :=
  inferInstanceAs (Decidable (_ ∧ _))

section Reply

variable {dev : Device} {p : FtParams} {s₀ s : Sys Usb} {numBits : ℕ} {tms tdi : List UInt8}
  {tdo : Octets}

variable (dev s numBits tms tdi tdo) in
/-- The response, if there is one. -/
def shiftReply : Option (List UInt8) :=
  let (ok, tdo, _) := ftdiShiftBits dev (shiftRequest numBits tms tdi) tdo s
  if ok then some ((List.range (vectorOctets numBits)).map tdo) else none

/-- What the TDO vector holds when `shift_bits` gets it. -/
def tdoBefore (heap : ℕ → Octets) (b : Backend (Option (Sys Usb))) (numBits : ℕ) : Octets :=
  if b.vectorNumBytes < vectorOctets numBits then heap b.allocs else b.tdoVector

theorem serve_shift_eq (heap : ℕ → Octets) {b : Backend (Option (Sys Usb))}
    (hb : b.driver = some s) {x : Bool × Octets × Option (Sys Usb)}
    (hx : ftdiShiftBits dev (shiftRequest numBits tms tdi) (tdoBefore heap b numBits) s = x) :
    ∃ allocs, serve (ftdiDriver dev) heap b (.shift numBits tms tdi) =
      if x.1 then
        ([.shiftBits numBits tms tdi, .response ((List.range (vectorOctets numBits)).map x.2.1)],
          some ⟨x.2.2, max b.vectorNumBytes (vectorOctets numBits), x.2.1, allocs⟩)
      else ([.shiftBits numBits tms tdi], none) := by
  obtain ⟨b', hb', hdriver, htdo, hsize⟩ : ∃ b', b' =
      (if b.vectorNumBytes < vectorOctets numBits then
        allocateVectors heap (vectorOctets numBits) b else b) ∧
      b'.driver = some s ∧ b'.tdoVector = tdoBefore heap b numBits ∧
        b'.vectorNumBytes = max b.vectorNumBytes (vectorOctets numBits) := by
    refine ⟨_, rfl, ?_⟩
    unfold tdoBefore
    split
    · exact ⟨hb, rfl, (max_eq_right (le_of_lt ‹_›)).symm⟩
    · exact ⟨hb, rfl, (max_eq_left (not_lt.mp ‹_›)).symm⟩
  have hshift : (ftdiDriver dev).shiftBits numBits tms tdi b'.tdoVector b'.driver = x := by
    rw [hdriver, htdo]
    exact hx
  refine ⟨b'.allocs, ?_⟩
  simp only [serve, ← hb', hshift, hsize]

theorem serve_shift (heap : ℕ → Octets) {b : Backend (Option (Sys Usb))}
    (hb : b.driver = some s) :
    (serve (ftdiDriver dev) heap b (.shift numBits tms tdi)).1 =
      .shiftBits numBits tms tdi ::
        (shiftReply dev s numBits tms tdi (tdoBefore heap b numBits)).toList.map .response := by
  obtain ⟨⟨ok, tdo, d⟩, hx⟩ : ∃ x, ftdiShiftBits dev (shiftRequest numBits tms tdi)
    (tdoBefore heap b numBits) s = x := ⟨_, rfl⟩
  obtain ⟨allocs, hserve⟩ := serve_shift_eq heap hb hx
  rw [hserve, shiftReply, hx]
  cases ok with
  | false => rfl
  | true => rfl

theorem trace_cmdShift (heap : ℕ → Octets) (io : Client) {c : Conn (Option (Sys Usb))}
    {rest : List UInt8} (hread : readShift c.unread = some (.shift numBits tms tdi, rest))
    (hc : c.backend.driver = some s) :
    traceOf (cmdShift (ftdiDriver dev) heap io c) = c.trace ++ .shiftBits numBits tms tdi ::
      (shiftReply dev s numBits tms tdi (tdoBefore heap c.backend numBits)).toList.map
        .response := by
  refine trace_of_wp (P := fun t => t = _) ?_
  refine Exec.wp_mono (cmdShift_spec c) ?_ ?_
  · intro ok c' hhandled
    rw [hread] at hhandled
    rw [← serve_shift heap hc]
    exact hhandled.1
  · rintro e c' ⟨-, hnone, -⟩
    rw [hread] at hnone
    cases hnone

theorem reply_inj {es : List Event} {e : Event} {x y : Option (List UInt8)}
    (h : es ++ e :: x.toList.map .response = es ++ e :: y.toList.map .response) : x = y := by
  have htail := List.tail_eq_of_cons_eq (List.append_cancel_left h)
  cases x with
  | none =>
      cases y with
      | none => rfl
      | some y => cases htail
  | some x =>
      cases y with
      | none => cases htail
      | some y =>
          cases htail
          rfl

theorem staleFree_iff {unread rest : List UInt8}
    (hread : readShift unread = some (.shift numBits tms tdi, rest)) :
    StaleFree dev s unread ↔ ∀ m tdo tdo', shiftReply dev s numBits tms tdi tdo =
      shiftReply dev { s with mem := m } numBits tms tdi tdo' := by
  constructor
  · intro hfree m tdo tdo'
    have hsame := hfree ⟨[], true, promptSchedule.toArrivals⟩ (fun _ => tdo) (fun _ => tdo')
      ⟨unread, 0, ⟨some s, vectorOctets numBits, tdo, 0⟩, []⟩
      ⟨unread, 0, ⟨some { s with mem := m }, vectorOctets numBits, tdo', 0⟩, []⟩
      ⟨rfl, rfl, rfl, rfl, m, rfl⟩ rfl
    rw [trace_cmdShift _ _ hread rfl, trace_cmdShift _ _ hread rfl, tdoBefore, tdoBefore,
      if_neg (lt_irrefl _), if_neg (lt_irrefl _)] at hsame
    exact reply_inj hsame
  · rintro hsame io heap₁ heap₂ c₁ c₂ ⟨hunread, htrace, -, hdriver, m, hdriver'⟩ rfl
    rw [trace_cmdShift heap₁ io hread hdriver,
      trace_cmdShift heap₂ io (hunread ▸ hread) hdriver', htrace, hsame m]

end Reply

/-! ## The bits that are stored -/

section Stored

variable {dev : Device} {p : FtParams} {s₀ s : Sys Usb} {r : SplitRequest}

theorem Reachable.withTdo (h : Reachable dev p s₀ s) (tdo : Octets) :
    Reachable dev p s₀ (withTdo s tdo) := h.caller _

/-- A call ends normally exactly if the request is answered. -/
theorem shiftBits_answered (h₀ : PoweredUp s₀) (h : Reachable dev p s₀ s) (r : SplitRequest) :
    Exec.wp (shiftBits (link dev) r)
      (fun ok t => ok = true ∧ Answered r s.gFtdi.jtagSplitter.state ∧
        ∃ cs, CallShifts .testLogicReset r s t cs)
      (fun _ _ => ¬Answered r s.gFtdi.jtagSplitter.state) s := by
  have hstep := h.inStep h₀ .testLogicReset
  have hfits : Exec.wp (shiftBits (link dev) r) (fun ok _ => ok = true → r.FitsInt)
      (fun _ _ => True) s := by
    unfold shiftBits
    rw [Exec.wp_bind, Exec.wp_get, Exec.wp_bind]
    refine Exec.wp_mono (process_fitsInt _ s.gFtdi.jtagSplitter r s) ?_ fun _ _ _ => trivial
    exact fun _ _ hfit => hfit
  refine Exec.wp_mono (Exec.wp_and (Exec.wp_and (shiftBits_spec hstep r)
    (shiftBits_pool hstep (h.poolsIdle h₀) r)) hfits) ?_ ?_
  · rintro ok t ⟨⟨⟨rfl, -, hcs⟩, -, hrecords⟩, hfit⟩
    exact ⟨rfl, ⟨hfit rfl, hrecords (hfit rfl)⟩, hcs⟩
  · rintro e t ⟨⟨-, ⟨-, hrecords⟩ | ⟨-, hfit⟩⟩, -⟩ hanswered
    · exact absurd hanswered.2 (not_le.mpr hrecords)
    · exact hfit hanswered.1

theorem exists_shift (h₀ : PoweredUp s₀) (h : Reachable dev p s₀ s) {r : SplitRequest}
    (hanswered : Answered r s.gFtdi.jtagSplitter.state) :
    ∃ t, shiftBits (link dev) r s = .ok (true, t) ∧ ∃ cs, CallShifts .testLogicReset r s t cs := by
  obtain ⟨ok, t, hrun, rfl, -, hcs⟩ := Exec.exists_ok (Exec.wp_mono (shiftBits_answered h₀ h r)
    (fun _ _ hok => hok) fun _ _ hnot => hnot hanswered)
  exact ⟨t, hrun, hcs⟩

/-- What a bit of the vector is after the call. -/
theorem bit_stored {tap₀ : Jtag.Tap} {tdo : Octets} {t : Sys Usb} {cs : List Cycle}
    (hr : r.tdo = tdoVector) (h : CallShifts tap₀ r (withTdo s tdo) t cs) (i : ℕ) :
    (t.mem.view tdoVector).bit i =
      if i < r.numBits ∧ (r.tapAt (s.tap tap₀) i).IsShift then
        ((cs.map Cycle.tdo)[i]?).getD false
      else tdo.bit i := by
  have hzero : 8 * tdoVector.off = 0 := rfl
  have htdo := h.shifted.tdo tdoVector.block i
  rw [hr, h.length] at htdo
  rw [Mem.bit_view, hzero, Nat.zero_add, htdo, hzero]
  simp only [Nat.zero_le, Nat.add_zero, Nat.zero_add, Nat.sub_zero, true_and]
  have hbefore : ((withTdo s tdo).mem tdoVector.block).bit i = tdo.bit i := by
    rw [withTdo, Mem.bit_write, if_pos ⟨rfl, hzero.trans_le (Nat.zero_le i)⟩, hzero, Nat.sub_zero]
  rw [hbefore]
  rfl

/-- Two calls that differ in the memory clock the same cycles. -/
theorem cycles_eq {tap₀ : Jtag.Tap} {s' t t' : Sys Usb} {cs cs' : List Cycle}
    (h : CallShifts tap₀ r s t cs) (h' : CallShifts tap₀ r s' t' cs') (hs : s'.usb = s.usb)
    (ht : t'.usb = t.usb) : cs' = cs := by
  have hcycles := h'.cycles
  rw [ht, hs, h.cycles] at hcycles
  exact (List.append_cancel_left hcycles).symm

end Stored

section Independence

variable {dev : Device} {p : FtParams} {s₀ s : Sys Usb} {numBits : ℕ} {tms tdi : List UInt8}

theorem shiftReply_ok {tdo : Octets} {t : Sys Usb}
    (h : shiftBits (link dev) (shiftRequest numBits tms tdi) (withTdo s tdo) = .ok (true, t)) :
    shiftReply dev s numBits tms tdi tdo =
      some ((List.range (vectorOctets numBits)).map (t.mem.view tdoVector)) := by
  rw [shiftReply, ftdiShiftBits, h]
  rfl

theorem shiftReply_error {tdo : Octets} {e : Abort × Sys Usb}
    (h : shiftBits (link dev) (shiftRequest numBits tms tdi) (withTdo s tdo) = .error e) :
    shiftReply dev s numBits tms tdi tdo = none := by
  rw [shiftReply, ftdiShiftBits, h]
  rfl

/-- The response has the same octets if all of their bits are stored. -/
theorem replies_agree (h₀ : PoweredUp s₀) (h : Reachable dev p s₀ s)
    (hwritten : Answered (shiftRequest numBits tms tdi) s.gFtdi.jtagSplitter.state →
      FullyWritten (shiftRequest numBits tms tdi) s.gFtdi.jtagSplitter.state)
    (m : Mem) (tdo tdo' : Octets) :
    shiftReply dev s numBits tms tdi tdo =
      shiftReply dev { s with mem := m } numBits tms tdi tdo' := by
  have hchip := (h.inStep h₀ .testLogicReset).linked.chip_bounds
  have hspec := shiftBits_answered h₀ (Reachable.withTdo h tdo) (shiftRequest numBits tms tdi)
  have hspec' := shiftBits_answered h₀ (Reachable.withTdo (h.caller m) tdo')
    (shiftRequest numBits tms tdi)
  have htwins : MemTwins ∅ (withTdo s tdo) (withTdo { s with mem := m } tdo') :=
    ⟨Nat.lt_of_lt_of_le (by decide) hchip.1, _, fun _ hb => hb.elim, rfl⟩
  have hend := shiftBits_alike (link dev) (shiftRequest numBits tms tdi) htwins
  generalize hrun : shiftBits (link dev) (shiftRequest numBits tms tdi) (withTdo s tdo) = x at hend
  generalize hrun' : shiftBits (link dev) (shiftRequest numBits tms tdi)
    (withTdo { s with mem := m } tdo') = y at hend
  rcases hend with ⟨ok, -, m', -, rfl⟩ | ⟨e, -⟩
  · obtain ⟨rfl, hanswered, cs, hcs⟩ := Exec.wp_ok hspec hrun
    obtain ⟨-, -, cs', hcs'⟩ := Exec.wp_ok hspec' hrun'
    obtain ⟨hwhole, hshift⟩ := hwritten hanswered
    rw [shiftReply_ok hrun, shiftReply_ok hrun']
    refine congrArg some (List.map_congr_left fun j hj => Octet.ext fun i hi => ?_)
    -- bit `i` of octet `j` is a sample of both runs
    have hlt : 8 * j + i < numBits := by
      have hj' := List.mem_range.mp hj
      have hwhole' : 8 ∣ numBits := hwhole
      rw [vectorOctets] at hj'
      omega
    have htracks := (h.inStep h₀ .testLogicReset).tracks
    have hsample := hshift (8 * j + i) hlt
    rw [← SplitRequest.tapAt_isShift, htracks] at hsample
    have hbit := bit_stored rfl hcs (8 * j + i)
    have hbit' := bit_stored rfl hcs' (8 * j + i)
    rw [if_pos ⟨hlt, hsample⟩] at hbit
    rw [if_pos ⟨hlt, hsample⟩, cycles_eq hcs hcs' rfl rfl, ← hbit] at hbit'
    rw [Octets.bit_of_aligned _ (Nat.mul_mod_right 8 j) hi,
      Octets.bit_of_aligned _ (Nat.mul_mod_right 8 j) hi,
      Nat.mul_div_cancel_left j (by decide)] at hbit'
    exact hbit'.symm
  · rw [shiftReply_error hrun, shiftReply_error hrun']

theorem bit_ones (i : ℕ) : Octets.bit (fun _ => 0xff) i = true := by
  have hones : ∀ k < 8, Octet.bit 0xff k = true := by decide
  exact hones (i % 8) (Nat.mod_lt i (by decide))

theorem bit_zeros (i : ℕ) : Octets.bit (fun _ => 0) i = false := by
  have hzeros : ∀ k < 8, Octet.bit 0 k = false := by decide
  exact hzeros (i % 8) (Nat.mod_lt i (by decide))

/-- Vectors of zeroes and of ones give the same response only if all bits are stored. -/
theorem fullyWritten_of_agree (h₀ : PoweredUp s₀) (h : Reachable dev p s₀ s)
    (hagree : shiftReply dev s numBits tms tdi (fun _ => 0) =
      shiftReply dev s numBits tms tdi (fun _ => 0xff))
    (hanswered : Answered (shiftRequest numBits tms tdi) s.gFtdi.jtagSplitter.state) :
    FullyWritten (shiftRequest numBits tms tdi) s.gFtdi.jtagSplitter.state := by
  obtain ⟨t, hrun, cs, hcs⟩ := exists_shift h₀ (Reachable.withTdo h fun _ => 0) hanswered
  obtain ⟨t', hrun', cs', hcs'⟩ := exists_shift h₀ (Reachable.withTdo h fun _ => 0xff) hanswered
  rw [shiftReply_ok hrun, shiftReply_ok hrun'] at hagree
  have hoctets := List.map_inj_left.mp (Option.some.inj hagree)
  have hstored : ∀ i < 8 * vectorOctets numBits, i < (shiftRequest numBits tms tdi).numBits ∧
      ((shiftRequest numBits tms tdi).tapAt (s.tap .testLogicReset) i).IsShift := by
    intro i hi
    by_contra hnot
    have hbit := bit_stored rfl hcs i
    have hbit' := bit_stored rfl hcs' i
    rw [if_neg hnot, bit_zeros] at hbit
    rw [if_neg hnot, bit_ones, Octets.bit,
      ← hoctets (i / 8) (List.mem_range.mpr (Nat.div_lt_of_lt_mul hi))] at hbit'
    exact Bool.false_ne_true (hbit.symm.trans hbit')
  have htracks := (h.inStep h₀ .testLogicReset).tracks
  constructor
  · change 8 ∣ numBits
    by_contra hwhole
    have hlt : numBits < 8 * vectorOctets numBits := by
      rw [vectorOctets]
      omega
    exact lt_irrefl _ (hstored numBits hlt).1
  · intro k hk
    have hk' : k < numBits := hk
    rw [← SplitRequest.tapAt_isShift, htracks]
    refine (hstored k ?_).2
    rw [vectorOctets]
    omega

end Independence

/-- The response to a shift request does not depend on what the TDO vector held
exactly if there is none, or all of its bits are samples of the device. -/
theorem staleFree_iff_written (dev : Device) {p : FtParams} {s₀ s : Sys Usb}
    (h₀ : PoweredUp s₀) (h : Reachable dev p s₀ s) {unread rest : List UInt8} {numBits : ℕ}
    {tms tdi : List UInt8} (hread : readShift unread = some (.shift numBits tms tdi, rest)) :
    StaleFree dev s unread ↔
      (Answered (shiftRequest numBits tms tdi) s.gFtdi.jtagSplitter.state →
        FullyWritten (shiftRequest numBits tms tdi) s.gFtdi.jtagSplitter.state) := by
  rw [staleFree_iff hread]
  constructor
  · intro hagree
    exact fullyWritten_of_agree h₀ h (hagree s.mem _ _)
  · intro hwritten
    exact replies_agree h₀ h hwritten

end TinyXvc.Server
