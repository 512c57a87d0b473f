import TinyXvc.Server.StaleBits

/-!
# Connections that start with different memory

Two connections with the same stream, whose vectors hold different octets, say the
same, if the device writes all bits of all responses.
-/

namespace TinyXvc.Server

open Mpsse

/-- The backends of two connections: the drivers are in the state `s`, but for what
the vectors hold. -/
structure BackendTwins (s : Sys Usb) (b b' : Backend (Option (Sys Usb))) : Prop where
  vectorNumBytes : b'.vectorNumBytes = b.vectorNumBytes
  driver : b.driver = some s
  driver' : ∃ t, MemTwins {.resp} s t ∧ b'.driver = some t

variable {dev : Device} {p : FtParams} {s₀ s t : Sys Usb} {heap heap' : ℕ → Octets}
  {b b' : Backend (Option (Sys Usb))}

theorem memTwins_withTdo (h : MemTwins {.resp} s t) (tdo tdo' : Octets) :
    MemTwins {.resp} (withTdo s tdo) (withTdo t tdo') := by
  obtain ⟨hpos, m, hm, rfl⟩ := h
  refine ⟨hpos, m.write tdoVector tdo', ?_, rfl⟩
  intro block hblock
  have hne : block ≠ tdoVector.block := by
    rw [Set.mem_singleton_iff.mp hblock]
    decide
  change m.write tdoVector tdo' block = s.mem.write tdoVector tdo block
  rw [Mem.write_of_ne _ _ _ hne, Mem.write_of_ne _ _ _ hne]
  exact hm block hblock

theorem twin_of_some {x y : Option (Sys Usb)} (h : Option.Rel (MemTwins {.resp}) x y)
    {u : Sys Usb} (hx : x = some u) : ∃ u', MemTwins {.resp} u u' ∧ y = some u' := by
  cases h with
  | some h' =>
      cases hx
      exact ⟨_, h', rfl⟩
  | none => cases hx

variable (dev) in
theorem setTckPeriod_twins (h : MemTwins {.resp} s t) (tckPeriodNs : ℤ) :
    (ftdiSetTckPeriod dev tckPeriodNs s).1 = (ftdiSetTckPeriod dev tckPeriodNs t).1 ∧
      Option.Rel (MemTwins {.resp}) (ftdiSetTckPeriod dev tckPeriodNs s).2
        (ftdiSetTckPeriod dev tckPeriodNs t).2 := by
  have hend := setTckPeriod_alike (link dev) (Set.mem_singleton Block.resp) tckPeriodNs h
  unfold ftdiSetTckPeriod
  generalize setTckPeriod (link dev) tckPeriodNs s = x at hend
  generalize setTckPeriod (link dev) tckPeriodNs t = y at hend
  rcases hend with ⟨ns, h'⟩ | ⟨e, -⟩
  · exact ⟨rfl, .some h'⟩
  · exact ⟨rfl, .none⟩

variable (dev) in
theorem shiftBits_twins (h : MemTwins {.resp} s t) (r : SplitRequest) (tdo tdo' : Octets) :
    (ftdiShiftBits dev r tdo s).1 = (ftdiShiftBits dev r tdo' t).1 ∧
      Option.Rel (MemTwins {.resp}) (ftdiShiftBits dev r tdo s).2.2
        (ftdiShiftBits dev r tdo' t).2.2 := by
  have hend := shiftBits_alike (link dev) r (memTwins_withTdo h tdo tdo')
  unfold ftdiShiftBits
  generalize shiftBits (link dev) r (withTdo s tdo) = x at hend
  generalize shiftBits (link dev) r (withTdo t tdo') = y at hend
  rcases hend with ⟨ok, h'⟩ | ⟨e, -⟩
  · exact ⟨rfl, .some h'⟩
  · exact ⟨rfl, .none⟩

theorem reachable_setTckPeriod (h : Reachable dev p s₀ s) {tckPeriodNs : ℤ} {u : Sys Usb}
    (hu : (ftdiSetTckPeriod dev tckPeriodNs s).2 = some u) : Reachable dev p s₀ u := by
  unfold ftdiSetTckPeriod at hu
  split at hu
  · rename_i period t hrun
    cases hu
    exact .perform (.setTckPeriod tckPeriodNs) h (Exec.bind_ok hrun)
  · cases hu

theorem reachable_shiftBits (h : Reachable dev p s₀ s) {r : SplitRequest} {tdo : Octets}
    {u : Sys Usb} (hu : (ftdiShiftBits dev r tdo s).2.2 = some u) : Reachable dev p s₀ u := by
  unfold ftdiShiftBits at hu
  split at hu
  · rename_i ok t hrun
    cases hu
    exact .perform (.shiftBits r) (Reachable.withTdo h tdo) (Exec.bind_ok hrun)
  · cases hu

/-- What a connection can go on with after a command. -/
def Continue (dev : Device) (p : FtParams) (s₀ : Sys Usb) (b b' : Backend (Option (Sys Usb))) :
    Prop :=
  ∃ s, BackendTwins s b b' ∧ Reachable dev p s₀ s

/-- The services answer a command alike, and go on alike. -/
def AnsweredAlike (dev : Device) (p : FtParams) (s₀ : Sys Usb)
    (x y : List Event × Option (Backend (Option (Sys Usb)))) : Prop :=
  x.1 = y.1 ∧ Option.Rel (Continue dev p s₀) x.2 y.2

section Commands

variable (heap heap')

theorem getinfo_twins (h : BackendTwins s b b') (hreach : Reachable dev p s₀ s) :
    AnsweredAlike dev p s₀ (serve (ftdiDriver dev) heap b .getinfo)
      (serve (ftdiDriver dev) heap' b' .getinfo) := by
  obtain ⟨hsize, hdriver, t, ⟨hpos, m, hm, rfl⟩, hdriver'⟩ := h
  unfold serve ftdiDriver
  dsimp only
  rw [hdriver, hdriver']
  dsimp only
  split
  · exact ⟨rfl, .some ⟨s, ⟨hsize, rfl, _, ⟨hpos, m, hm, rfl⟩, rfl⟩, hreach⟩⟩
  · exact ⟨rfl, .none⟩

theorem settck_twins (h : BackendTwins s b b') (hreach : Reachable dev p s₀ s) (period : ℕ) :
    AnsweredAlike dev p s₀ (serve (ftdiDriver dev) heap b (.settck period))
      (serve (ftdiDriver dev) heap' b' (.settck period)) := by
  obtain ⟨hsize, hdriver, t, htwins, hdriver'⟩ := h
  obtain ⟨hperiod, hnext⟩ := setTckPeriod_twins dev htwins period
  have hreach' : ∀ u, (ftdiSetTckPeriod dev period s).2 = some u → Reachable dev p s₀ u :=
    fun _ => reachable_setTckPeriod hreach
  have hended : (ftdiSetTckPeriod dev period s).2 = none →
      ¬0 < (ftdiSetTckPeriod dev period s).1 := by
    unfold ftdiSetTckPeriod
    split
    · exact fun hnone => nomatch hnone
    · exact fun _ => by decide
  unfold serve ftdiDriver
  dsimp only
  rw [hdriver, hdriver']
  dsimp only
  rw [← hperiod]
  split
  · rename_i hpos
    refine ⟨rfl, .some ?_⟩
    rcases hx : (ftdiSetTckPeriod dev period s).2 with _ | u
    · exact absurd hpos (hended hx)
    · obtain ⟨u', h', hy⟩ := twin_of_some hnext hx
      exact ⟨u, ⟨hsize, rfl, u', h', hy⟩, hreach' u hx⟩
  · exact ⟨rfl, .none⟩

theorem not_ok_of_ended {r : SplitRequest} {tdo : Octets}
    (h : (ftdiShiftBits dev r tdo s).2.2 = none) : ¬(ftdiShiftBits dev r tdo s).1 = true := by
  unfold ftdiShiftBits at h ⊢
  split at h
  · cases h
  · exact Bool.false_ne_true

theorem shift_twins (h₀ : PoweredUp s₀) (h : BackendTwins s b b') (hreach : Reachable dev p s₀ s)
    {numBits : ℕ} {tms tdi : List UInt8}
    (hwritten : Answered (shiftRequest numBits tms tdi) s.gFtdi.jtagSplitter.state →
      FullyWritten (shiftRequest numBits tms tdi) s.gFtdi.jtagSplitter.state) :
    AnsweredAlike dev p s₀ (serve (ftdiDriver dev) heap b (.shift numBits tms tdi))
      (serve (ftdiDriver dev) heap' b' (.shift numBits tms tdi)) := by
  obtain ⟨hsize, hdriver, t, htwins, hdriver'⟩ := h
  refine ⟨?_, ?_⟩
  · obtain ⟨-, m, -, rfl⟩ := htwins
    rw [serve_shift heap hdriver, serve_shift heap' hdriver',
      replies_agree h₀ hreach hwritten m _ (tdoBefore heap' b' numBits)]
  · obtain ⟨hok, hnext⟩ := shiftBits_twins dev htwins (shiftRequest numBits tms tdi)
      (tdoBefore heap b numBits) (tdoBefore heap' b' numBits)
    obtain ⟨x, hx⟩ : ∃ x, ftdiShiftBits dev (shiftRequest numBits tms tdi)
      (tdoBefore heap b numBits) s = x := ⟨_, rfl⟩
    obtain ⟨y, hy⟩ : ∃ y, ftdiShiftBits dev (shiftRequest numBits tms tdi)
      (tdoBefore heap' b' numBits) t = y := ⟨_, rfl⟩
    obtain ⟨allocs, hserve⟩ := serve_shift_eq heap hdriver hx
    obtain ⟨allocs', hserve'⟩ := serve_shift_eq heap' hdriver' hy
    rw [hx, hy] at hok hnext
    rw [hserve, hserve', ← hok, hsize]
    split
    · rename_i htrue
      refine .some ?_
      rcases hx' : x.2.2 with _ | u
      · rw [← hx] at hx' htrue
        exact absurd htrue (not_ok_of_ended hx')
      · obtain ⟨u', h', hy'⟩ := twin_of_some hnext hx'
        exact ⟨u, ⟨rfl, rfl, u', h', hy'⟩, reachable_shiftBits hreach (hx ▸ hx')⟩
    · exact .none

end Commands

/-! ## Whole connections -/

/-- Every shift request that the connection comes to is answered with samples only. -/
def SamplesOnly (dev : Device) (heap : ℕ → Octets) (stream : List UInt8)
    (b : Backend (Option (Sys Usb))) : Prop :=
  ∀ unread d s numBits tms tdi rest, (xvc (ftdiDriver dev) heap).Comes stream b unread d →
    nextCommand unread = some (.shift numBits tms tdi, rest) → d.driver = some s →
      Answered (shiftRequest numBits tms tdi) s.gFtdi.jtagSplitter.state →
        FullyWritten (shiftRequest numBits tms tdi) s.gFtdi.jtagSplitter.state

/-- What a connection says: nothing else at any time, and all of it in the end. -/
def Says (dev : Device) (heap : ℕ → Octets) (io : Client) (b : Backend (Option (Sys Usb)))
    (es : List Event) : Prop :=
  (∀ n, traceOf (runConnectin (ftdiDriver dev) heap io n (io.start b)) <+: es) ∧
    ∃ m, ∀ n ≥ m, traceOf (runConnectin (ftdiDriver dev) heap io n (io.start b)) = es

theorem answers_twins (h₀ : PoweredUp s₀) (hreach : Reachable dev p s₀ s)
    (htwins : BackendTwins s b b') {stream : List UInt8}
    (hsamples : SamplesOnly dev heap stream b) :
    (xvc (ftdiDriver dev) heap).answers stream b =
      (xvc (ftdiDriver dev) heap').answers stream b' := by
  refine CommandStream.answers_congr (S := xvc (ftdiDriver dev) heap)
    (T := xvc (ftdiDriver dev) heap') (R := Continue dev p s₀) rfl ?_ ⟨s, htwins, hreach⟩
  rintro unread d d' c rest hcomes hnext ⟨u, hu, hreach'⟩
  cases c with
  | getinfo => exact getinfo_twins heap heap' hu hreach'
  | settck period => exact settck_twins heap heap' hu hreach' period
  | shift numBits tms tdi =>
      exact shift_twins heap heap' h₀ hu hreach'
        (hsamples unread d u numBits tms tdi rest hcomes hnext hu.driver)

theorem says_answers (stream : List UInt8) (closes : Bool) (sch : Schedule) :
    Says dev heap ⟨stream, closes, sch.toArrivals⟩ b
      ((xvc (ftdiDriver dev) heap).answers stream b) := by
  have hstart : Remains (ftdiDriver dev) heap ⟨stream, closes, sch.toArrivals⟩
      ((xvc (ftdiDriver dev) heap).answers stream b)
      ((xvc (ftdiDriver dev) heap).leftover stream b)
      ((Client.mk stream closes sch.toArrivals).start b) := start_remains b
  exact ⟨fun n => trace_prefix n hstart,
    trace_complete (sch.exists_showsAll stream closes) hstart⟩

/-- A response does not depend on what the TDO vector held before exactly if there
is none, or all of its bits are samples; and connections that come to such requests
only say the same, whatever their vectors hold. -/
theorem responses_stale_free (dev : Device) {p : FtParams} {s₀ s : Sys Usb} (h₀ : PoweredUp s₀)
    (h : Reachable dev p s₀ s) :
    (∀ unread numBits tms tdi rest,
      readShift unread = some (.shift numBits tms tdi, rest) →
        (StaleFree dev s unread ↔
          (Answered (shiftRequest numBits tms tdi) s.gFtdi.jtagSplitter.state →
            FullyWritten (shiftRequest numBits tms tdi) s.gFtdi.jtagSplitter.state))) ∧
      ∀ (heap heap' : ℕ → Octets) (b b' : Backend (Option (Sys Usb))) (stream : List UInt8)
        (closes closes' : Bool) (sch sch' : Schedule),
        BackendTwins s b b' → SamplesOnly dev heap stream b →
          ∃ es, Says dev heap ⟨stream, closes, sch.toArrivals⟩ b es ∧
            Says dev heap' ⟨stream, closes', sch'.toArrivals⟩ b' es := by
  constructor
  · intro unread numBits tms tdi rest hread
    exact staleFree_iff_written dev h₀ h hread
  · intro heap heap' b b' stream closes closes' sch sch' htwins hsamples
    refine ⟨_, says_answers stream closes sch, ?_⟩
    rw [answers_twins h₀ h htwins hsamples]
    exact says_answers stream closes' sch'

/-- Eight clocks with TMS low. -/
def eightClocks : List UInt8 := [8, 0, 0, 0, 0x00, 0xa5]

theorem readShift_eightClocks : readShift eightClocks = some (.shift 8 [0x00] [0xa5], []) := by
  decide +kernel

theorem nextCommand_eightClocks :
    nextCommand (Cmd.shift.word ++ eightClocks) = some (.shift 8 [0x00] [0xa5], []) := by
  decide +kernel

/-- A connection with one command comes to no other. -/
theorem comes_single {stream unread rest : List UInt8} {d : Backend (Option (Sys Usb))}
    {c c' : Command} (hone : nextCommand stream = some (c, []))
    (hcomes : (xvc (ftdiDriver dev) heap).Comes stream b unread d)
    (hnext : nextCommand unread = some (c', rest)) : unread = stream ∧ d = b := by
  have hnil : nextCommand [] = none := by decide
  cases hcomes with
  | here => exact ⟨rfl, rfl⟩
  | next hfirst _ hrest =>
      cases hone.symm.trans hfirst
      cases hrest with
      | here => cases hnil.symm.trans hnext
      | next hsecond => cases hnil.symm.trans hsecond

theorem exists_in_shift : ∃ s, Reachable tdoHigh ft2232hParams poweredUp s ∧
    s.gFtdi.jtagSplitter.state = .shiftDr := by
  obtain ⟨s, hrun⟩ := exists_activated
  have hreach : Reachable tdoHigh ft2232hParams poweredUp s := .activate hrun
  have hstate := state_of_activate poweredUp_poweredUp hrun
  -- TMS 0100 leads from Test-Logic-Reset to Shift-DR
  have hanswered : Answered (shiftRequest 4 [0x02] [0x00]) s.gFtdi.jtagSplitter.state := by
    rw [hstate]
    decide
  obtain ⟨t, hshift, cs, hcs⟩ := exists_shift poweredUp_poweredUp hreach hanswered
  have hreach' : Reachable tdoHigh ft2232hParams poweredUp t :=
    .perform (.shiftBits (shiftRequest 4 [0x02] [0x00])) hreach (Exec.bind_ok hshift)
  have htap := (hreach'.inStep poweredUp_poweredUp .testLogicReset).tracks
  rw [hcs.tap, ← (hreach.inStep poweredUp_poweredUp .testLogicReset).tracks, hstate] at htap
  have hinj : ∀ st : JtagState, st.tap = JtagState.shiftDr.tap → st = .shiftDr := by
    intro st
    cases st <;> decide
  exact ⟨t, hreach', hinj _ (htap.trans (by decide))⟩

/-- A connection that finds the TAP in Shift-DR and stays there. -/
theorem responses_stale_free_in_shift :
    ∃ s, Reachable tdoHigh ft2232hParams poweredUp s ∧ StaleFree tdoHigh s eightClocks ∧
      ∀ tdo tdo' : Octets, ∃ es,
        Says tdoHigh (fun _ => tdo) ⟨Cmd.shift.word ++ eightClocks, true, promptSchedule.toArrivals⟩
          ⟨some s, 0, tdo, 0⟩ es ∧
        Says tdoHigh (fun _ => tdo')
          ⟨Cmd.shift.word ++ eightClocks, true, promptSchedule.toArrivals⟩
          ⟨some s, 0, tdo', 0⟩ es := by
  obtain ⟨s, hreach, hstate⟩ := exists_in_shift
  have hwritten : FullyWritten (shiftRequest 8 [0x00] [0xa5]) s.gFtdi.jtagSplitter.state := by
    rw [hstate]
    decide
  have hchip := (hreach.inStep poweredUp_poweredUp .testLogicReset).linked.chip_bounds
  refine ⟨s, hreach, ?_, fun tdo tdo' => ?_⟩
  · exact ((responses_stale_free tdoHigh poweredUp_poweredUp hreach).1 eightClocks 8 [0x00] [0xa5]
      [] readShift_eightClocks).mpr fun _ => hwritten
  · refine (responses_stale_free tdoHigh poweredUp_poweredUp hreach).2 (fun _ => tdo)
      (fun _ => tdo') ⟨some s, 0, tdo, 0⟩ ⟨some s, 0, tdo', 0⟩ (Cmd.shift.word ++ eightClocks)
      true true promptSchedule promptSchedule ?_ ?_
    · exact ⟨rfl, rfl, s, ⟨by omega, s.mem, fun _ _ => rfl, rfl⟩, rfl⟩
    · intro unread d u numBits tms tdi rest hcomes hnext hdriver _
      obtain ⟨rfl, rfl⟩ := comes_single nextCommand_eightClocks hcomes hnext
      rw [nextCommand_eightClocks] at hnext
      cases hnext
      cases hdriver
      exact hwritten

/-- Right after `activate` the TAP does not shift, so the response has the octet
that was in the vector. -/
theorem response_shows_stale_octet :
    ∃ s, activate (link tdoHigh) ft2232hParams poweredUp = .ok (true, s) ∧
      ¬StaleFree tdoHigh s eightClocks := by
  obtain ⟨s, hrun⟩ := exists_activated
  refine ⟨s, hrun, fun hfree => ?_⟩
  have hstate := state_of_activate poweredUp_poweredUp hrun
  have hwritten := (staleFree_iff_written tdoHigh poweredUp_poweredUp (.activate hrun)
    readShift_eightClocks).mp hfree
  rw [hstate] at hwritten
  have hanswered : Answered (shiftRequest 8 [0x00] [0xa5]) .testLogicReset := by decide
  exact absurd ((hwritten hanswered).2 0 (by decide)) (by decide)

end TinyXvc.Server
