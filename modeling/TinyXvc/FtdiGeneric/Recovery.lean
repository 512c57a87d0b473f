import TinyXvc.FtdiGeneric.Delivery
import TinyXvc.FtdiGeneric.Contract
import TinyXvc.FtdiGeneric.Encoding
import TinyXvc.Lib.Framing

/-!
# Recovery over a transport that loses data

The chip executes the bytes that a write transferred, whether the write
succeeded or not, and waits for missing operands.  The TAP reset that follows a
failed vector is queued behind what is left of the vector.
-/

namespace TinyXvc

open Mpsse Resend Jtag

section Carried

variable {τ : Type}

/-- The chip behind a transport: its engine receives the part of a write that
the reply tells, and reads do not disturb it. -/
structure Carries (io : D2xx τ) (dev : Device) (engine : τ → Engine) : Prop where
  write : ∀ data u, engine (io.ftWrite data u).2 =
    (engine u).feed dev (data.take (io.ftWrite data u).1.written)
  read : ∀ n u, engine (io.ftRead n u).2 = engine u

/-- The engine executed what arrived on the way from `s` to `t`. -/
def Fed (dev : Device) (engine : τ → Engine) (s t : Sys τ) : Prop :=
  ∃ cs, t.calls = s.calls ++ cs ∧ engine t.usb = (engine s.usb).feed dev (arrived (attempts cs))

variable {io : D2xx τ} {dev : Device} {engine : τ → Engine}

theorem Fed.congr {s₀ s t : Sys τ} (h : Fed dev engine s₀ s) (hcalls : t.calls = s.calls)
    (husb : t.usb = s.usb) : Fed dev engine s₀ t := by
  obtain ⟨cs, hcs, hengine⟩ := h
  exact ⟨cs, hcalls.trans hcs, (congrArg engine husb).trans hengine⟩

theorem Fed.afterWrite (hio : Carries io dev engine) {s₀ s : Sys τ} (h : Fed dev engine s₀ s) :
    Fed dev engine s₀ (s.afterWrite io) := by
  obtain ⟨cs, hcs, hengine⟩ := h
  refine ⟨cs ++ [.write s.buffer.txData (s.writeReply io)], ?_, ?_⟩
  · change s.calls ++ [_] = _
    rw [hcs, List.append_assoc]
  · change engine (io.ftWrite s.buffer.txData s.usb).2 = _
    rw [hio.write, hengine, attempts_append, arrived_append, Engine.feed_append]
    exact congrArg (Engine.feed dev _) (List.append_nil _).symm

theorem Fed.afterRead (hio : Carries io dev engine) {s₀ s : Sys τ} (h : Fed dev engine s₀ s) :
    Fed dev engine s₀ (s.afterRead io) := by
  obtain ⟨cs, hcs, hengine⟩ := h
  refine ⟨cs ++ [.read s.buffer.rxNumBytes (s.readReply io)], ?_, ?_⟩
  · change s.calls ++ [_] = _
    rw [hcs, List.append_assoc]
  · change engine (io.ftRead s.buffer.rxNumBytes s.usb).2 = _
    rw [hio.read, hengine, attempts_append, arrived_append]
    exact congrArg (Engine.feed dev _) (List.append_nil _).symm

theorem fed_flush (hio : Carries io dev engine) (s₀ : Sys τ) :
    Exec.Preserves (Fed dev engine s₀) (fun _ _ => True) (ftBufferFlush io) :=
  FlushParts.flush
    { entered := fun _ h => h.congr rfl rfl
      failed := fun _ h _ => h.afterWrite hio
      sent := fun _ h _ => (h.afterWrite hio).congr rfl rfl
      read := fun _ h => h.afterRead hio
      observed := fun _ _ h => h.congr rfl rfl
      rxCleared := fun _ h => h.congr rfl rfl
      reclaimed := fun _ h => h.congr rfl rfl }

theorem fed_append (s₀ : Sys τ) (txData : List UInt8) (observer : Option (RxObserverFn × ℕ))
    (n : ℕ) :
    Exec.Preserves (Fed dev engine s₀) (fun _ _ => True) (ftBufferAppend txData observer n) := by
  intro s hs
  refine Exec.wp_mono (append_traffic txData observer n s) ?_ (fun _ _ _ => trivial)
  intro _ t ht
  simp only [Sys.traffic, Prod.mk.injEq] at ht
  exact hs.congr ht.2.1 ht.2.2.2

/-- What is known of the way from `s` on: the books, and what the chip got. -/
structure Tracked (dev : Device) (engine : τ → Engine) (s t : Sys τ) : Prop where
  chip : 0 < t.gFtdi.chipBufferBytes
  booked : Booked s t
  fed : Fed dev engine s t

theorem Tracked.refl {s : Sys τ} (hchip : 0 < s.gFtdi.chipBufferBytes) :
    Tracked dev engine s s :=
  ⟨hchip, Booked.refl s, [], (List.append_nil _).symm, rfl⟩

theorem kept_tracked (hio : Carries io dev engine) (s₀ : Sys τ) :
    Kept io (Tracked dev engine s₀) where
  chip _ h := h.chip
  pools :=
    { driver := fun _ _ h => ⟨h.chip, h.booked.congr rfl rfl rfl, h.fed.congr rfl rfl⟩
      cmd := fun _ _ h => ⟨h.chip, h.booked.congr rfl rfl rfl, h.fed.congr rfl rfl⟩
      bitExtras := fun _ _ h => ⟨h.chip, h.booked.congr rfl rfl rfl, h.fed.congr rfl rfl⟩
      byteExtras := fun _ _ h => ⟨h.chip, h.booked.congr rfl rfl rfl, h.fed.congr rfl rfl⟩ }
  lastTdi _ _ h := ⟨h.chip, h.booked.congr rfl rfl rfl, h.fed.congr rfl rfl⟩
  splitter _ _ h := ⟨h.chip, h.booked.congr rfl rfl rfl, h.fed.congr rfl rfl⟩
  flush s hs := by
    refine Exec.wp_mono (Exec.wp_and ((kept_booked io s₀).flush s ⟨hs.chip, hs.booked⟩)
      (fed_flush hio s₀ s hs.fed)) ?_ (fun _ _ _ => trivial)
    exact fun _ _ h => ⟨h.1.1, h.1.2, h.2⟩
  append txData observer n s hs := by
    refine Exec.wp_mono (Exec.wp_and
      ((kept_booked io s₀).append txData observer n s ⟨hs.chip, hs.booked⟩)
      (fed_append s₀ txData observer n s hs.fed)) ?_ (fun _ _ _ => trivial)
    exact fun _ _ h => ⟨h.1.1, h.1.2, h.2⟩

/-- The two histories of one way are those of its books. -/
theorem Tracked.history {s t : Sys τ} (h : Tracked dev engine s t) :
    ∃ cs qs, History s t cs qs ∧
      Ledger (s.buffer.txData ++ queuedBytes qs) (attempts cs) t.buffer.txData ∧
      engine t.usb = (engine s.usb).feed dev (arrived (attempts cs)) := by
  obtain ⟨cs, qs, hhist, hledger⟩ := h.booked
  obtain ⟨ds, hds, hengine⟩ := h.fed
  obtain rfl := List.append_cancel_left (hhist.calls.symm.trans hds)
  exact ⟨cs, qs, hhist, hledger, hengine⟩

/-! ## The reset -/

/-- What the TAP reset sends. -/
def tapResetCmd (lastTdi : Bool) : List UInt8 := tmsShiftCmd tmsTapResetVector lastTdi 0 5

theorem isFrame_tapResetCmd (lastTdi : Bool) : IsFrame (tapResetCmd lastTdi) := by
  cases lastTdi <;> decide

variable (dev) in
/-- The reset clocks five TMS ones. -/
theorem feed_tapResetCmd {e : Engine} (he : e.awaiting = .opcode) (lastTdi : Bool) :
    e.feed dev (tapResetCmd lastTdi) = e.clocked dev (List.replicate 5 (true, lastTdi)) :=
  (tms_command dev he tmsTapResetVector lastTdi 0 (by decide) (by decide)).1

/-- An accepted reset was queued last. -/
theorem tapReset_history (s : Sys τ) :
    Exec.wp (tapReset (jtagSplitterCallback io))
      (fun ok t => ok = true → t.queued = s.queued ++ [⟨tapResetCmd s.gFtdi.lastTdi, 0⟩])
      (fun _ _ => True) s := by
  have hshift : jtagSplitterCallback io (.shiftTms tmsTapResetVector 0 5) s =
      (tmsRequests tmsTapResetVector s.gFtdi.lastTdi 0 5).allM (Request.queue io) s :=
    appendTmsShift_eq io tmsTapResetVector (by decide) s
  have hone : tmsRequests tmsTapResetVector s.gFtdi.lastTdi 0 5 =
      [.write (tapResetCmd s.gFtdi.lastTdi)] := by
    have hnone : tmsRequests tmsTapResetVector s.gFtdi.lastTdi 5 5 = [] := by
      rw [tmsRequests, if_neg (by decide)]
    rw [tmsRequests, if_pos (by decide)]
    exact congrArg (List.cons _) hnone
  unfold tapReset andM
  rw [Exec.wp_bind, Exec.wp, hshift, hone]
  refine Exec.wp_mono (queueAll_history io _ s) ?_ (fun _ _ _ => trivial)
  intro ok t ht
  cases ok with
  | false => exact fun hfalse => absurd hfalse Bool.false_ne_true
  | true =>
      have hflush : Exec.Preserves (fun u : Sys τ => u.queued = t.queued) (fun _ _ => True)
          (jtagSplitterCallback io .flushAll) := by
        refine Exec.Preserves.bind ?_ fun ok => ?_
        · exact ftBufferFlush_preserves io (fun _ _ hu => hu) (fun _ _ _ _ _ hu => hu)
        · exact Exec.Preserves.bind (Exec.Preserves.modifyGet fun _ hu => hu) fun _ =>
            Exec.Preserves.pure _
      refine Exec.wp_mono (hflush t rfl) ?_ (fun _ _ _ => trivial)
      intro _ u hu _
      rw [hu, ht rfl]
      rfl

/-- The octets that wait in the buffer, and those that are queued behind them. -/
def pendingBytes (s : Sys τ) (qs : List QueuedData) : List UInt8 :=
  s.buffer.txData ++ queuedBytes qs

variable (dev engine) in
/-- The way of a `shift_bits` that failed and whose reset was accepted.  One D2XX call was cut;
the reset was queued behind what that call had left, and everything was sent. -/
structure GivenUp (s t : Sys τ) (before : List D2xxCall) (cut : D2xxCall) (after : List D2xxCall)
    (vector : List QueuedData) (lastTdi : Bool) : Prop where
  recorded : t.gFtdi.jtagSplitter.state = .testLogicReset
  hist : History s t (before ++ cut :: after) (vector ++ [⟨tapResetCmd lastTdi, 0⟩])
  before_full : ∀ d ∈ before, d.inFull = true
  cut_failed : cut.inFull = false
  after_full : ∀ d ∈ after, d.inFull = true
  pending : pendingBytes s vector = settled (attempts before) ++ cut.offered
  settled : settled (attempts (before ++ cut :: after)) =
    pendingBytes s vector ++ tapResetCmd lastTdi
  fed : engine t.usb = (engine s.usb).feed dev (arrived (attempts (before ++ cut :: after)))

theorem settled_of_failed {c : D2xxCall} (h : c.inFull = false) : settled (attempts [c]) = [] := by
  cases c with
  | read n reply => rfl
  | write data reply => exact settled_of_not_acknowledged (a := ⟨_, _, _⟩) h

/-- A vector is given up, and the reset behind it is accepted. -/
theorem Refused.givenUp {s t u : Sys τ} {lastTdi : Bool} (hrefused : Refused s t)
    (htracked : Tracked dev engine s t) (htracked' : Tracked dev engine s u)
    (hstate : u.gFtdi.jtagSplitter.state = .testLogicReset) (haccepted : Accepted t u)
    (hempty : u.buffer.Empty) (hqueued : u.queued = t.queued ++ [⟨tapResetCmd lastTdi, 0⟩]) :
    ∃ before cut after vector, GivenUp dev engine s u before cut after vector lastTdi := by
  obtain ⟨-, -, before, cut, hcalls, hbefore, hcut, hoffered⟩ := hrefused
  obtain ⟨-, after, hcalls', hafter, -⟩ := haccepted
  obtain ⟨cs, vector, hhist, hledger, -⟩ := htracked.history
  obtain ⟨cs', qs, hhist', hledger', hfed⟩ := htracked'.history
  obtain rfl := List.append_cancel_left (hhist.calls.symm.trans hcalls)
  obtain rfl : cs' = before ++ cut :: after := by
    refine List.append_cancel_left (hhist'.calls.symm.trans ?_)
    rw [hcalls', hcalls, List.append_assoc, List.append_assoc]
    rfl
  obtain rfl : qs = vector ++ [⟨tapResetCmd lastTdi, 0⟩] := by
    refine List.append_cancel_left (hhist'.queued.symm.trans ?_)
    rw [hqueued, hhist.queued, List.append_assoc]
  refine ⟨before, cut, after, vector, hstate, hhist', hbefore, hcut, hafter, ?_, ?_, hfed⟩
  · have hstream := hledger.stream_eq
    rw [attempts_append, settled_append, settled_of_failed hcut, List.append_nil,
      hoffered] at hstream
    exact hstream
  · have hlast : queuedBytes [⟨tapResetCmd lastTdi, 0⟩] = tapResetCmd lastTdi :=
      List.append_nil _
    have hstream := hledger'.stream_eq
    rw [hempty.txData, List.append_nil, queuedBytes_append, hlast, ← List.append_assoc] at hstream
    exact hstream.symm

/-- Every call that fails and whose reset is accepted goes this way. -/
theorem shiftBits_failed (hio : Carries io dev engine) (r : SplitRequest) {s : Sys τ}
    (hs : Sound s) :
    Exec.wp (shiftBits io r)
      (fun ok t => ok = false → t.buffer.Empty →
        ∃ before cut after vector lastTdi, GivenUp dev engine s t before cut after vector lastTdi)
      (fun _ _ => True) s := by
  have hkept := kept_tracked hio s
  have hdeliver : ∀ splitter, Exec.Preserves (Tracked dev engine s) (fun _ _ => True)
      (deliver (jtagSplitterCallback io) r splitter) := fun splitter =>
    (Exec.Preserves.allM hkept.callback _).bind fun ok =>
      Exec.Preserves.ite (Exec.Preserves.pure _) (Exec.Preserves.pure _)
  have hreset : Exec.Preserves (Tracked dev engine s) (fun _ _ => True)
      (tapReset (jtagSplitterCallback io)) :=
    (hkept.callback _).andM (hkept.callback _)
  unfold shiftBits
  rw [Exec.wp_bind, Exec.wp_get, Exec.wp_bind, Exec.wp]
  rcases process_eq_or (jtagSplitterCallback io) r s.gFtdi.jtagSplitter s with
    hprocess | ⟨-, s', herror⟩
  · rw [hprocess]
    change Exec.wp (deliver _ r _ >>= settle _ _) _ _ s
    rw [Exec.wp_bind]
    refine Exec.wp_mono
      (Exec.wp_and (deliver_outcome r _ hs) (hdeliver _ s (Tracked.refl hs.chip))) ?_
      (fun _ _ _ => trivial)
    rintro o t ⟨ht, htracked⟩
    cases o with
    | some st => exact fun hfalse => absurd hfalse (by decide)
    | none =>
        have hrefused : Refused s t := ht
        rw [settle, Exec.wp_bind]
        refine Exec.wp_mono (Exec.wp_and (tapReset_outcome hrefused.1)
          (Exec.wp_and (tapReset_history t) (hreset t htracked))) ?_ (fun _ _ _ => trivial)
        rintro ok u ⟨hu, hqueued, htracked'⟩
        cases ok with
        | false =>
            -- a reset that fails leaves something in the buffer
            have hpending : Pending u := hu.2.1
            exact fun _ hempty => absurd hpending (not_pending_of_empty { hempty with })
        | true =>
            intro _ hempty
            obtain ⟨hsound, hcalls⟩ := hu.1
            obtain ⟨before, cut, after, vector, hgiven⟩ := hrefused.givenUp htracked
              (hkept.splitter u ⟨.testLogicReset⟩ htracked') rfl ⟨{ hsound with }, hcalls⟩
              hempty (hqueued rfl)
            exact ⟨before, cut, after, vector, t.gFtdi.lastTdi, hgiven⟩
  · rw [herror]
    trivial

/-! ## What the chip makes of it -/

theorem frames_flatten_length (bs : List UInt8) :
    (frames bs).1.flatten.length + (frames bs).2.length = bs.length := by
  rw [← List.length_append]
  exact congrArg List.length (framesFrom_flatten .opcode [] bs)

/-- If all that arrived is commands of the queue, each at most once, then nothing arrived twice
and nothing of the queue is left out. -/
theorem allOrNothing_of_executed {as : List (Attempt UInt8)} {before cmd : List UInt8}
    {executed : List (List UInt8)} (hhonest : ∀ a ∈ as, a.Honest)
    (hsettled : settled as = before ++ cmd) (hframes : frames (arrived as) = (executed, []))
    (hsub : executed.Sublist ((frames before).1 ++ [cmd])) :
    AllOrNothing as ∧ (frames before).2 = [] := by
  have hqueued := frames_flatten_length before
  have harrived := frames_flatten_length (arrived as)
  have hle := length_flatten_le_of_sublist hsub
  have htotal := congrArg List.length hsettled
  have hmore := length_arrived_eq hhonest
  simp only [hframes, List.length_nil] at harrived
  rw [List.flatten_append, List.flatten_singleton, List.length_append] at hle
  rw [List.length_append] at htotal
  exact ⟨allOrNothing_of_length_le hhonest (by omega), List.length_eq_zero_iff.mp (by omega)⟩

/-- A queue of whole commands that was sent without repetitions is executed as it was queued. -/
theorem frames_arrived {as : List (Attempt UInt8)} {before cmd : List UInt8}
    (hhonest : ∀ a ∈ as, a.Honest) (hsettled : settled as = before ++ cmd) (hcmd : IsFrame cmd)
    (hall : AllOrNothing as) (hwhole : (frames before).2 = []) :
    frames (arrived as) = ((frames before).1 ++ [cmd], []) := by
  have hbefore : (frames before).1.flatten = before := by
    have hflat : (frames before).1.flatten ++ (frames before).2 = before :=
      framesFrom_flatten .opcode [] before
    rw [hwhole, List.append_nil] at hflat
    exact hflat
  have hcommands : ∀ c ∈ (frames before).1 ++ [cmd], IsFrame c := by
    intro c hc
    rcases List.mem_append.mp hc with hc | hc
    · exact isFrame_of_mem_frames hc
    · rw [List.mem_singleton.mp hc]
      exact hcmd
  have hjoin := frames_flatten hcommands
  rw [List.flatten_append, List.flatten_singleton, hbefore] at hjoin
  rw [arrived_eq_settled hhonest hall, hsettled]
  exact hjoin

/-- The TAP after the cycles of an engine, if the first of them found it in `tap₀`. -/
def tapOf (tap₀ : Tap) (e : Engine) : Tap := tap₀.run (e.cycles.map Cycle.tms)

variable (dev) in
theorem tapOf_reset (tap₀ : Tap) {e : Engine} (he : e.awaiting = .opcode) (lastTdi : Bool) :
    tapOf tap₀ (e.feed dev (tapResetCmd lastTdi)) = .testLogicReset := by
  rw [feed_tapResetCmd dev he, tapOf, Engine.clocked, List.map_append, Tap.run_append]
  have hones : (dev.clock e.cycles (List.replicate 5 (true, lastTdi))).map Cycle.tms =
      List.replicate 5 true := by
    have hmap := congrArg (List.map Prod.fst)
      (dev.map_clock e.cycles (List.replicate 5 (true, lastTdi)))
    rw [List.map_map, List.map_replicate] at hmap
    exact hmap
  rw [hones, Tap.run_five_high]

/-- After whole commands the reset gets through to the TAP. -/
theorem GivenUp.tapOf_eq {s t : Sys τ} {before after : List D2xxCall} {cut : D2xxCall}
    {vector : List QueuedData} {lastTdi : Bool}
    (h : GivenUp dev engine s t before cut after vector lastTdi) (tap₀ : Tap)
    (hidle : (engine s.usb).awaiting = .opcode)
    (hall : AllOrNothing (attempts (before ++ cut :: after)))
    (hwhole : (frames (pendingBytes s vector)).2 = []) :
    tapOf tap₀ (engine t.usb) = .testLogicReset := by
  have hhonest : ∀ a ∈ attempts (before ++ cut :: after), a.Honest := fun a =>
    honest_of_mem_attempts
  rw [h.fed, arrived_eq_settled hhonest hall, h.settled, Engine.feed_append]
  refine tapOf_reset dev tap₀ ?_ lastTdi
  rw [Engine.awaiting_feed, hidle]
  exact awaiting_of_frames hwhole

end Carried

/-! ## A lossy link -/

/-- A chip behind a link that loses data, and the number of writes so far. -/
structure LossyUsb where
  usb : Usb
  writes : ℕ
  deriving DecidableEq, Repr

def LossyUsb.engine (u : LossyUsb) : Engine := u.usb.engine

/-- Of write `n` the first `k` bytes get through if `cut n = some k`; such a write
is reported as failed. -/
def lossy (dev : Device) (cut : ℕ → Option ℕ) : D2xx LossyUsb where
  ftWrite data u :=
    match cut u.writes with
    | none => (⟨true, data.length⟩, ⟨u.usb.write dev data, u.writes + 1⟩)
    | some k => (⟨false, min k data.length⟩, ⟨u.usb.write dev (data.take k), u.writes + 1⟩)
  ftRead numBytes u :=
    (⟨true, u.usb.unread.take numBytes⟩,
      { u with usb := { u.usb with unread := u.usb.unread.drop numBytes } })

theorem carries_lossy (dev : Device) (cut : ℕ → Option ℕ) :
    Carries (lossy dev cut) dev LossyUsb.engine where
  read _ _ := rfl
  write data u := by
    unfold lossy
    dsimp only
    cases cut u.writes with
    | none =>
        rw [List.take_length]
        rfl
    | some k =>
        dsimp only
        rcases Nat.le_total k data.length with hk | hk
        · rw [Nat.min_eq_left hk]
          rfl
        · rw [Nat.min_eq_right hk, List.take_length, List.take_of_length_le hk]
          rfl

/-- A driver in step with a chip that has just been reset. -/
def plugged : Sys LossyUsb where
  gFtdi := unplugged.gFtdi
  mem := unplugged.mem
  bitExtras := unplugged.bitExtras
  byteExtras := unplugged.byteExtras
  usb := ⟨⟨⟨.opcode, true, []⟩, []⟩, 0⟩
  calls := []
  queued := []
  flushes := []

theorem initialised_plugged : Initialised plugged := ⟨.ft2232h, 0x200000, rfl, rfl⟩

theorem sound_plugged : Sound plugged := initialised_plugged.sound

theorem empty_plugged : plugged.buffer.Empty := ⟨rfl, rfl, rfl, rfl, rfl, rfl⟩

/-- Write `k` gets nothing through. -/
def writeLost (k : ℕ) : ℕ → Option ℕ := fun n => if n = k then some 0 else none

/-- One TMS bit, low. -/
def idleBit : SplitRequest := ⟨1, fun _ => 0, fun _ => 0, ⟨.vector 0, 0⟩⟩

end TinyXvc
