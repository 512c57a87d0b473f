import TinyXvc.FtdiGeneric.Lifecycle
import TinyXvc.FtdiGeneric.Resync

/-!
# The protocol of the handle

The handle is used between an open and the close after it, data is moved in MPSSE
mode only, and that mode is left before the close.  Every path through `activate`
and the rest of the driver's life keeps to this, whichever calls fail.
-/

namespace TinyXvc.Lifecycle

open DeviceList Mpsse Jtag

/-- Whether the device is open, and then whether the chip is in MPSSE mode. -/
inductive HandleState where
  | closed
  | opened (mpsse : Bool)
  deriving DecidableEq, Repr

namespace HandleState

/-- One call, if it is allowed. -/
def step : HandleState → HandleAction → Option HandleState
  | .closed, .opened _ status => some (if status = .ok then .opened false else .closed)
  | .opened _, .setup .resetMode _ => some (.opened false)
  | .opened mpsse, .setup .mpsseMode status => some (.opened (mpsse || status == .ok))
  | .opened mpsse, .setup _ _ => some (.opened mpsse)
  | .opened true, .transfer _ => some (.opened true)
  | .opened false, .closed => some .closed
  | _, _ => none

/-- The calls one after the other, as long as they are allowed. -/
def replay (st : HandleState) (as : List HandleAction) : Option HandleState := as.foldlM step st

theorem replay_append (st : HandleState) (as bs : List HandleAction) :
    st.replay (as ++ bs) = (st.replay as).bind fun st' => st'.replay bs := List.foldlM_append ..

theorem replay_concat {st st' st'' : HandleState} {as : List HandleAction} {a : HandleAction}
    (h : st.replay as = some st') (ha : st'.step a = some st'') :
    st.replay (as ++ [a]) = some st'' := by
  rw [replay_append, h, Option.bind_some]
  simp [replay, ha]

theorem replay_transfers (cs : List D2xxCall) :
    (opened true).replay (cs.map HandleAction.transfer) = some (opened true) := by
  induction cs with
  | nil => rfl
  | cons c cs ih => exact ih

end HandleState

open HandleState

variable {τ : Type} {α : Type}

/-- The handle is in this state. -/
def Host.At (st : HandleState) (s : Host τ) : Prop := closed.replay s.handle = some st

/-- The handle has been used as it may be. -/
def Host.Fine (s : Host τ) : Prop := (closed.replay s.handle).isSome

theorem Host.At.fine {st : HandleState} {s : Host τ} (h : s.At st) : s.Fine :=
  Option.isSome_of_eq_some h

/-- From `st`, `x` ends where `Q` says, and does not misuse the handle. -/
def Moves (st : HandleState) (x : HostM τ α) (Q : α → HandleState → Prop) : Prop :=
  ∀ s : Host τ, s.At st → Exec.wp x (fun a t => ∃ st', t.At st' ∧ Q a st') (fun _ t => t.Fine) s

section Rules

variable {st st' : HandleState} {Q R : α → HandleState → Prop}

theorem Moves.mono {x : HostM τ α} (h : Moves st x Q) (hQ : ∀ a st, Q a st → R a st) :
    Moves st x R := by
  intro s hs
  refine Exec.wp_mono (h s hs) ?_ fun _ _ he => he
  rintro a t ⟨st', ht, hq⟩
  exact ⟨st', ht, hQ a st' hq⟩

theorem Moves.pure {a : α} (h : Q a st) : Moves (τ := τ) st (pure a) Q := fun _ hs => ⟨st, hs, h⟩

theorem Moves.get : Moves (τ := τ) st get fun _ st' => st' = st := fun _ hs => ⟨st, hs, rfl⟩

theorem Moves.bind {β : Type} {x : HostM τ α} {k : α → HostM τ β} {R : β → HandleState → Prop}
    (hx : Moves st x Q) (hk : ∀ a st', Q a st' → Moves st' (k a) R) : Moves st (x >>= k) R := by
  intro s hs
  rw [Exec.wp_bind]
  refine Exec.wp_mono (hx s hs) ?_ fun _ _ he => he
  rintro a t ⟨st', ht, hq⟩
  exact hk a st' hq t ht

theorem Moves.ite {c : Prop} [Decidable c] {x y : HostM τ α} (hx : c → Moves st x Q)
    (hy : ¬c → Moves st y Q) : Moves st (if c then x else y) Q := by
  split
  · exact hx ‹c›
  · exact hy ‹¬c›

/-- What does not touch the handle. -/
theorem moves_of_keeps {x : HostM τ α} (h : Exec.Keeps Host.handle x) :
    Moves st x fun _ st' => st' = st := by
  intro s hs
  refine Exec.wp_mono (h.wp s) ?_ ?_
  · intro a t ht
    exact ⟨st, by rw [Host.At, ht]; exact hs, rfl⟩
  · intro e t ht
    rw [Host.Fine, ht]
    exact hs.fine

theorem log_moves (level : LogLevel) (fmt : String) (args : List CString) :
    Moves (τ := τ) st (log level fmt args) fun _ st' => st' = st :=
  moves_of_keeps (Exec.Keeps.modify fun _ => rfl)

end Rules

/-! ## The steps of `activate` -/

section Steps

variable (calls : HandleCalls τ)

theorem select_moves {st : HandleState} (x : SelectM α) :
    Moves (τ := τ) st (select x) fun _ st' => st' = st := by
  refine moves_of_keeps ?_
  rintro v s rfl
  unfold Exec.wp select
  cases x s.text <;> rfl

/-- In MPSSE mode every transfer is allowed. -/
theorem onChip_moves (x : Prog τ α) :
    Moves (opened true) (onChip x) fun _ st' => st' = opened true := by
  intro s hs
  have hafter : ∀ cs : List D2xxCall,
      closed.replay (s.handle ++ cs.map HandleAction.transfer) = some (opened true) := by
    intro cs
    rw [replay_append, hs, Option.bind_some, replay_transfers]
  unfold Exec.wp onChip
  cases x s.sys with
  | error e => exact Option.isSome_of_eq_some (hafter _)
  | ok p => exact ⟨_, hafter _, rfl⟩

theorem ftOpen_moves (call : OpenCall) : Moves closed (ftOpen calls call) fun status st' =>
    st' = if status = .ok then opened false else closed := by
  intro s hs
  exact ⟨_, replay_concat hs rfl, rfl⟩

theorem ftSetup_moves {st : HandleState} {call : SetupCall} {f : FtStatus → HandleState}
    (hstep : ∀ status, st.step (.setup call status) = some (f status)) :
    Moves st (ftSetup calls call) fun status st' => st' = f status := by
  intro s hs
  exact ⟨_, replay_concat hs (hstep _), rfl⟩

theorem ftClose_moves : Moves (opened false) (ftClose calls) fun _ st' => st' = closed := by
  intro s hs
  exact ⟨_, replay_concat hs rfl, rfl⟩

theorem complain_moves {st : HandleState} (expr : String) (lastStatus : FtStatus) :
    Moves (τ := τ) st (complain expr lastStatus) fun _ st' => st' = st := by
  unfold complain
  exact Moves.ite (fun _ => log_moves _ _ _) fun _ => Moves.pure rfl

theorem announce_moves {st : HandleState} (call : SetupCall) :
    Moves (τ := τ) st (announce call) fun _ st' => st' = st := by
  cases call with
  | setLatencyTimer millis => exact log_moves _ _ _
  | purge => exact Moves.pure rfl
  | setChars => exact Moves.pure rfl
  | setFlowControl => exact Moves.pure rfl
  | resetMode => exact Moves.pure rfl
  | mpsseMode => exact Moves.pure rfl

/-- The last call that prepares the chip is the one that enters MPSSE mode. -/
def Prepared (status : FtStatus) (st : HandleState) : Prop := st = opened (status == .ok)

/-- One of the calls that prepare the chip; if it fails the mode is as before. -/
theorem setUp_cons_moves {call : SetupCall} {rest : List SetupCall} {mode : FtStatus → Bool}
    (hstep : ∀ status, (opened false).step (.setup call status) = some (opened (mode status)))
    (hfail : ∀ status, status ≠ .ok → mode status = false)
    (hrest : Moves (opened (mode .ok)) (setUp calls rest) Prepared) :
    Moves (opened false) (setUp calls (call :: rest)) Prepared := by
  refine (announce_moves call).bind ?_
  rintro _ _ rfl
  refine (ftSetup_moves calls (f := fun status => opened (mode status)) hstep).bind ?_
  rintro status _ rfl
  refine (complain_moves _ status).bind ?_
  rintro _ _ rfl
  refine Moves.ite ?_ fun hbad => Moves.pure ?_
  · rintro rfl
    exact hrest
  · have hfalse : (status == .ok) = false := by simpa using hbad
    rw [Prepared, hfail status hbad, hfalse]

theorem setUp_moves (readLatencyMillis : ℤ) :
    Moves (opened false) (setUp calls (setupCalls readLatencyMillis)) Prepared := by
  have hplain : ∀ {call : SetupCall} {rest : List SetupCall},
      (∀ status, (opened false).step (.setup call status) = some (opened false)) →
        Moves (opened false) (setUp calls rest) Prepared →
          Moves (opened false) (setUp calls (call :: rest)) Prepared :=
    fun hstep hrest => setUp_cons_moves calls hstep (fun _ _ => rfl) hrest
  have hmode : ∀ status : FtStatus, (opened false).step (.setup .mpsseMode status) =
      some (opened (status == .ok)) := fun status => by simp [HandleState.step]
  refine hplain (fun _ => rfl) (hplain (fun _ => rfl) (hplain (fun _ => rfl)
    (hplain (fun _ => rfl) (hplain (fun _ => rfl) ?_))))
  refine setUp_cons_moves calls hmode (fun status hbad => by simpa using hbad) ?_
  exact Moves.pure rfl

/-! ## The labels -/

theorem bailCantOpen_moves (lastStatus : FtStatus) :
    Moves (τ := τ) closed (bailCantOpen lastStatus) fun ok st' => ok = false ∧ st' = closed := by
  unfold bailCantOpen
  refine Moves.ite (fun _ => ?_) fun _ => Moves.pure ⟨rfl, rfl⟩
  refine (log_moves _ _ _).bind ?_
  rintro _ _ rfl
  refine (log_moves _ _ _).bind ?_
  rintro _ _ rfl
  refine (log_moves _ _ _).bind ?_
  rintro _ _ rfl
  exact Moves.pure ⟨rfl, rfl⟩

theorem bailUsbClose_moves (lastStatus : FtStatus) :
    Moves (opened false) (bailUsbClose calls lastStatus)
      fun ok st' => ok = false ∧ st' = closed := by
  refine (ftClose_moves calls).bind ?_
  rintro _ _ rfl
  exact bailCantOpen_moves lastStatus

theorem bailResetMode_moves (mpsse : Bool) : Moves (opened mpsse) (bailResetMode calls)
    fun ok st' => ok = false ∧ st' = closed := by
  refine (ftSetup_moves calls (f := fun _ => opened false) fun _ => rfl).bind ?_
  rintro _ _ rfl
  exact bailUsbClose_moves calls .ok

end Steps

/-! ## The life of the driver -/

section Life

variable (h : FtDeviceHeader) (list : DeviceEnumeration) (calls : HandleCalls τ) (io : D2xx τ)
  (mem : Memory)

/-- The device is left open exactly if `activate` succeeds. -/
def Activated (ok : Bool) (st : HandleState) : Prop := st = if ok then opened true else closed

theorem activated_of_failed (ok : Bool) (st : HandleState) (hfail : ok = false ∧ st = closed) :
    Activated ok st := by
  obtain ⟨rfl, rfl⟩ := hfail
  rfl

theorem refused_moves : Moves (τ := τ) closed (pure false) Activated :=
  fun _ hs => ⟨closed, hs, rfl⟩

theorem openSelected_moves (device : FtDevice) (selected : Selected) :
    Moves closed (openSelected calls io mem device selected) Activated := by
  refine Moves.get.bind ?_
  rintro s _ rfl
  refine (ftOpen_moves calls selected.openCall).bind ?_
  rintro lastStatus _ rfl
  refine (complain_moves _ lastStatus).bind ?_
  rintro _ _ rfl
  by_cases hopen : lastStatus = .ok
  · rw [if_pos hopen, if_neg (not_not.mpr hopen)]
    refine (setUp_moves calls _).bind ?_
    rintro lastStatus _ rfl
    by_cases hsetup : lastStatus = .ok
    · rw [hsetup, if_neg (not_not.mpr rfl)]
      refine (onChip_moves _).bind ?_
      rintro ok _ rfl
      cases ok with
      | true => exact Moves.pure rfl
      | false => exact (bailResetMode_moves calls true).mono activated_of_failed
    · have hfalse : (lastStatus == .ok) = false := by simpa using hsetup
      rw [if_pos hsetup, hfalse]
      exact (bailUsbClose_moves calls lastStatus).mono activated_of_failed
  · rw [if_neg hopen, if_pos hopen]
    exact (bailCantOpen_moves lastStatus).mono activated_of_failed

theorem activate_moves (args : List (CString × CString)) :
    Moves closed (activate h list calls io mem args) Activated := by
  intro s hs
  unfold activate
  rw [Exec.wp_bind, Exec.wp_get]
  generalize loadConfig h args s.params = loaded
  obtain ⟨ok, params, text⟩ := loaded
  dsimp only
  rw [Exec.wp_bind, Exec.wp_set]
  have hloaded : Host.At closed { s with params := params, text := s.text ++ text } := hs
  generalize ({ s with params := params, text := s.text ++ text } : Host τ) = t at hloaded
  refine (Moves.ite (fun _ => ?_) fun _ => refused_moves :
    Moves closed _ Activated) t hloaded
  refine (select_moves _).bind ?_
  rintro chip _ rfl
  cases chip with
  | none => exact refused_moves
  | some chip =>
      refine (select_moves _).bind ?_
      rintro selected _ rfl
      cases selected with
      | none => exact refused_moves
      | some selected => exact openSelected_moves calls io mem chip.1 selected

theorem deactivate_moves :
    Moves (opened true) (deactivate calls io) fun _ st' => st' = closed := by
  refine (onChip_moves _).bind ?_
  rintro _ _ rfl
  refine (onChip_moves _).bind ?_
  rintro _ _ rfl
  refine (ftSetup_moves calls (f := fun _ => opened false) fun _ => rfl).bind ?_
  rintro _ _ rfl
  refine (ftClose_moves calls).bind ?_
  rintro _ _ rfl
  exact Moves.pure rfl

theorem performAll_moves (ops : List DriverOp) :
    Moves (opened true) (ops.forM (perform io)) fun _ st' => st' = opened true := by
  induction ops with
  | nil => exact Moves.pure rfl
  | cons op ops ih =>
      refine (onChip_moves _).bind ?_
      rintro _ _ rfl
      exact ih

/-- Whichever calls fail and whatever the clients ask for, the handle is used between a
successful open and one close, data is moved in MPSSE mode only, and the chip is told to
leave that mode before the close.  The device is open after `activate` exactly if that
succeeds, and never at the end; a process that dies has not misused the handle either. -/
theorem handle_protocol (args : List (CString × CString)) (ops : List DriverOp) (sys : Sys τ)
    (params : FtConfig) (text : List LogText) :
    Exec.wp (activate h list calls io mem args)
      (fun ok t => t.At (if ok then opened true else closed)) (fun _ t => t.Fine)
      ⟨sys, params, text, []⟩ ∧
      Exec.wp (lifetime h list calls io mem args ops) (fun _ t => t.At closed)
        (fun _ t => t.Fine) ⟨sys, params, text, []⟩ := by
  generalize hs : (⟨sys, params, text, []⟩ : Host τ) = s
  have hclosed : s.At closed := by
    subst hs
    rfl
  have hactivate := activate_moves h list calls io mem args
  constructor
  · refine Exec.wp_mono (hactivate s hclosed) ?_ fun _ _ he => he
    rintro ok t ⟨_, ht, rfl⟩
    exact ht
  · have hlife :
        Moves closed (lifetime h list calls io mem args ops) fun _ st' => st' = closed := by
      refine hactivate.bind ?_
      rintro ok _ rfl
      cases ok with
      | false => exact Moves.pure rfl
      | true =>
          refine (performAll_moves io ops).bind ?_
          rintro _ _ rfl
          exact deactivate_moves calls io
    refine Exec.wp_mono (hlife s hclosed) ?_ fun _ _ he => he
    rintro _ t ⟨_, ht, rfl⟩
    exact ht

end Life

/-! ## The TAP at the end -/

section Reset

variable {dev : Device} {engine : τ → Engine} {io : D2xx τ}

theorem CleanRun.sound {s t : Sys τ} (h : CleanRun io s t) (hs : Sound s) : Sound t := by
  induction h with
  | start => exact hs
  | shifted r _ hrun _ ih => exact (Exec.wp_ok (shiftBits_outcome r ih) hrun).1
  | failed r _ hrun _ _ ih => exact (Exec.wp_ok (shiftBits_outcome r ih) hrun).1
  | period ns res _ hrun _ ih => exact (Exec.wp_ok (setTckPeriod_outcome ns ih) hrun).1

end Reset

end TinyXvc.Lifecycle
