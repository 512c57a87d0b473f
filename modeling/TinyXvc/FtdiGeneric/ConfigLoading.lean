import TinyXvc.FtdiGeneric.Config
import TinyXvc.Lib.Marked

/-!
# What the loader accepts

Every converter marks a bad text by a value that the validation of its parameter
refuses, but for that of the device: its mark is not the one that the validation
knows.
-/

namespace TinyXvc

open Strtol

variable (h : FtDeviceHeader)

/-- The value of the last argument with this name. -/
def lastValue (name : CString) (args : List (CString × CString)) : Option CString :=
  Marked.lastVerdict (fun arg => arg.1 == name) Prod.snd args

/-! ## Valid values -/

/-- What a valid text means for the parameter. -/
def Param.meaning : (p : Param) → CString → Option p.Field
  | .device => fun s => [("ft2232h".toList, h.ft2232h), ("ft232h".toList, h.ft232h)].lookup s
  | .vid | .pid => numberBetween 16 1 0xffff
  | .channel => fun s => [("A".toList, 'A'), ("B".toList, 'B')].lookup s
  | .readLatencyMillis => fun s => if s = [] then some (16 : ℤ) else numberBetween 10 0 255 s
  | .d4 | .d5 | .d6 | .d7 => fun s =>
      ([("driver_low".toList, PinRole.otherDriverLow), ("driver_high".toList, .otherDriverHigh),
        ("ignored".toList, .otherIgnored)].lookup s).map some

/-- What the parameter is when it is not given. -/
def Param.absent : (p : Param) → Option p.Field
  | .device | .vid | .pid | .channel => none
  | .readLatencyMillis => some (16 : ℤ)
  | .d4 | .d5 | .d6 | .d7 => none

/-- The valid value that the arguments give to the parameter. -/
def Param.expected (args : List (CString × CString)) (p : Param) : Option p.Field :=
  match lastValue p.name args with
  | some s => p.meaning h s
  | none => p.absent

/-- The result and the parameters of `load_config`. -/
def loaded (args : List (CString × CString)) (out : FtConfig) : Bool × FtConfig :=
  ((loadConfig h args out).1, (loadConfig h args out).2.1)

/-- The loader accepts the valid arguments, and reads their values. -/
structure LoadsExactly (args : List (CString × CString)) (out : FtConfig) : Prop where
  accepts : (loaded h args out).1 = true ↔ ∀ p, (Param.expected h args p).isSome = true
  values : (loaded h args out).1 = true →
    ∀ p, Param.expected h args p = some ((loaded h args out).2 p)
  unknown : loaded h (args.filter fun arg => (paramListItems.map Param.name).contains arg.1) out =
    loaded h args out
  permuted : ∀ args' : List (CString × CString),
    (∀ name, args'.filter (fun arg => arg.1 == name) = args.filter (fun arg => arg.1 == name)) →
      loaded h args' out = loaded h args out

/-- One of the supported devices. -/
def DeviceName (s : CString) : Prop := s = "ft2232h".toList ∨ s = "ft232h".toList

/-- The last device that is given, if there is one, is a supported device. -/
def DeviceListed (args : List (CString × CString)) : Prop :=
  ∀ s, lastValue Param.device.name args = some s → DeviceName s

/-! ## The fields after the loops -/

theorem mem_paramListItems (p : Param) : p ∈ paramListItems := by
  cases p <;> decide

theorem find_name (p : Param) : paramListItems.find? (fun q => q.name == p.name) = some p := by
  cases p <;> decide

theorem foldl_update {l : List Param} (v : FtConfig) (out : FtConfig) {p : Param} (hp : p ∈ l) :
    l.foldl (fun out p => Function.update out p (v p)) out p = v p := by
  induction l using List.reverseRecOn with
  | nil => cases hp
  | append_singleton l q ih =>
      rw [List.foldl_append, List.foldl_cons, List.foldl_nil]
      by_cases hpq : p = q
      · subst hpq
        exact Function.update_self ..
      · rw [Function.update_of_ne hpq]
        rcases List.mem_append.mp hp with hl | hq
        · exact ih hl
        · exact absurd (List.mem_singleton.mp hq) hpq

theorem defaults_eq (out : FtConfig) :
    paramListItems.foldl (fun out p => Function.update out p (p.defVal h)) out =
      fun p => p.defVal h := by
  funext p
  exact foldl_update (fun p => p.defVal h) out (mem_paramListItems p)

/-- A round of the loop sets the parameter with the argument's name. -/
theorem convertAndSet_apply (s : FtConfig × List LogText) (arg : CString × CString) (p : Param) :
    (convertAndSetIfMatches h s arg).1 p =
      if arg.1 == p.name then p.converterFunc h arg.2 else s.1 p := by
  unfold convertAndSetIfMatches
  by_cases hname : arg.1 = p.name
  · rw [hname, find_name, if_pos (by simp)]
    exact Function.update_self ..
  · rw [if_neg (by simpa using hname)]
    split
    · rename_i q hfound
      have hq : q.name = arg.1 := by simpa using List.find?_some hfound
      have hpq : p ≠ q := by
        rintro rfl
        exact hname hq.symm
      exact Function.update_of_ne hpq ..
    · rfl

theorem lastValue_append (name : CString) (args : List (CString × CString))
    (arg : CString × CString) :
    lastValue name (args ++ [arg]) =
      if arg.1 == name then some arg.2 else lastValue name args := by
  rw [lastValue, Marked.lastVerdict, List.filter_append]
  by_cases hname : (arg.1 == name) = true
  · simp [hname]
  · simp [hname, lastValue, Marked.lastVerdict]

/-- Every field holds the last value given for it, or what it held before. -/
theorem arguments_apply (args : List (CString × CString)) (s : FtConfig × List LogText)
    (p : Param) :
    (args.foldl (convertAndSetIfMatches h) s).1 p =
      (lastValue p.name args).elim (s.1 p) (p.converterFunc h) := by
  induction args using List.reverseRecOn with
  | nil => rfl
  | append_singleton args arg ih =>
      rw [List.foldl_append, List.foldl_cons, List.foldl_nil, convertAndSet_apply, ih,
        lastValue_append]
      split
      · rfl
      · rfl

/-- The parameters after the loops. -/
def Param.given (args : List (CString × CString)) (p : Param) : p.Field :=
  (lastValue p.name args).elim (p.defVal h) (p.converterFunc h)

theorem loaded_eq (args : List (CString × CString)) (out : FtConfig) :
    loaded h args out =
      (paramListItems.all fun p => p.validation h (p.given h args), fun p => p.given h args) := by
  have hfields : (args.foldl (convertAndSetIfMatches h) (fun p => p.defVal h, [])).1 =
      fun p => p.given h args := by
    funext p
    exact arguments_apply h args _ p
  unfold loaded loadConfig
  simp only [defaults_eq, hfields]
  split
  · rename_i p hfound
    have hp : p.validation h (p.given h args) = false := by simpa using List.find?_some hfound
    have hall : (paramListItems.all fun p => p.validation h (p.given h args)) = false := by
      rw [List.all_eq_false]
      exact ⟨p, mem_paramListItems p, by simp [hp]⟩
    rw [hall]
  · rename_i hnone
    have hall : (paramListItems.all fun p => p.validation h (p.given h args)) = true := by
      rw [List.all_eq_true]
      intro p hp
      simpa using List.find?_eq_none.mp hnone p hp
    rw [hall]

/-! ## Sentinels -/

theorem guard_of_true {α : Type} {p : α → Bool} {a : α} (h : p a = true) :
    Option.guard p a = some a := if_pos h

theorem guard_of_false {α : Type} {p : α → Bool} {a : α} (h : p a = false) :
    Option.guard p a = none := if_neg (by simp [h])

theorem strToUsbId_meaning (s : CString) :
    numberBetween 16 1 0xffff s = Option.guard (fun id => decide (id > 0)) (strToUsbId s) := by
  have hconv : strToUsbId s = if (strtol 16 s).2 ≠ [] ∨ (strtol 16 s).1 ≤ 0 ∨
      (strtol 16 s).1 > 0xffff then -1 else (strtol 16 s).1 := rfl
  have hlow : (strtol 16 s).1 < 1 ↔ (strtol 16 s).1 ≤ 0 := by omega
  rw [numberBetween_eq (by decide) (by decide) (fun _ => .inl (by decide))]
  simp only [hlow]
  by_cases hbad : (strtol 16 s).2 ≠ [] ∨ (strtol 16 s).1 ≤ 0 ∨ (strtol 16 s).1 > 0xffff
  · rw [if_pos hbad] at hconv
    rw [hconv, if_pos hbad]
    rfl
  · rw [if_neg hbad] at hconv
    have hpos : (strtol 16 s).1 > 0 := by
      by_contra hle
      exact hbad (.inr (.inl (not_lt.mp hle)))
    rw [hconv, if_neg hbad]
    symm
    apply guard_of_true
    exact decide_eq_true hpos

theorem strToFtdiLatency_meaning (s : CString) :
    (if s = [] then some (16 : ℤ) else numberBetween 10 0 255 s) =
      Option.guard (fun millis => decide (millis ≥ 0)) (strToFtdiLatency s) := by
  by_cases hs : s = []
  · subst hs
    rfl
  · have hconv : strToFtdiLatency s = if (strtol 10 s).2 ≠ [] ∨ (strtol 10 s).1 < 0 ∨
        (strtol 10 s).1 > 255 then -1 else (strtol 10 s).1 := if_neg hs
    rw [if_neg hs, numberBetween_eq (by decide) (by decide) (fun hnil => absurd hnil hs)]
    by_cases hbad : (strtol 10 s).2 ≠ [] ∨ (strtol 10 s).1 < 0 ∨ (strtol 10 s).1 > 255
    · rw [if_pos hbad] at hconv
      rw [hconv, if_pos hbad]
      rfl
    · rw [if_neg hbad] at hconv
      have hge : (strtol 10 s).1 ≥ 0 := by
        by_contra hlt
        exact hbad (.inr (.inl (not_le.mp hlt)))
      rw [hconv, if_neg hbad]
      symm
      apply guard_of_true
      exact decide_eq_true hge

theorem lookup_cons_eq {β : Type} (s name : CString) (value : β) (items : List (CString × β)) :
    ((name, value) :: items).lookup s = if s = name then some value else items.lookup s := by
  rw [List.lookup_cons]
  by_cases hs : s = name
  · simp [hs]
  · have hne : (s == name) = false := by simpa using hs
    rw [hne, if_neg hs]

theorem strToFtdiInterface_meaning (s : CString) :
    [("A".toList, 'A'), ("B".toList, 'B')].lookup s =
      Option.guard (fun channel => channel != '?') (strToFtdiInterface s) := by
  rw [strToFtdiInterface, lookup_cons_eq, lookup_cons_eq, List.lookup_nil]
  split
  · rfl
  split
  · rfl
  · rfl

theorem strToPinRole_meaning (s : CString) :
    ([("driver_low".toList, PinRole.otherDriverLow), ("driver_high".toList, .otherDriverHigh),
      ("ignored".toList, .otherIgnored)].lookup s).map some =
      Option.guard Option.isSome (strToPinRole s) := by
  rw [strToPinRole, lookup_cons_eq, lookup_cons_eq, lookup_cons_eq, List.lookup_nil]
  split
  · rfl
  split
  · rfl
  split
  · rfl
  · rfl

theorem strToFtDevice_listed {s : CString} (hs : DeviceName s) :
    [("ft2232h".toList, h.ft2232h), ("ft232h".toList, h.ft232h)].lookup s =
      Option.guard (fun device => device != h.unknown) (strToFtDevice h s) := by
  rw [strToFtDevice, lookup_cons_eq, lookup_cons_eq, List.lookup_nil]
  rcases hs with rfl | rfl
  · exact (guard_of_true (by simpa using h.unknown_ne_ft2232h.symm)).symm
  · exact (guard_of_true (by simpa using h.unknown_ne_ft232h.symm)).symm

/-- The value of a name that is not listed passes for a device. -/
theorem strToFtDevice_unlisted {s : CString} (hs : ¬DeviceName s) :
    [("ft2232h".toList, h.ft2232h), ("ft232h".toList, h.ft232h)].lookup s = none ∧
      (strToFtDevice h s != h.unknown) = true := by
  obtain ⟨hne, hne'⟩ := not_or.mp hs
  rw [strToFtDevice, lookup_cons_eq, lookup_cons_eq, List.lookup_nil, if_neg hne, if_neg hne',
    if_neg hne, if_neg hne']
  exact ⟨rfl, by simpa using h.unknown_ne_minus_one.symm⟩

/-! ## Accepted arguments -/

/-- The field passes its validation exactly when it is expected. -/
def Param.Guarded (args : List (CString × CString)) (p : Param) : Prop :=
  p.expected h args = Option.guard (p.validation h) (p.given h args)

theorem expected_of_some {args : List (CString × CString)} {p : Param} {s : CString}
    (hs : lastValue p.name args = some s) :
    p.expected h args = p.meaning h s ∧ p.given h args = p.converterFunc h s := by
  rw [Param.expected, Param.given, hs]
  exact ⟨rfl, rfl⟩

theorem guarded_of_none {args : List (CString × CString)} {p : Param}
    (hnone : lastValue p.name args = none) : p.Guarded h args := by
  rw [Param.Guarded, Param.expected, Param.given, hnone]
  cases p with
  | device =>
      symm
      apply guard_of_false
      exact bne_self_eq_false h.unknown
  | _ => rfl

theorem guarded_of_ne {args : List (CString × CString)} {p : Param} (hp : p ≠ .device) :
    p.Guarded h args := by
  cases hlast : lastValue p.name args with
  | none => exact guarded_of_none h hlast
  | some s =>
      obtain ⟨hexpected, hgiven⟩ := expected_of_some h hlast
      rw [Param.Guarded, hexpected, hgiven]
      cases p with
      | device => exact absurd rfl hp
      | vid | pid => exact strToUsbId_meaning s
      | channel => exact strToFtdiInterface_meaning s
      | readLatencyMillis => exact strToFtdiLatency_meaning s
      | d4 | d5 | d6 | d7 => exact strToPinRole_meaning s

theorem guarded_device {args : List (CString × CString)} (hlisted : DeviceListed args) :
    Param.device.Guarded h args := by
  cases hlast : lastValue Param.device.name args with
  | none => exact guarded_of_none h hlast
  | some s =>
      obtain ⟨hexpected, hgiven⟩ := expected_of_some h hlast
      rw [Param.Guarded, hexpected, hgiven]
      exact strToFtDevice_listed h (hlisted s hlast)

theorem accepted_iff (args : List (CString × CString)) (out : FtConfig) :
    (loaded h args out).1 = true ↔ ∀ p : Param, p.validation h (p.given h args) = true := by
  rw [loaded_eq, List.all_eq_true]
  constructor
  · intro hall p
    exact hall p (mem_paramListItems p)
  · intro hall p _
    exact hall p

theorem isSome_expected_iff {args : List (CString × CString)} {p : Param} (hp : p.Guarded h args) :
    (p.expected h args).isSome = true ↔ p.validation h (p.given h args) = true := by
  rw [hp, Option.isSome_guard]

/-- Only the last value of each parameter counts. -/
theorem loaded_congr {args args' : List (CString × CString)} (out : FtConfig)
    (hlast : ∀ p : Param, lastValue p.name args' = lastValue p.name args) :
    loaded h args' out = loaded h args out := by
  have hgiven : Param.given h args' = Param.given h args := by
    funext p
    rw [Param.given, Param.given, hlast]
  rw [loaded_eq, loaded_eq, hgiven]

theorem loaded_known (args : List (CString × CString)) (out : FtConfig) :
    loaded h (args.filter fun arg => (paramListItems.map Param.name).contains arg.1) out =
      loaded h args out := by
  apply loaded_congr
  intro p
  rw [lastValue, lastValue, Marked.lastVerdict, Marked.lastVerdict, List.filter_filter]
  congr 3
  funext arg
  by_cases hname : arg.1 = p.name
  · have hknown : p.name ∈ paramListItems.map Param.name :=
      List.mem_map_of_mem (mem_paramListItems p)
    simp [hname, hknown]
  · simp [hname]

theorem loaded_permuted {args args' : List (CString × CString)} (out : FtConfig)
    (hsame : ∀ name, args'.filter (fun arg => arg.1 == name) =
      args.filter (fun arg => arg.1 == name)) : loaded h args' out = loaded h args out := by
  apply loaded_congr
  intro p
  rw [lastValue, lastValue, Marked.lastVerdict, Marked.lastVerdict, hsame]

theorem exact_of_guarded {args : List (CString × CString)} (out : FtConfig)
    (hguarded : ∀ p : Param, p.Guarded h args) : LoadsExactly h args out where
  accepts := by
    rw [accepted_iff]
    exact forall_congr' fun p => (isSome_expected_iff h (hguarded p)).symm
  values := by
    intro haccepted p
    have hvalid := (accepted_iff h args out).mp haccepted p
    rw [hguarded p, guard_of_true hvalid, loaded_eq]
  unknown := loaded_known h args out
  permuted := fun _ hsame => loaded_permuted h out hsame

/-- Arguments that are refused for a parameter other than the device. -/
theorem exact_of_refused {args : List (CString × CString)} (out : FtConfig) {p : Param}
    (hp : p ≠ .device) (hnone : p.expected h args = none) : LoadsExactly h args out := by
  have hinvalid : p.validation h (p.given h args) ≠ true := by
    rw [ne_eq, ← isSome_expected_iff h (guarded_of_ne h hp), hnone]
    simp
  have hrefused : (loaded h args out).1 ≠ true := by
    rw [ne_eq, accepted_iff]
    intro hall
    exact hinvalid (hall p)
  constructor
  · refine iff_of_false hrefused ?_
    intro hall
    simpa [hnone] using hall p
  · intro haccepted
    exact absurd haccepted hrefused
  · exact loaded_known h args out
  · intro args' hsame
    exact loaded_permuted h out hsame

theorem not_exact_of_unlisted {args : List (CString × CString)} (out : FtConfig)
    (hunlisted : ¬DeviceListed args)
    (hothers : ∀ p : Param, p ≠ .device → p.expected h args ≠ none) :
    ¬LoadsExactly h args out := by
  intro hexact
  obtain ⟨s, hs⟩ := not_forall.mp hunlisted
  obtain ⟨hlast, hname⟩ := Classical.not_imp.mp hs
  obtain ⟨hmeaning, hpasses⟩ := strToFtDevice_unlisted h hname
  obtain ⟨hexpected, hgiven⟩ := expected_of_some h hlast
  have haccepted : (loaded h args out).1 = true := by
    rw [accepted_iff]
    intro p
    by_cases hp : p = .device
    · subst hp
      rw [hgiven]
      exact hpasses
    · rw [← isSome_expected_iff h (guarded_of_ne h hp)]
      exact Option.isSome_iff_ne_none.mpr (hothers p hp)
  have hdevice := hexact.accepts.mp haccepted .device
  have hnone : Param.device.expected h args = none := hexpected.trans hmeaning
  rw [hnone] at hdevice
  cases hdevice

/-- The loader accepts a device that is not listed when the other parameters are
valid, and is exact otherwise. -/
theorem load_config_exact_iff (args : List (CString × CString)) (out : FtConfig) :
    LoadsExactly h args out ↔
      DeviceListed args ∨ ∃ p : Param, p ≠ .device ∧ p.expected h args = none := by
  constructor
  · intro hexact
    by_contra hbad
    obtain ⟨hunlisted, hothers⟩ := not_or.mp hbad
    refine not_exact_of_unlisted h out hunlisted ?_ hexact
    intro p hp hnone
    exact hothers ⟨p, hp, hnone⟩
  · rintro (hlisted | ⟨p, hp, hnone⟩)
    · apply exact_of_guarded
      intro p
      by_cases hp : p = .device
      · subst hp
        exact guarded_device h hlisted
      · exact guarded_of_ne h hp
    · exact exact_of_refused h out hp hnone

/-- Values that a D2XX header has. -/
def d2xxHeader : FtDeviceHeader where
  unknown := 3
  ft2232h := 6
  ft232h := 8
  unknown_ne_ft2232h := by decide
  unknown_ne_ft232h := by decide
  unknown_ne_minus_one := by decide

/-- A chip of another type, in an otherwise valid configuration. -/
def ft4232hArgs : List (CString × CString) :=
  [("device".toList, "ft4232h".toList), ("vid".toList, "0403".toList),
    ("pid".toList, "6011".toList), ("channel".toList, "A".toList),
    ("d4".toList, "ignored".toList), ("d5".toList, "ignored".toList),
    ("d6".toList, "ignored".toList), ("d7".toList, "ignored".toList)]

theorem ft4232h_accepted :
    ¬LoadsExactly d2xxHeader ft4232hArgs fun p => p.defVal d2xxHeader := by
  apply not_exact_of_unlisted
  · intro hlisted
    have hname := hlisted "ft4232h".toList (by decide)
    revert hname
    unfold DeviceName
    decide
  · intro p hp
    cases p with
    | device => exact absurd rfl hp
    | vid | pid | channel | readLatencyMillis | d4 | d5 | d6 | d7 => decide

end TinyXvc
