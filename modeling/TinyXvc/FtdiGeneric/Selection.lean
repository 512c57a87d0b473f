import TinyXvc.FtdiGeneric.ConfigLoading
import TinyXvc.FtdiGeneric.DeviceList
import TinyXvc.Lib.Search

/-!
# Which device is selected

The list on the stack has four entries, whatever D2XX counts, and the loop over
it reads the last character of a serial number, if there is one or not.  So the
selection keeps to its arrays only for some populations of devices, and for those
it finds the first device of the channel.
-/

namespace TinyXvc.DeviceList

open Search

/-- The serial number is not empty, and ends with the letter. -/
def endsWith (letter : Char) (d : DeviceNode) : Bool := d.serialNumber.getLast? == some letter

/-- Before the first device of the channel no serial number is empty. -/
def NoEmptySerialBefore (letter : Char) (devices : List DeviceNode) : Prop :=
  ∀ d ∈ devices.takeWhile (fun d => !endsWith letter d), d.serialNumber ≠ []

/-- The test of the loop; the last character of nothing can not be read. -/
def lastCharTest (letter : Char) (d : DeviceNode) : Option Bool :=
  d.serialNumber.getLast?.map (letter == ·)

theorem lastCharTest_eq_some_true (letter : Char) (d : DeviceNode) :
    (lastCharTest letter d == some true) = endsWith letter d := by
  unfold lastCharTest endsWith
  cases d.serialNumber.getLast? with
  | none => rfl
  | some c => simp [eq_comm]

theorem testable_iff (letter : Char) (devices : List DeviceNode) :
    Testable (lastCharTest letter) devices ↔ NoEmptySerialBefore letter devices := by
  have hbefore : (fun d => lastCharTest letter d != some true) = fun d => !endsWith letter d := by
    funext d
    rw [bne, lastCharTest_eq_some_true]
  have hreads : ∀ d : DeviceNode,
      (lastCharTest letter d).isSome = true ↔ d.serialNumber ≠ [] := by
    intro d
    rw [lastCharTest, Option.isSome_map]
    exact List.getLast?_isSome
  unfold Testable NoEmptySerialBefore
  rw [hbefore]
  exact forall₂_congr fun d _ => hreads d

/-! ## The list -/

/-- The first entries are these devices. -/
def Holds (entries : Entries) (devices : List DeviceNode) : Prop :=
  ∀ (i : ℕ) (d : DeviceNode), devices[i]? = some d → entries i = d

theorem fillEntries_ok (ds : List DeviceNode) (entries : Entries) (i : ℕ)
    (hroom : i + ds.length ≤ numEntries) (text : List LogText) :
    ∃ entries', fillEntries entries i ds text = .ok (entries', text) ∧
      (∀ j < i, entries' j = entries j) ∧
      ∀ (k : ℕ) (d : DeviceNode), ds[k]? = some d → entries' (i + k) = d := by
  induction ds generalizing entries i with
  | nil => exact ⟨entries, rfl, fun _ _ => rfl, fun k d hd => by cases hd⟩
  | cons x ds ih =>
      rw [List.length_cons] at hroom
      have hi : i < numEntries := by omega
      obtain ⟨entries', hrun, hkeep, hfill⟩ :=
        ih (Function.update entries i x) (i + 1) (by omega)
      have hstore : storeEntry entries i x text = .ok (Function.update entries i x, text) := by
        rw [storeEntry, if_pos hi]
        rfl
      refine ⟨entries', ?_, ?_, ?_⟩
      · rw [fillEntries, Exec.bind_ok hstore]
        exact hrun
      · intro j hj
        rw [hkeep j (by omega), Function.update_of_ne (by omega)]
      · intro k d hd
        cases k with
        | zero =>
            cases hd
            rw [Nat.add_zero, hkeep i (by omega), Function.update_self]
        | succ k =>
            have hlater := hfill k d hd
            rwa [Nat.add_right_comm] at hlater

/-- The entry behind the list is written. -/
theorem fillEntries_stray (ds : List DeviceNode) (entries : Entries) {i : ℕ}
    (hi : i ≤ numEntries) (hlong : numEntries < i + ds.length) (text : List LogText) :
    fillEntries entries i ds text = .error (.entry numEntries, text) := by
  induction ds generalizing entries i with
  | nil =>
      rw [List.length_nil] at hlong
      omega
  | cons x ds ih =>
      rw [List.length_cons] at hlong
      rw [fillEntries]
      by_cases hlt : i < numEntries
      · have hstore : storeEntry entries i x text = .ok (Function.update entries i x, text) := by
          rw [storeEntry, if_pos hlt]
          rfl
        rw [Exec.bind_ok hstore]
        exact ih _ (by omega) (by omega)
      · obtain rfl : i = numEntries := by omega
        have hstore : storeEntry entries numEntries x text = .error (.entry numEntries, text) := by
          rw [storeEntry, if_neg hlt]
          rfl
        exact Exec.bind_error hstore

/-! ## The loop -/

theorem loadChar_last (d : DeviceNode) :
    loadChar d.serialNumber (sizeSub d.serialNumber.length 1) =
      match d.serialNumber.getLast? with
      | some c => pure c
      | none => Exec.abort (.character (2 ^ 64 - 1)) := by
  have hlen := d.length_lt
  by_cases hnil : d.serialNumber = []
  · rw [hnil]
    rfl
  · have hpos := List.length_pos_of_ne_nil hnil
    have hsub : sizeSub d.serialNumber.length 1 = d.serialNumber.length - 1 := by
      unfold sizeSub
      omega
    have hlast := List.getLast?_eq_some_getLast hnil
    rw [loadChar, hsub, ← List.getLast?_eq_getElem?, hlast]

/-- The loop is a search through the devices that are left. -/
theorem findDevice_eq {entries : Entries} {devices : List DeviceNode} (letter : Char)
    (hholds : Holds entries devices) (hroom : devices.length ≤ numEntries) (i : ℕ)
    (text : List LogText) :
    findDevice entries letter devices.length i text =
      match firstIdx (lastCharTest letter) (devices.drop i) with
      | some r => .ok (r.map (· + i), text)
      | none => .error (.character (2 ^ 64 - 1), text) := by
  induction hn : devices.length - i generalizing i with
  | zero =>
      have hge : devices.length ≤ i := by omega
      rw [findDevice, if_neg (not_lt.mpr hge), List.drop_eq_nil_of_le hge]
      rfl
  | succ n ih =>
      have hlt : i < devices.length := by omega
      have hload : loadEntry entries i text = .ok (devices[i], text) := by
        rw [loadEntry, if_pos (by omega), hholds i devices[i] (List.getElem?_eq_getElem hlt)]
        rfl
      have hrest := ih (i + 1) (by omega)
      rw [findDevice, if_pos hlt, Exec.bind_ok hload, List.drop_eq_getElem_cons hlt, firstIdx,
        lastCharTest, loadChar_last]
      cases devices[i].serialNumber.getLast? with
      | none => rfl
      | some c =>
          rw [Option.map_some]
          by_cases hc : letter = c
          · subst hc
            rw [beq_self_eq_true]
            dsimp only
            rw [pure_bind, if_pos rfl]
            exact congrArg (fun k => Except.ok (some k, text)) (Nat.zero_add i).symm
          · rw [beq_false_of_ne hc]
            dsimp only
            rw [pure_bind, if_neg hc, hrest]
            cases firstIdx (lastCharTest letter) (devices.drop (i + 1)) with
            | none => rfl
            | some r =>
                cases r with
                | none => rfl
                | some k =>
                    have hnext : k + (i + 1) = k + 1 + i := by omega
                    exact congrArg (fun k => Except.ok (some k, text)) hnext

theorem selectedDevice_eq {entries : Entries} {devices : List DeviceNode} {letter : Char}
    (hletter : letter ≠ '\x00') (hholds : Holds entries devices)
    (hroom : devices.length ≤ numEntries) (text : List LogText) :
    selectedDevice entries letter devices.length text =
      match firstIdx (lastCharTest letter) devices with
      | some r => .ok (r, text)
      | none => .error (.character (2 ^ 64 - 1), text) := by
  by_cases hnil : devices.length = 0
  · have hdevices := List.eq_nil_of_length_eq_zero hnil
    subst hdevices
    rfl
  · rw [selectedDevice, if_pos hnil, if_neg hletter, findDevice_eq letter hholds hroom,
      List.drop_zero]
    cases firstIdx (lastCharTest letter) devices with
    | none => rfl
    | some r => cases r <;> rfl

/-! ## The selection -/

/-- All calls of D2XX succeed. -/
structure DeviceEnumeration.Succeeds (io : DeviceEnumeration) (vid pid : ℤ) : Prop where
  getLibraryVersion : io.getLibraryVersion = .ok
  setVidPid : io.setVidPid vid pid = .ok
  createDeviceInfoList : io.createDeviceInfoList = .ok
  getDeviceInfoList : io.getDeviceInfoList = .ok

section Runs

variable {E : Stray → List LogText → Prop}

theorem wp_requireD2xxSuccess {R : Bool → List LogText → Prop} (expr : String) {status : FtStatus}
    {text : List LogText} (hok : status = .ok → R true text)
    (hfailed : status ≠ .ok → ∀ text', R false text') :
    Exec.wp (requireD2xxSuccess expr status) R E text :=
  Exec.wp_ite (fun h => hfailed h _) (fun h => hok (not_not.mp h))

/-- The entries are filled if all calls succeed, and nothing is done to them if
one fails. -/
theorem wp_listDevices {R : Option Entries → List LogText → Prop} {io : DeviceEnumeration}
    {vid pid : ℤ} {stack : Entries} {text : List LogText}
    (hok : io.Succeeds vid pid → ∀ text',
      Exec.wp (fillEntries stack 0 io.devices) (fun entries => R (some entries)) E text')
    (hfailed : ¬io.Succeeds vid pid → ∀ text', R none text') :
    Exec.wp (listDevices io vid pid stack) R E text := by
  unfold listDevices
  rw [Exec.wp_bind]
  refine wp_requireD2xxSuccess _ (fun hver => ?_)
    (fun hver => hfailed fun h => hver h.getLibraryVersion)
  rw [if_pos rfl, Exec.wp_bind, log, Exec.wp_modify, Exec.wp_bind]
  refine wp_requireD2xxSuccess _ (fun hset => ?_) (fun hset => hfailed fun h => hset h.setVidPid)
  rw [if_pos rfl, Exec.wp_bind]
  refine wp_requireD2xxSuccess _ (fun hcreate => ?_)
    (fun hcreate => hfailed fun h => hcreate h.createDeviceInfoList)
  rw [if_pos rfl, Exec.wp_bind, ftGetDeviceInfoList]
  by_cases hget : io.getDeviceInfoList = .ok
  · rw [if_pos hget, Exec.wp_bind]
    exact hok ⟨hver, hset, hcreate, hget⟩ _
  · rw [if_neg hget, Exec.wp_pure, Exec.wp_bind]
    exact wp_requireD2xxSuccess _ (fun h => absurd h hget)
      (fun _ => hfailed fun h => hget h.getDeviceInfoList)

end Runs

theorem wp_chooseDevice {entries : Entries} {channelSelector : Char} {n : ℕ} {o : Option ℕ}
    {text : List LogText}
    (hselected : selectedDevice entries channelSelector n text = .ok (o, text))
    (hroom : ∀ i, o = some i → i < numEntries) :
    Exec.wp (chooseDevice entries channelSelector n) (fun o' _ => o'.map Selected.device = o)
      (fun _ _ => False) text := by
  unfold chooseDevice
  rw [Exec.wp_bind_ok hselected]
  cases o with
  | none => rfl
  | some i =>
      have hload : loadEntry entries i = pure (entries i) := if_pos (hroom i rfl)
      dsimp only
      rw [hload, pure_bind, Exec.wp_bind, log, Exec.wp_modify]
      exact Exec.wp_ite (fun _ => rfl) (fun _ => rfl)

section Chosen

variable {entries : Entries} {devices : List DeviceNode} {letter : Char}

theorem chooseDevice_first (hletter : letter ≠ '\x00') (hholds : Holds entries devices)
    (hroom : devices.length ≤ numEntries) (hserials : NoEmptySerialBefore letter devices)
    (text : List LogText) :
    Exec.wp (chooseDevice entries letter devices.length)
      (fun o _ => o.map Selected.device = devices.findIdx? (endsWith letter))
      (fun _ _ => False) text := by
  have hfound : firstIdx (lastCharTest letter) devices =
      some (devices.findIdx? (endsWith letter)) := by
    rw [firstIdx_of_testable ((testable_iff letter devices).mpr hserials)]
    congr 2
    funext d
    exact lastCharTest_eq_some_true letter d
  have hselected := selectedDevice_eq hletter hholds hroom text
  rw [hfound] at hselected
  refine wp_chooseDevice hselected fun i hi => ?_
  obtain ⟨hlt, -⟩ := List.findIdx?_eq_some_iff_getElem.mp hi
  exact hlt.trans_le hroom

theorem chooseDevice_stray (hletter : letter ≠ '\x00') (hholds : Holds entries devices)
    (hroom : devices.length ≤ numEntries) (hserials : ¬NoEmptySerialBefore letter devices)
    (text : List LogText) :
    Exec.wp (chooseDevice entries letter devices.length) (fun _ _ => False) (fun _ _ => True)
      text := by
  have hstuck : firstIdx (lastCharTest letter) devices = none :=
    firstIdx_eq_none_iff.mpr fun h => hserials ((testable_iff letter devices).mp h)
  have hselected := selectedDevice_eq hletter hholds hroom text
  rw [hstuck] at hselected
  unfold chooseDevice Exec.wp
  rw [Exec.bind_error hselected]
  trivial

/-- Without a letter the first device is selected, if there is one. -/
theorem chooseDevice_any (text : List LogText) :
    Exec.wp (chooseDevice entries '\x00' devices.length)
      (fun o _ => o.map Selected.device = if devices.length ≠ 0 then some 0 else none)
      (fun _ _ => False) text := by
  refine wp_chooseDevice ?_ ?_
  · unfold selectedDevice
    split
    · rfl
    · rfl
  · intro i hi
    split at hi
    · cases hi
      decide
    · cases hi

end Chosen

/-! ## The configuration -/

/-- The selector that the configuration asks for; it is NUL for a chip with one
channel. -/
def selectorOf (h : FtDeviceHeader) (params : FtConfig) : Option Char :=
  let channel : Char := params .channel
  let device : UInt32 := params .device
  if device = h.ft2232h then if channel ≠ 'A' ∧ channel ≠ 'B' then none else some channel
  else if device = h.ft232h then if channel ≠ 'A' then none else some '\x00'
  else none

theorem wp_chipOf (h : FtDeviceHeader) (params : FtConfig) (text : List LogText) :
    Exec.wp (chipOf h params) (fun o _ => o.map Prod.snd = selectorOf h params)
      (fun _ _ => False) text := by
  unfold chipOf selectorOf
  dsimp only
  split
  · split
    · rfl
    · rfl
  · split
    · split
      · rfl
      · rfl
    · rfl

/-- `activate` gets as far as the list of the devices, and looks for this selector. -/
structure Reaches (h : FtDeviceHeader) (io : DeviceEnumeration) (args : List (CString × CString))
    (out : FtConfig) (channelSelector : Char) : Prop where
  loads : (loadConfig h args out).1 = true
  selector : selectorOf h (loadConfig h args out).2.1 = some channelSelector
  calls : io.Succeeds ((loadConfig h args out).2.1 .vid) ((loadConfig h args out).2.1 .pid)

section Activation

variable {h : FtDeviceHeader} {io : DeviceEnumeration} {args : List (CString × CString)}
variable {out : FtConfig} {stack : Entries}

theorem Reaches.unique {c c' : Char} (hc : Reaches h io args out c)
    (hc' : Reaches h io args out c') : c = c' :=
  Option.some.inj (hc.selector.symm.trans hc'.selector)

/-- `activate` either gives up before the list is filled, or fills it and chooses. -/
theorem wp_activateUntilOpen {Q : Option Selected → List LogText → Prop}
    {E : Stray → List LogText → Prop} {text : List LogText}
    (hgivesUp : (∀ c, ¬Reaches h io args out c) → ∀ text', Q none text')
    (hreaches : ∀ c, Reaches h io args out c → ∀ text',
      Exec.wp (fillEntries stack 0 io.devices)
        (fun entries t => Exec.wp (chooseDevice entries c io.devices.length) Q E t) E text') :
    Exec.wp (activateUntilOpen h io args out stack) Q E text := by
  unfold activateUntilOpen
  rw [Exec.wp_bind, Exec.wp_modify]
  by_cases hloads : (loadConfig h args out).1 = true
  · rw [if_pos hloads, Exec.wp_bind]
    refine Exec.wp_mono (wp_chipOf h _ _) ?_ (fun _ _ he => he.elim)
    rintro (_ | ⟨chip, c⟩) text' hselector
    · refine hgivesUp (fun c hc => ?_) _
      rw [hc.selector] at hselector
      cases hselector
    · unfold selectDevice
      rw [Exec.wp_bind]
      refine wp_listDevices (fun hcalls text'' => ?_) (fun hfailed text'' => ?_)
      · exact hreaches c ⟨hloads, hselector.symm, hcalls⟩ text''
      · exact hgivesUp (fun c hc => hfailed hc.calls) _
  · rw [if_neg hloads]
    exact hgivesUp (fun c hc => hloads hc.loads) _

end Activation

/-- Every access is within its array, and with a letter the selected device is the
first with a serial number that ends with it. -/
def SelectsDevice (h : FtDeviceHeader) (io : DeviceEnumeration) (args : List (CString × CString))
    (out : FtConfig) (stack : Entries) : Prop :=
  ∃ o text, activateUntilOpen h io args out stack [] = .ok (o, text) ∧
    ∀ letter, letter ≠ '\x00' → Reaches h io args out letter →
      o.map Selected.device = io.devices.findIdx? (endsWith letter)

/-- The list has room for the devices, and none of those that the loop looks at has
an empty serial number. -/
def Fits (channelSelector : Char) (devices : List DeviceNode) : Prop :=
  devices.length ≤ numEntries ∧
    (channelSelector ≠ '\x00' → NoEmptySerialBefore channelSelector devices)

section Bounds

variable {h : FtDeviceHeader} {io : DeviceEnumeration} {args : List (CString × CString)}
variable {out : FtConfig} {stack : Entries}

theorem holds_of_filled {entries : Entries} {devices : List DeviceNode}
    (h : ∀ (k : ℕ) (d : DeviceNode), devices[k]? = some d → entries (0 + k) = d) :
    Holds entries devices := by
  intro i d hd
  rw [← h i d hd, Nat.zero_add]

theorem selectsDevice_of_fits
    (hfits : ∀ c, Reaches h io args out c → Fits c io.devices) :
    SelectsDevice h io args out stack := by
  refine Exec.exists_ok (wp_activateUntilOpen (fun hnone text => ?_) (fun c hc text => ?_))
  · intro letter _ hreaches
    exact absurd hreaches (hnone letter)
  · obtain ⟨hroom, hserials⟩ := hfits c hc
    obtain ⟨entries, hrun, -, hfill⟩ :=
      fillEntries_ok io.devices stack 0 (by omega) text
    refine Exec.wp_of_ok hrun ?_
    by_cases hletter : c = '\x00'
    · subst hletter
      refine Exec.wp_mono (chooseDevice_any text) ?_ (fun _ _ he => he)
      intro o _ _ letter hne hreaches
      exact absurd (hreaches.unique hc) hne
    · refine Exec.wp_mono (chooseDevice_first hletter (holds_of_filled hfill) hroom
        (hserials hletter) text) ?_ (fun _ _ he => he)
      intro o _ ho letter _ hreaches
      rw [hreaches.unique hc]
      exact ho

/-- The run that strays from its arrays. -/
theorem activate_strays {c : Char} (hc : Reaches h io args out c) (hfits : ¬Fits c io.devices)
    (text : List LogText) :
    Exec.wp (activateUntilOpen h io args out stack) (fun _ _ => False) (fun _ _ => True) text := by
  refine wp_activateUntilOpen (fun hnone _ => hnone c hc) (fun c' hc' text' => ?_)
  obtain rfl := hc'.unique hc
  by_cases hroom : io.devices.length ≤ numEntries
  · have hserials : ¬(c' ≠ '\x00' → NoEmptySerialBefore c' io.devices) := fun h => hfits ⟨hroom, h⟩
    obtain ⟨hletter, hempty⟩ := Classical.not_imp.mp hserials
    obtain ⟨entries, hrun, -, hfill⟩ :=
      fillEntries_ok io.devices stack 0 (by omega) text'
    exact Exec.wp_of_ok hrun
      (chooseDevice_stray hletter (holds_of_filled hfill) hroom hempty text')
  · have hstray := fillEntries_stray io.devices stack (Nat.zero_le _) (by omega) text'
    unfold Exec.wp
    rw [hstray]
    trivial

end Bounds

/-- The selection keeps to its arrays, and finds the device, exactly when they fit. -/
theorem selects_device_iff (h : FtDeviceHeader) (io : DeviceEnumeration)
    (args : List (CString × CString)) (out : FtConfig) (stack : Entries) :
    SelectsDevice h io args out stack ↔
      ∀ c, Reaches h io args out c → Fits c io.devices := by
  constructor
  · rintro ⟨o, text, hrun, -⟩ c hc
    by_contra hfits
    exact Exec.wp_ok (activate_strays hc hfits []) hrun
  · exact selectsDevice_of_fits

/-- The first channel of an FT2232H. -/
def ft2232hArgs : List (CString × CString) :=
  [("device".toList, "ft2232h".toList), ("vid".toList, "0403".toList),
    ("pid".toList, "6010".toList), ("channel".toList, "A".toList),
    ("d4".toList, "ignored".toList), ("d5".toList, "ignored".toList),
    ("d6".toList, "ignored".toList), ("d7".toList, "ignored".toList)]

/-- D2XX without failures. -/
def enumerate (devices : List DeviceNode) (hlen : devices.length < 2 ^ 32) :
    DeviceEnumeration where
  getLibraryVersion := .ok
  ver := 0x030207
  setVidPid := fun _ _ => .ok
  createDeviceInfoList := .ok
  getDeviceInfoList := .ok
  devices := devices
  length_lt := hlen

theorem enumerate_reaches (devices : List DeviceNode) (hlen : devices.length < 2 ^ 32) :
    Reaches d2xxHeader (enumerate devices hlen) ft2232hArgs (fun p => p.defVal d2xxHeader) 'A' where
  loads := by decide
  selector := by decide
  calls := ⟨rfl, rfl, rfl, rfl⟩

/-- A device that is in use elsewhere is listed without a serial number. -/
def namelessNode : DeviceNode := ⟨[], [], by decide⟩

def channelA : DeviceNode := ⟨"FT5ZX1A".toList, "Dual RS232-HS A".toList, by decide⟩

def deviceInUse : DeviceEnumeration := enumerate [namelessNode, channelA] (by decide)

def fiveDevices : DeviceEnumeration := enumerate (List.replicate 5 channelA) (by decide)

/-- The character before the serial number is read, or the entry behind the list is
written. -/
theorem selection_strays :
    ¬SelectsDevice d2xxHeader deviceInUse ft2232hArgs (fun p => p.defVal d2xxHeader)
        (fun _ => namelessNode) ∧
      ¬SelectsDevice d2xxHeader fiveDevices ft2232hArgs (fun p => p.defVal d2xxHeader)
        (fun _ => namelessNode) := by
  constructor
  · rintro ⟨o, text, hrun, -⟩
    have hempty : ¬Fits 'A' deviceInUse.devices := fun h =>
      h.2 (by decide) namelessNode List.mem_cons_self rfl
    exact Exec.wp_ok (activate_strays (enumerate_reaches _ _) hempty []) hrun
  · rintro ⟨o, text, hrun, -⟩
    have hlong : ¬Fits 'A' fiveDevices.devices := fun h => absurd h.1 (by decide)
    exact Exec.wp_ok (activate_strays (enumerate_reaches _ _) hlong []) hrun

end TinyXvc.DeviceList
