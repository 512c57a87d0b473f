import TinyXvc.Defs
import TinyXvc.Lib.CStrings
import TinyXvc.Lib.Strtol

/-!
# The listen address

`txvc_run_server` up to its accept loop.  The address is cut to the size of a
buffer, split there at the first colon, and its port is whatever `strtol` makes
of the rest, in 16 bits.
-/

namespace TinyXvc

open CBuffer Strtol

/-- What the system calls of `run_with_address` return. -/
structure ListenCalls where
  socket : Bool
  bind : UInt32 → UInt16 → Bool
  listen : Bool

/-- How far the server gets before its accept loop. -/
inductive ServerStart where
  /-- "Bad \"inet-addr:port\": %s\n" -/
  | badAddress (address : CString)
  | noSocket
  | notBound (addr : UInt32) (port : UInt16)
  | notListening (addr : UInt32) (port : UInt16)
  | listening (addr : UInt32) (port : UInt16)
  deriving DecidableEq, Repr

def runWithAddress (calls : ListenCalls) (addr : UInt32) (port : UInt16) : ServerStart :=
  if !calls.socket then .noSocket
  else if !calls.bind addr port then .notBound addr port
  else if !calls.listen then .notListening addr port
  else .listening addr port

/-- `strncpy` into a buffer of `n` characters. -/
def strncpy (s : CString) (n : ℕ) : List Char := (s ++ List.replicate n '\x00').take n

def txvcRunServer (inetAton : CString → Option UInt32) (calls : ListenCalls) (address : CString) :
    ServerStart :=
  let buf := (strncpy address 128).set 127 '\x00'
  match strchr buf 0 ':' with
  | none => .badAddress address
  | some tmp =>
      let buf := buf.set tmp '\x00'
      match inetAton (str buf 0) with
      | none => .badAddress address
      | some addr =>
          let (port, tmp) := strtol 0 (str buf (tmp + 1))
          if tmp ≠ [] then .badAddress address
          else runWithAddress calls addr (UInt16.ofInt port)

/-! ## The address that is meant -/

/-- What precedes the first colon. -/
def beforeColon (text : CString) : CString := text.takeWhile (· ≠ ':')

/-- What follows the first colon. -/
def afterColon (text : CString) : CString := (text.dropWhile (· ≠ ':')).drop 1

/-- The whole text is an address, a colon and a port number. -/
def IsEndpoint (inetAton : CString → Option UInt32) (text : CString) (addr : UInt32) (port : ℤ) :
    Prop :=
  text = beforeColon text ++ ':' :: afterColon text ∧ inetAton (beforeColon text) = some addr ∧
    numberBetween 0 0 65535 (afterColon text) = some port

/-- The server listens at the address and port that the text says, and reports
every other text without opening a socket. -/
def HonouredOrRefused (inetAton : CString → Option UInt32) (address : CString) : Prop :=
  ∀ calls : ListenCalls,
    (∀ addr port, txvcRunServer inetAton calls address = .listening addr port →
      IsEndpoint inetAton address addr port.toNat) ∧
    ((∀ addr port, ¬IsEndpoint inetAton address addr port) →
      txvcRunServer inetAton calls address = .badAddress address)

/-! ## What the buffer holds -/

theorem buffer_eq (address : CString) :
    (strncpy address 128).set 127 '\x00' =
      address.take 127 ++ '\x00' :: List.replicate (127 - address.length) '\x00' := by
  have hlast : (strncpy address 128).drop 128 = [] := by
    rw [strncpy]
    simp
  rw [List.set_eq_take_append_cons_drop, if_pos (by simp [strncpy]), hlast, strncpy, List.take_take,
    List.take_append, List.take_replicate, List.append_assoc, ← List.replicate_succ',
    List.replicate_succ]
  congr 3
  omega

theorem beforeColon_cut {a : CString} (ha : ':' ∉ a) (b : CString) :
    beforeColon (a ++ ':' :: b) = a := takeWhile_cut ha b

theorem afterColon_cut {a : CString} (ha : ':' ∉ a) (b : CString) :
    afterColon (a ++ ':' :: b) = b := by
  rw [afterColon, dropWhile_cut ha, List.drop_one, List.tail_cons]

/-- The number that the server takes for the port, 0 if there is none. -/
def portNumber (text : CString) : Option ℤ :=
  if text = [] then some 0
  else
    match numeral 0 text with
    | some (v, []) => some v
    | _ => none

theorem portNumber_spec (text : CString) :
    match portNumber text with
    | none => (strtol 0 text).2 ≠ []
    | some v => strtol 0 text = (saturate v, []) := by
  unfold portNumber
  by_cases hnil : text = []
  · subst hnil
    rfl
  · rw [if_neg hnil]
    cases hnum : numeral 0 text with
    | none =>
        rw [strtol_of_none hnum]
        exact hnil
    | some p =>
        obtain ⟨v, rest⟩ := p
        rw [strtol_of_some hnum]
        cases rest with
        | nil => rfl
        | cons c rest => exact List.cons_ne_nil c rest

theorem address_str {a b : CString} (ha : '\x00' ∉ a) (hb : '\x00' ∉ b) (hcolon : ':' ∉ a)
    (pad : List Char) :
    strchr (a ++ ':' :: b ++ '\x00' :: pad) 0 ':' = some a.length ∧
      str ((a ++ ':' :: b ++ '\x00' :: pad).set a.length '\x00') 0 = a ∧
      str ((a ++ ':' :: b ++ '\x00' :: pad).set a.length '\x00') (a.length + 1) = b := by
  have hzero : '\x00' ∉ a ++ ':' :: b := by simp [ha, hb]
  have hset : (a ++ ':' :: b ++ '\x00' :: pad).set a.length '\x00' =
      a ++ '\x00' :: (b ++ '\x00' :: pad) := by
    rw [List.append_assoc, List.cons_append, set_append]
  rw [hset]
  refine ⟨?_, ?_, ?_⟩
  · have hfound := strchr_eq_some (p := []) (q := pad) hzero hcolon
    simpa using hfound
  · exact str_append (p := []) ha
  · have hstr := str_append (p := a ++ ['\x00']) (q := pad) hb
    simpa using hstr

/-- The server on the text that its buffer keeps of the address. -/
theorem txvcRunServer_eq {address : CString} (hzero : '\x00' ∉ address)
    (inetAton : CString → Option UInt32) (calls : ListenCalls) :
    txvcRunServer inetAton calls address =
      if ':' ∈ address.take 127 then
        match inetAton (beforeColon (address.take 127)) with
        | none => .badAddress address
        | some addr =>
            match portNumber (afterColon (address.take 127)) with
            | none => .badAddress address
            | some v => runWithAddress calls addr (UInt16.ofInt (saturate v))
      else .badAddress address := by
  have hkept : '\x00' ∉ address.take 127 := fun hmem => hzero (List.mem_of_mem_take hmem)
  rw [txvcRunServer, buffer_eq]
  generalize address.take 127 = cut at *
  by_cases hcolon : ':' ∈ cut
  · obtain ⟨a, b, rfl, ha⟩ := List.eq_append_cons_of_mem hcolon
    obtain ⟨hfound, hbefore, hafter⟩ := address_str (a := a) (b := b)
      (fun hmem => hkept (List.mem_append_left _ hmem))
      (fun hmem => hkept (List.mem_append_right _ (List.mem_cons_of_mem _ hmem))) ha
      (List.replicate (127 - address.length) '\x00')
    rw [if_pos hcolon, hfound, beforeColon_cut ha, afterColon_cut ha]
    dsimp only
    rw [hbefore, hafter]
    cases inetAton a with
    | none => rfl
    | some addr =>
        have hport := portNumber_spec b
        dsimp only
        cases hnum : portNumber b with
        | none =>
            rw [hnum] at hport
            exact if_pos hport
        | some v =>
            rw [hnum] at hport
            dsimp only at hport ⊢
            rw [hport]
            rfl
  · have hnone := strchr_eq_none (p := []) (q := List.replicate (127 - address.length) '\x00')
      hkept hcolon
    rw [List.nil_append, List.length_nil] at hnone
    rw [if_neg hcolon, hnone]

/-! ## When the address survives -/

/-- The address is refused, or the port number that is taken from the buffer is
the one that the whole text says, and fits a port. -/
def PortKept (inetAton : CString → Option UInt32) (address : CString) : Prop :=
  ∀ addr v, ':' ∈ address.take 127 → inetAton (beforeColon (address.take 127)) = some addr →
    portNumber (afterColon (address.take 127)) = some v →
      numberBetween 0 0 65535 (afterColon address) = some v

/-- What the buffer cuts off belongs to the port. -/
theorem colon_of_cut {address : CString} (h : ':' ∈ address.take 127) :
    beforeColon address = beforeColon (address.take 127) ∧
      afterColon address = afterColon (address.take 127) ++ address.drop 127 ∧
      address = beforeColon address ++ ':' :: afterColon address := by
  obtain ⟨a, b, hcut, ha⟩ := List.eq_append_cons_of_mem h
  have haddress : address = a ++ ':' :: (b ++ address.drop 127) := by
    calc
      address = address.take 127 ++ address.drop 127 := (List.take_append_drop 127 address).symm
      _ = a ++ ':' :: (b ++ address.drop 127) := by
        rw [hcut, List.append_assoc, List.cons_append]
  have hbefore : beforeColon address = a := by
    rw [haddress]
    exact beforeColon_cut ha _
  have hafter : afterColon address = b ++ address.drop 127 := by
    conv_lhs => rw [haddress]
    exact afterColon_cut ha _
  rw [hcut, beforeColon_cut ha, afterColon_cut ha, hbefore, hafter]
  exact ⟨rfl, rfl, haddress⟩

theorem toNat_ofInt_port {v : ℤ} (hlo : 0 ≤ v) (hhi : v ≤ 65535) :
    ((UInt16.ofInt v).toNat : ℤ) = v := by
  obtain ⟨n, rfl⟩ := Int.eq_ofNat_of_zero_le hlo
  have hn : n < 2 ^ 16 := by omega
  rw [UInt16.ofInt, UInt16.toNat_ofNat']
  omega

theorem portNumber_eq_some {text : CString} {v : ℤ} (h : portNumber text = some v) :
    text = [] ∧ v = 0 ∨ numeral 0 text = some (v, []) := by
  unfold portNumber at h
  split at h
  · cases h
    exact .inl ⟨‹_›, rfl⟩
  · right
    split at h
    · cases h
      assumption
    · cases h

/-- A port that is cut off and still is the one that the text says is not cut
off in its number. -/
theorem portNumber_of_cut {cut more : CString} {v p : ℤ} (hv : portNumber cut = some v)
    (hp : numberBetween 0 0 65535 (cut ++ more) = some p)
    (hport : ((UInt16.ofInt (saturate v)).toNat : ℤ) = p) : v = p := by
  obtain ⟨hnum, hlo, hhi⟩ := numberBetween_eq_some.mp hp
  have hbounds : 0 ≤ v ∧ v ≤ p := by
    rcases portNumber_eq_some hv with ⟨-, rfl⟩ | hcut
    · exact ⟨le_rfl, hlo⟩
    · exact numeral_cut hcut hnum hlo
  have hlong : saturate v = v := by
    apply saturate_of_mem
    · exact le_trans (by decide) hbounds.1
    · exact le_trans (hbounds.2.trans hhi) (by decide)
  rw [hlong, toNat_ofInt_port hbounds.1 (hbounds.2.trans hhi)] at hport
  exact hport

/-- The server reports the address, or goes on with what it found in the
buffer. -/
theorem txvcRunServer_cases {address : CString} (hzero : '\x00' ∉ address)
    (inetAton : CString → Option UInt32) (calls : ListenCalls) :
    txvcRunServer inetAton calls address = .badAddress address ∨
      ∃ addr v, ':' ∈ address.take 127 ∧ inetAton (beforeColon (address.take 127)) = some addr ∧
        portNumber (afterColon (address.take 127)) = some v ∧
        txvcRunServer inetAton calls address =
          runWithAddress calls addr (UInt16.ofInt (saturate v)) := by
  rw [txvcRunServer_eq hzero]
  by_cases hcolon : ':' ∈ address.take 127
  · rw [if_pos hcolon]
    cases haddr : inetAton (beforeColon (address.take 127)) with
    | none => exact .inl rfl
    | some addr =>
        cases hnum : portNumber (afterColon (address.take 127)) with
        | none => exact .inl rfl
        | some v => exact .inr ⟨addr, v, hcolon, rfl, rfl, rfl⟩
  · rw [if_neg hcolon]
    exact .inl rfl

theorem runWithAddress_listening {calls : ListenCalls} {addr addr' : UInt32} {port port' : UInt16}
    (h : runWithAddress calls addr port = .listening addr' port') :
    addr' = addr ∧ port' = port := by
  unfold runWithAddress at h
  split at h
  · cases h
  split at h
  · cases h
  split at h
  · cases h
  · cases h
    exact ⟨rfl, rfl⟩

theorem endpoint_of_number {inetAton : CString → Option UInt32} {address : CString}
    {addr : UInt32} {v : ℤ} (hcolon : ':' ∈ address.take 127)
    (haddr : inetAton (beforeColon (address.take 127)) = some addr)
    (hnum : numberBetween 0 0 65535 (afterColon address) = some v) :
    IsEndpoint inetAton address addr v := by
  obtain ⟨hbefore, -, hsplit⟩ := colon_of_cut hcolon
  refine ⟨hsplit, ?_, hnum⟩
  rw [hbefore, haddr]

theorem honoured_of_portKept {inetAton : CString → Option UInt32} {address : CString}
    (hzero : '\x00' ∉ address) (h : PortKept inetAton address) :
    HonouredOrRefused inetAton address := by
  intro calls
  rcases txvcRunServer_cases hzero inetAton calls with
    hbad | ⟨addr, v, hcolon, haddr, hport, hrun⟩
  · constructor
    · intro addr port hlistening
      rw [hbad] at hlistening
      cases hlistening
    · intro _
      exact hbad
  · have hnum := h addr v hcolon haddr hport
    have hendpoint := endpoint_of_number hcolon haddr hnum
    obtain ⟨-, hlo, hhi⟩ := numberBetween_eq_some.mp hnum
    have hlong : saturate v = v :=
      saturate_of_mem (le_trans (by decide) hlo) (le_trans hhi (by decide))
    constructor
    · intro addr' port hlistening
      rw [hrun, hlong] at hlistening
      obtain ⟨rfl, rfl⟩ := runWithAddress_listening hlistening
      rw [toNat_ofInt_port hlo hhi]
      exact hendpoint
    · intro hnone
      exact absurd hendpoint (hnone addr v)

theorem portKept_of_honoured {inetAton : CString → Option UInt32} {address : CString}
    (hzero : '\x00' ∉ address) (h : HonouredOrRefused inetAton address) :
    PortKept inetAton address := by
  intro addr v hcolon haddr hport
  have hrun : txvcRunServer inetAton ⟨true, fun _ _ => true, true⟩ address =
      .listening addr (UInt16.ofInt (saturate v)) := by
    rw [txvcRunServer_eq hzero, if_pos hcolon, haddr, hport]
    rfl
  obtain ⟨-, -, hnum⟩ := (h ⟨true, fun _ _ => true, true⟩).1 addr _ hrun
  have hafter := (colon_of_cut hcolon).2.1
  have hsame := portNumber_of_cut hport (hafter ▸ hnum) rfl
  rw [hnum, ← hsame]

theorem listen_address_honoured_iff (inetAton : CString → Option UInt32) {address : CString}
    (hzero : '\x00' ∉ address) : HonouredOrRefused inetAton address ↔ PortKept inetAton address :=
  ⟨portKept_of_honoured hzero, honoured_of_portKept hzero⟩

/-- An `inet_aton` that knows the loopback address. -/
def loopbackOnly (s : CString) : Option UInt32 :=
  if s = "127.0.0.1".toList then some 0x7f000001 else none

theorem listen_address_honoured_loopback :
    HonouredOrRefused loopbackOnly "127.0.0.1:2542".toList ↔
      PortKept loopbackOnly "127.0.0.1:2542".toList :=
  listen_address_honoured_iff loopbackOnly (by decide)

/-- No port, a port of more than 16 bits, and a port 80 whose last digit does
not fit the buffer. -/
theorem ports_not_honoured :
    ¬HonouredOrRefused loopbackOnly "127.0.0.1:".toList ∧
      ¬HonouredOrRefused loopbackOnly "127.0.0.1:70000".toList ∧
      ¬HonouredOrRefused loopbackOnly
        ("127.0.0.1:".toList ++ List.replicate 116 ' ' ++ "80".toList) := by
  refine ⟨?_, ?_, ?_⟩
  · intro h
    have hport := portKept_of_honoured (by decide) h 0x7f000001 0 (by decide) (by decide)
      (by decide)
    revert hport
    decide
  · intro h
    have hport := portKept_of_honoured (by decide) h 0x7f000001 70000 (by decide) (by decide)
      (by decide)
    revert hport
    decide
  · intro h
    have hport := portKept_of_honoured (by decide) h 0x7f000001 8 (by decide) (by decide)
      (by decide)
    revert hport
    decide

end TinyXvc
