import TinyXvc.Server.Protocol

/-!
# The handlers

Each handler reads the rest of its command from the socket, and does what the
reference parser has for it.
-/

namespace TinyXvc.Server

variable {δ : Type}

section Socket

variable {io : Client} {s : Conn δ}

theorem wp_recvWaitAll {sz : ℕ} {Q : List UInt8 → Conn δ → Prop} {E : Stall → Conn δ → Prop}
    (hall : sz ≤ s.unread.length → Q (s.unread.take sz) { s with unread := s.unread.drop sz })
    (hshort : s.unread.length < sz → Q s.unread { s with unread := [] })
    (hstall : s.unread.length < sz → io.closes = false → E .waiting s) :
    Exec.wp (recvWaitAll io sz) Q E s := by
  unfold recvWaitAll
  rw [Exec.wp_bind, Exec.wp_get]
  by_cases hlt : s.unread.length < sz
  · by_cases hcloses : io.closes = false
    · rw [if_pos ⟨hlt, hcloses⟩]
      exact hstall hlt hcloses
    · rw [if_neg fun h => hcloses h.2, Exec.wp_bind, Exec.wp_set, Exec.wp_pure,
        List.take_of_length_le hlt.le, List.drop_of_length_le hlt.le]
      exact hshort hlt
  · rw [if_neg fun h => hlt h.1, Exec.wp_bind, Exec.wp_set, Exec.wp_pure]
    exact hall (not_lt.mp hlt)

theorem wp_recvData {sz : ℕ} {Q : Option (List UInt8) → Conn δ → Prop}
    {E : Stall → Conn δ → Prop}
    (hall : sz ≤ s.unread.length →
      Q (some (s.unread.take sz)) { s with unread := s.unread.drop sz })
    (hshort : s.unread.length < sz → Q none { s with unread := [] })
    (hstall : s.unread.length < sz → io.closes = false → E .waiting s) :
    Exec.wp (recvData io sz) Q E s := by
  unfold recvData
  rw [Exec.wp_bind]
  refine wp_recvWaitAll (fun hle => ?_) (fun hlt => ?_) hstall
  · rw [Exec.wp_pure, if_pos (List.length_take_of_le hle)]
    exact hall hle
  · rw [Exec.wp_pure, if_neg hlt.ne]
    exact hshort hlt

theorem xvcInt_eq {p : List UInt8} (h : p.length = 4) :
    xvcInt p = (LittleEndian.value p : ℤ).bmod (2 ^ 32) := by
  obtain ⟨d, c, b, a, rfl⟩ := List.length_eq_four.mp h
  rw [← LittleEndian.toNat_octets_or a b c d]
  exact BitVec.toInt_eq_toNat_bmod _

/-- The stream begins with an `int`, or the handler gets -1. -/
theorem wp_recvXvcInt {Q : ℤ → Conn δ → Prop} {E : Stall → Conn δ → Prop}
    (hint : ∀ n rest, readInt s.unread = some (n, rest) → Q n { s with unread := rest })
    (hshort : readInt s.unread = none → Q (-1) { s with unread := [] })
    (hstall : readInt s.unread = none → io.closes = false → E .waiting s) :
    Exec.wp (recvXvcInt io) Q E s := by
  unfold recvXvcInt
  rw [Exec.wp_bind]
  refine wp_recvData (fun hle => ?_) (fun hlt => ?_) (fun hlt => ?_)
  · refine hint _ _ ?_
    rw [readInt, if_pos hle, xvcInt_eq (List.length_take_of_le hle)]
  · exact hshort (if_neg (not_le.mpr hlt))
  · exact hstall (if_neg (not_le.mpr hlt))

end Socket

variable (D : Driver δ) (heap : ℕ → Octets) (io : Client)

/-- The handler has done what there is to do for the command that it read, if it
could read one. -/
def Handled (s : Conn δ) (command : Option (Command × List UInt8)) (ok : Bool) (s' : Conn δ) :
    Prop :=
  match command with
  | none => ok = false ∧ s'.trace = s.trace
  | some (c, rest) =>
      s'.trace = s.trace ++ (serve D heap s.backend c).1 ∧
        match (serve D heap s.backend c).2 with
        | none => ok = false
        | some b => ok = true ∧ s'.backend = b ∧ s'.unread = rest

/-- It waits for the rest of a command. -/
def Stalled (s : Conn δ) (command : Option (Command × List UInt8)) (s' : Conn δ) : Prop :=
  io.closes = false ∧ command = none ∧ s'.trace = s.trace

variable {D heap io}

theorem cmdGetinfo_spec (s : Conn δ) :
    Exec.wp (cmdGetinfo D) (Handled D heap s (some (.getinfo, s.unread))) (fun _ _ => False) s := by
  unfold cmdGetinfo Handled serve
  rw [Exec.wp_bind, Exec.wp_get]
  dsimp only
  rw [Exec.wp_bind, Exec.wp_set]
  by_cases hpos : 0 < (D.maxVectorBits s.backend.driver).1
  · rw [if_neg (not_le.mpr hpos), if_pos hpos, octets_infoLine hpos]
    exact ⟨List.append_assoc .., rfl, rfl, rfl⟩
  · rw [if_pos (not_lt.mp hpos), if_neg hpos]
    exact ⟨rfl, rfl⟩

theorem cmdSettck_spec (s : Conn δ) :
    Exec.wp (cmdSettck D io) (Handled D heap s (readSettck s.unread))
      (fun _ => Stalled io s (readSettck s.unread)) s := by
  unfold cmdSettck
  rw [Exec.wp_bind]
  refine wp_recvXvcInt (fun period rest hint => ?_) (fun hnone => ?_) (fun hnone hcloses => ?_)
  · rw [readSettck, hint, Option.bind_some]
    dsimp only
    by_cases hneg : period < 0
    · rw [if_pos hneg, if_neg (not_le.mpr hneg)]
      exact ⟨rfl, rfl⟩
    · have hnonneg := not_lt.mp hneg
      have hcast : ((period.toNat : ℕ) : ℤ) = period := Int.toNat_of_nonneg hnonneg
      rw [if_neg hneg, if_pos hnonneg, Exec.wp_bind, Exec.wp_get]
      unfold Handled serve
      dsimp only
      rw [hcast, Exec.wp_bind, Exec.wp_set]
      by_cases hpos : 0 < (D.setTckPeriod period s.backend.driver).1
      · have hoctet := LittleEndian.ofInt_shift hpos
        have hresponse : [UInt8.ofInt ((D.setTckPeriod period s.backend.driver).1 >>> (0 : ℕ)),
            UInt8.ofInt ((D.setTckPeriod period s.backend.driver).1 >>> (8 : ℕ)),
            UInt8.ofInt ((D.setTckPeriod period s.backend.driver).1 >>> (16 : ℕ)),
            UInt8.ofInt ((D.setTckPeriod period s.backend.driver).1 >>> (24 : ℕ))] =
            LittleEndian.octets (D.setTckPeriod period s.backend.driver).1.toNat := by
          apply congrArg₂ List.cons (hoctet 0)
          apply congrArg₂ List.cons (hoctet 1)
          apply congrArg₂ List.cons (hoctet 2)
          exact congrArg₂ List.cons (hoctet 3) rfl
        rw [if_neg (not_le.mpr hpos), if_pos hpos, hresponse]
        exact ⟨List.append_assoc .., rfl, rfl, rfl⟩
      · rw [if_pos (not_lt.mp hpos), if_neg hpos]
        exact ⟨rfl, rfl⟩
  · rw [readSettck, hnone]
    exact ⟨rfl, rfl⟩
  · rw [readSettck, hnone]
    exact ⟨hcloses, rfl, rfl⟩

theorem vectorOctets_eq (n : ℕ) : (n / 8 + if n % 8 ≠ 0 then 1 else 0) = vectorOctets n := by
  unfold vectorOctets
  split
  · omega
  · omega

theorem cmdShift_spec (s : Conn δ) :
    Exec.wp (cmdShift D heap io) (Handled D heap s (readShift s.unread))
      (fun _ => Stalled io s (readShift s.unread)) s := by
  unfold cmdShift
  rw [Exec.wp_bind]
  refine wp_recvXvcInt (fun n rest hint => ?_) (fun hnone => ?_) (fun hnone hcloses => ?_)
  · rw [readShift, hint, Option.bind_some]
    dsimp only
    by_cases hneg : n ≤ 0
    · rw [if_pos hneg, if_neg fun h => not_lt.mpr hneg h.1]
      exact ⟨rfl, rfl⟩
    · have hpos := not_le.mp hneg
      rw [if_neg hneg, vectorOctets_eq, Exec.wp_bind, Exec.wp_modify]
      -- the vectors may have to be allocated first
      generalize hsize : vectorOctets n.toNat = size
      obtain ⟨b, hb⟩ : ∃ b, b = if s.backend.vectorNumBytes < size then
        allocateVectors heap size s.backend else s.backend := ⟨_, rfl⟩
      have hs : (if s.backend.vectorNumBytes < size then
          { s with unread := rest, backend := allocateVectors heap size s.backend }
          else { s with unread := rest }) = { s with unread := rest, backend := b } := by
        rw [hb]
        split
        · rfl
        · rfl
      change Exec.wp _ _ _ (if s.backend.vectorNumBytes < size then
          { s with unread := rest, backend := allocateVectors heap size s.backend }
          else { s with unread := rest })
      rw [hs, Exec.wp_bind]
      refine wp_recvData (fun htms => ?_) (fun hshort => ?_) (fun hshort hcloses => ?_)
      · dsimp only at htms ⊢
        rw [Exec.wp_bind]
        refine wp_recvData (fun htdi => ?_) (fun hshort => ?_) (fun hshort hcloses => ?_)
        · dsimp only at htdi ⊢
          rw [List.length_drop] at htdi
          rw [if_pos ⟨hpos, by omega⟩, Exec.wp_bind, Exec.wp_get]
          unfold Handled serve
          dsimp only
          rw [hsize, ← hb, List.drop_drop, ← Nat.two_mul, Exec.wp_bind, Exec.wp_set]
          cases (D.shiftBits n.toNat (rest.take size) ((rest.drop size).take size) b.tdoVector
            b.driver).1 with
          | false => exact ⟨rfl, rfl⟩
          | true => exact ⟨List.append_assoc .., rfl, rfl, rfl⟩
        · dsimp only at hshort
          rw [List.length_drop] at hshort
          rw [if_neg fun h => by omega]
          exact ⟨rfl, rfl⟩
        · dsimp only at hshort
          rw [List.length_drop] at hshort
          rw [if_neg fun h => by omega]
          exact ⟨hcloses, rfl, rfl⟩
      · dsimp only at hshort
        rw [if_neg fun h => by omega]
        exact ⟨rfl, rfl⟩
      · dsimp only at hshort
        rw [if_neg fun h => by omega]
        exact ⟨hcloses, rfl, rfl⟩
  · rw [readShift, hnone]
    exact ⟨rfl, rfl⟩
  · rw [readShift, hnone]
    exact ⟨hcloses, rfl, rfl⟩

end TinyXvc.Server
