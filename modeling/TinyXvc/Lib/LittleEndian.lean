import Mathlib.Data.List.Basic
import Mathlib.Tactic

/-!
# Little-endian octets

A number by its octets, the least significant first, and the shifts that put
numbers together and take them apart.
-/

namespace LittleEndian

/-- The value of some octets. -/
def value (payload : List UInt8) : ℕ :=
  payload.foldr (fun octet rest => octet.toNat + 256 * rest) 0

/-- The low four octets of a number. -/
def octets (n : ℕ) : List UInt8 := (List.range 4).map fun i => UInt8.ofNat (n / 256 ^ i)

theorem toNat_octet_shift (x : UInt8) {j : UInt32} (hj : j.toNat ≤ 24) :
    (x.toUInt32 <<< j).toNat = 2 ^ j.toNat * x.toNat := by
  have hx := x.toNat_lt
  have hpow : 2 ^ j.toNat ≤ 2 ^ 24 := Nat.pow_le_pow_right (by decide) hj
  have hlt : 2 ^ j.toNat * x.toNat < 2 ^ 32 := by
    calc 2 ^ j.toNat * x.toNat ≤ 2 ^ 24 * x.toNat := Nat.mul_le_mul_right _ hpow
      _ < 2 ^ 32 := by omega
  rw [UInt32.toNat_shiftLeft, UInt8.toNat_toUInt32, Nat.shiftLeft_eq, Nat.mul_comm,
    Nat.mod_eq_of_lt (show j.toNat < 32 by omega)]
  exact Nat.mod_eq_of_lt hlt

theorem toNat_octets_or (a b c d : UInt8) :
    (a.toUInt32 <<< 24 ||| b.toUInt32 <<< 16 ||| c.toUInt32 <<< 8 ||| d.toUInt32 <<< 0).toNat =
      value [d, c, b, a] := by
  have hb := b.toNat_lt
  have hc := c.toNat_lt
  have hd := d.toNat_lt
  -- every octet lies below the ones that have been put together before
  have hab := Nat.two_pow_add_eq_or_of_lt (i := 24) (b := 2 ^ 16 * b.toNat) (by omega) a.toNat
  have habc := Nat.two_pow_add_eq_or_of_lt (i := 16) (b := 2 ^ 8 * c.toNat) (by omega)
    (2 ^ 8 * a.toNat + b.toNat)
  have habcd := Nat.two_pow_add_eq_or_of_lt (i := 8) (b := d.toNat) hd
    (2 ^ 16 * a.toNat + 2 ^ 8 * b.toNat + c.toNat)
  rw [UInt32.toNat_or, UInt32.toNat_or, UInt32.toNat_or, toNat_octet_shift a (by decide),
    toNat_octet_shift b (by decide), toNat_octet_shift c (by decide),
    toNat_octet_shift d (by decide)]
  have hfirst : 2 ^ 24 * a.toNat ||| 2 ^ 16 * b.toNat = 2 ^ 16 * (2 ^ 8 * a.toNat + b.toNat) := by
    rw [← hab]
    omega
  have hsecond : 2 ^ 16 * (2 ^ 8 * a.toNat + b.toNat) ||| 2 ^ 8 * c.toNat =
      2 ^ 8 * (2 ^ 16 * a.toNat + 2 ^ 8 * b.toNat + c.toNat) := by
    rw [← habc]
    omega
  calc 2 ^ 24 * a.toNat ||| 2 ^ 16 * b.toNat ||| 2 ^ 8 * c.toNat ||| 2 ^ 0 * d.toNat
      = 2 ^ 8 * (2 ^ 16 * a.toNat + 2 ^ 8 * b.toNat + c.toNat) ||| d.toNat := by
        rw [hfirst, hsecond, Nat.pow_zero, Nat.one_mul]
    _ = value [d, c, b, a] := by
        rw [← habcd]
        simp only [value, List.foldr_cons, List.foldr_nil]
        omega

/-- An octet that is taken out by a shift. -/
theorem ofInt_shift {t : ℤ} (ht : 0 < t) (i : ℕ) :
    UInt8.ofInt (t >>> (8 * i)) = UInt8.ofNat (t.toNat / 256 ^ i) := by
  obtain ⟨n, rfl⟩ := Int.eq_ofNat_of_zero_le ht.le
  have hshift : ((n : ℤ) >>> (8 * i)) = ((n / 256 ^ i : ℕ) : ℤ) := by
    rw [Int.shiftRight_eq_div_pow, Nat.pow_mul]
    norm_cast
  rw [hshift]
  have hmod : (((n / 256 ^ i : ℕ) : ℤ) % 2 ^ 8).toNat = n / 256 ^ i % 2 ^ 8 := by omega
  rw [UInt8.ofInt, hmod, Int.toNat_natCast]
  apply UInt8.toNat_inj.mp
  simp

/-! ## The octets of a number and the number of octets -/

theorem length_octets (n : ℕ) : (octets n).length = 4 := rfl

theorem value_lt (payload : List UInt8) : value payload < 256 ^ payload.length := by
  induction payload with
  | nil => decide
  | cons x payload ih =>
      have hx := x.toNat_lt
      have hcons : value (x :: payload) = x.toNat + 256 * value payload := rfl
      rw [hcons, List.length_cons, Nat.pow_succ]
      omega

theorem value_octets {n : ℕ} (hn : n < 2 ^ 32) : value (octets n) = n := by
  have hcons : value (octets n) = n / 256 ^ 0 % 256 + 256 * (n / 256 ^ 1 % 256 +
      256 * (n / 256 ^ 2 % 256 + 256 * (n / 256 ^ 3 % 256 + 256 * 0))) := rfl
  rw [hcons]
  omega

theorem octets_value {payload : List UInt8} (hlen : payload.length = 4) :
    octets (value payload) = payload := by
  obtain ⟨a, b, c, d, rfl⟩ := List.length_eq_four.mp hlen
  have ha := a.toNat_lt
  have hb := b.toNat_lt
  have hc := c.toNat_lt
  have hd := d.toNat_lt
  have hvalue : value [a, b, c, d] =
      a.toNat + 256 * (b.toNat + 256 * (c.toNat + 256 * (d.toNat + 256 * 0))) := rfl
  have hoctet : ∀ (i : ℕ) (x : UInt8), value [a, b, c, d] / 256 ^ i % 256 = x.toNat →
      UInt8.ofNat (value [a, b, c, d] / 256 ^ i) = x := by
    intro i x hx
    apply UInt8.toNat_inj.mp
    exact hx
  apply congrArg₂ List.cons (hoctet 0 a (by rw [hvalue]; omega))
  apply congrArg₂ List.cons (hoctet 1 b (by rw [hvalue]; omega))
  apply congrArg₂ List.cons (hoctet 2 c (by rw [hvalue]; omega))
  exact congrArg₂ List.cons (hoctet 3 d (by rw [hvalue]; omega)) rfl

end LittleEndian
