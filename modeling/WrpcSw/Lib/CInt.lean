import Mathlib.Tactic

/-!
# Fixed-width integers of a 32-bit C target

Machine integers are kept as mathematical integers, with every operation that
can leave the range of its type followed by the conversion back to that type:
`i32` for `int`, `u16` for `uint16_t`.  A conversion is the identity on values
that are already in range, so an overflow argument is a bound on the exact
value and nothing else.

Where a source mixes `int` with `unsigned`, its model has the machine words themselves; the last
section gives the numbers of both.
-/

namespace WrpcSw
namespace CInt

/-- The exact value is representable as a signed 32-bit integer. -/
def InI32 (x : Int) : Prop := -2147483648 ≤ x ∧ x < 2147483648

instance (x : Int) : Decidable (InI32 x) :=
  inferInstanceAs (Decidable (_ ∧ _))

/-- Conversion to a signed 32-bit integer (two's complement). -/
def i32 (x : Int) : Int := (x + 2147483648) % 4294967296 - 2147483648

/-- Conversion to a signed 8-bit integer. -/
def i8 (x : Int) : Int := (x + 128) % 256 - 128

theorem i8_eq_self {x : Int} (h : -128 ≤ x) (h' : x < 128) : i8 x = x := by
  unfold i8
  omega

/-- Conversion to an unsigned 16-bit integer. -/
def u16 (n : Nat) : Nat := n % 65536

theorem i32_inI32 (x : Int) : InI32 (i32 x) := by
  unfold InI32 i32
  omega

/-- A value in range is not changed by the conversion. -/
theorem i32_eq_self {x : Int} (h : InI32 x) : i32 x = x := by
  unfold InI32 at h
  unfold i32
  omega

@[simp] theorem i32_zero : i32 0 = 0 := by decide

/-- The conversion is exact up to multiples of `2 ^ 32`. -/
theorem i32_modEq (x : Int) : i32 x ≡ x [ZMOD 2 ^ 32] := by
  unfold i32 Int.ModEq
  norm_num

/-- Values convert alike exactly when they differ by a multiple of `2 ^ 32`. -/
theorem i32_eq_iff {x y : Int} : i32 x = i32 y ↔ x ≡ y [ZMOD 2 ^ 32] := by
  constructor
  · intro h
    exact (i32_modEq x).symm.trans (h ▸ i32_modEq y)
  · intro h
    have hshift := h.add_right 2147483648
    unfold Int.ModEq at hshift
    norm_num at hshift
    unfold i32
    rw [hshift]

/-- The difference of two converted values, converted, is the exact one where that fits. -/
theorem i32_sub_i32 {x y : Int} (h : InI32 (x - y)) : i32 (i32 x - i32 y) = x - y := by
  calc i32 (i32 x - i32 y) = i32 (x - y) := i32_eq_iff.mpr ((i32_modEq x).sub (i32_modEq y))
    _ = x - y := i32_eq_self h

/-- Conversion to an unsigned 64-bit integer. -/
def u64 (x : Int) : Nat := (x % 18446744073709551616).toNat

theorem u64_eq_self {x : Int} (h : 0 ≤ x) (h' : x < 18446744073709551616) : (u64 x : Int) = x := by
  unfold u64
  omega

/-- A negative value comes out one turn higher. -/
theorem u64_neg {x : Int} (h : x < 0) (h' : -18446744073709551616 ≤ x) :
    (u64 x : Int) = x + 18446744073709551616 := by
  unfold u64
  omega

theorem i32_u64 (x : Int) : i32 (u64 x) = i32 x := by
  unfold u64 i32
  omega

/-- Quotients of values that differ by whole turns: they differ by whole turns again only if
the divisor divides the number of turns. -/
theorem ediv_modEq_iff {m d a b c : Int} (hd : 0 < d) (hle : d ≤ m) :
    (a * m + c) / d ≡ (b * m + c) / d [ZMOD m] ↔ d ∣ b - a := by
  have hfirst := Int.mul_ediv_add_emod (a * m + c) d
  have hsecond := Int.mul_ediv_add_emod (b * m + c) d
  have hlow := Int.emod_nonneg (a * m + c) hd.ne'
  have hlow' := Int.emod_nonneg (b * m + c) hd.ne'
  have hhigh := Int.emod_lt_of_pos (a * m + c) hd
  have hhigh' := Int.emod_lt_of_pos (b * m + c) hd
  constructor
  · intro h
    obtain ⟨t, ht⟩ := h.dvd
    have hturns : m * (d * t - (b - a)) = (a * m + c) % d - (b * m + c) % d := by
      linear_combination hsecond - hfirst - d * ht
    -- the remainders are too close to be a turn apart
    have hzero : d * t - (b - a) = 0 := by
      by_contra hne
      have hlarge : m ≤ |m * (d * t - (b - a))| := by
        rw [abs_mul, abs_of_pos (hd.trans_le hle)]
        exact le_mul_of_one_le_right (hd.trans_le hle).le (Int.one_le_abs hne)
      rw [hturns] at hlarge
      have hsmall : |(a * m + c) % d - (b * m + c) % d| < d := by
        rw [abs_lt]
        constructor <;> omega
      omega
    exact ⟨t, by omega⟩
  · rintro ⟨t, ht⟩
    have hsplit : b * m + c = a * m + c + d * (t * m) := by
      linear_combination m * ht
    rw [hsplit, Int.add_mul_ediv_left _ _ hd.ne']
    exact Int.modEq_iff_dvd.mpr ⟨t, by ring⟩

/-- A value that moves by less than the modulus and leaves its turn has gone down exactly when
its remainder has gone up. -/
theorem ediv_step {m x y : Int} (hmove : |y - x| < m) (hleaves : y / m ≠ x / m) :
    y / m = if x % m < y % m then x / m - 1 else x / m + 1 := by
  have hm : 0 < m := (abs_nonneg _).trans_lt hmove
  have hx := Int.mul_ediv_add_emod x m
  have hy := Int.mul_ediv_add_emod y m
  have hxlow := Int.emod_nonneg x hm.ne'
  have hylow := Int.emod_nonneg y hm.ne'
  have hxhigh := Int.emod_lt_of_pos x hm
  have hyhigh := Int.emod_lt_of_pos y hm
  obtain ⟨hdown, hup⟩ := abs_lt.mp hmove
  have hdiff : m * (y / m - x / m) = (y - x) - (y % m - x % m) := by
    linear_combination hy - hx
  -- less than a turn, and the remainders differ by less than a turn
  have habove : y / m - x / m < 2 := by
    by_contra hge
    nlinarith
  have hbelow : -2 < y / m - x / m := by
    by_contra hle
    nlinarith
  split_ifs with hlow
  · by_contra hne
    have hone : y / m - x / m = 1 := by omega
    rw [hone, mul_one] at hdiff
    omega
  · by_contra hne
    have hone : y / m - x / m = -1 := by omega
    rw [hone, mul_neg, mul_one] at hdiff
    omega

theorem u16_eq_self {n : Nat} (h : n < 65536) : u16 n = n :=
  Nat.mod_eq_of_lt h

theorem u16_lt (n : Nat) : u16 n < 65536 := Nat.mod_lt _ (by decide)

/-- Reduction to the signed range of `2 ^ (k + 1)` values, the effect of masking
the low bits of an `int` and sign-extending the top one of them. -/
def signedLow (k : Nat) (x : Int) : Int :=
  let low := x % 2 ^ (k + 1)
  if low < 2 ^ k then low else low - 2 ^ (k + 1)

@[simp] theorem signedLow_zero (k : Nat) : signedLow k 0 = 0 := by
  simp [signedLow]

/-- The value `e` represents `x` in the signed range of `2 ^ (k + 1)` values. -/
def IsSignedLow (k : Nat) (e x : Int) : Prop :=
  -2 ^ k ≤ e ∧ e < 2 ^ k ∧ e ≡ x [ZMOD 2 ^ (k + 1)]

theorem signedLow_isSignedLow (k : Nat) (x : Int) : IsSignedLow k (signedLow k x) x := by
  have hpos : (0 : Int) < 2 ^ k := by positivity
  have hturn : (2 : Int) ^ (k + 1) = 2 * 2 ^ k := by ring
  have hnonneg := Int.emod_nonneg x (b := 2 ^ (k + 1)) (by omega)
  have hlt := Int.emod_lt_of_pos x (b := 2 ^ (k + 1)) (by omega)
  unfold IsSignedLow signedLow
  dsimp only
  split_ifs with hlow
  · exact ⟨by omega, hlow, Int.mod_modEq x _⟩
  · refine ⟨by omega, by omega, ?_⟩
    have hmod : x % 2 ^ (k + 1) - 2 ^ (k + 1) ≡ x % 2 ^ (k + 1) [ZMOD 2 ^ (k + 1)] :=
      Int.modEq_iff_dvd.mpr ⟨1, by ring⟩
    exact hmod.trans (Int.mod_modEq x _)

/-- A class modulo `2 ^ (k + 1)` has one representative in the signed range. -/
theorem IsSignedLow.unique {k : Nat} {a b x y : Int} (ha : IsSignedLow k a x)
    (hb : IsSignedLow k b y) (h : x ≡ y [ZMOD 2 ^ (k + 1)]) : a = b := by
  obtain ⟨halow, hahigh, hax⟩ := ha
  obtain ⟨hblow, hbhigh, hby⟩ := hb
  have hturn : (2 : Int) ^ (k + 1) = 2 * 2 ^ k := by ring
  obtain ⟨c, hc⟩ := ((hax.trans h).trans hby.symm).dvd
  have hpos : (0 : Int) < 2 ^ k := by positivity
  rw [hturn] at hc
  rcases lt_trichotomy c 0 with hneg | rfl | hpos'
  · nlinarith
  · omega
  · nlinarith

/-! ## Words as numbers -/

theorem toInt_toInt32_of_lt {n : UInt32} (h : n.toNat < 2 ^ 31) : n.toInt32.toInt = n.toNat := by
  show n.toBitVec.toInt = _
  rw [BitVec.toInt_eq_toNat_of_lt (by rw [UInt32.toNat_toBitVec]; omega), UInt32.toNat_toBitVec]

theorem toNat_toUInt32_of_toInt {x : Int32} {n : Nat} (h : x.toInt = n) : x.toUInt32.toNat = n := by
  have hle : (0 : Int32) ≤ x := by
    rw [Int32.le_iff_toInt_le, h]
    exact Int.natCast_nonneg n
  rw [Int32.toNat_toUInt32_of_le hle, ← Int32.toNat_toInt, h, Int.toNat_natCast]

end CInt
end WrpcSw
