import Mathlib.Tactic

/-!
# Fields of packed words

A word is packed by shifting its fields into place and joining them, and unpacked by
extracting bit ranges.  Extraction distributes over the join, so only two rules are
needed: a range returns the field that fills it, and nothing of a field outside it.

* `place` — a field in place.
* `extract_place_same`, `extract_place_other` — the two rules.
* `and_mask` — masking the low bits is truncation.
* `toNat_and_mask`, `toNat_joinWords` — the same for `uint32_t`, and two of them joined.
-/

namespace WrpcSw
namespace BitField

variable {n : Nat}

/-- The field `x` from bit `k` on, in a word of `w` bits. -/
def place (w k : Nat) (x : BitVec n) : BitVec w := x.setWidth w <<< k

/-- The range of a field holds the field. -/
@[simp] theorem extract_place_same {w k : Nat} (x : BitVec n) (h : k + n ≤ w) :
    (place w k x).extractLsb' k n = x := by
  ext i hi
  have hw : k + i < w := by omega
  simp [place, hw, BitVec.getLsbD_eq_getElem hi]

/-- A range beside a field holds nothing of it. -/
@[simp] theorem extract_place_other {w k s m : Nat} (x : BitVec n)
    (h : k + n ≤ s ∨ s + m ≤ k) : (place w k x).extractLsb' s m = 0 := by
  ext i hi
  rw [place, BitVec.getElem_extractLsb', BitVec.getLsbD_shiftLeft, BitVec.getLsbD_setWidth]
  rcases h with h | h
  · have hout : x.getLsbD (s + i - k) = false := BitVec.getLsbD_of_ge x _ (by omega)
    simp [hout]
  · have hbelow : s + i < k := by omega
    simp [hbelow]

/-- Masking all but the low `k` bits. -/
theorem and_mask {w k : Nat} (x : BitVec w) (h : k ≤ w) :
    x &&& BitVec.ofNat w (2 ^ k - 1) = (x.setWidth k).setWidth w := by
  apply BitVec.eq_of_toNat_eq
  have hpow : 2 ^ k ≤ 2 ^ w := Nat.pow_le_pow_right (by decide) h
  have hpos : 0 < 2 ^ k := Nat.two_pow_pos k
  rw [BitVec.toNat_and, BitVec.toNat_ofNat, Nat.mod_eq_of_lt (by omega),
    Nat.and_two_pow_sub_one_eq_mod, BitVec.toNat_setWidth, BitVec.toNat_setWidth]
  exact (Nat.mod_eq_of_lt ((Nat.mod_lt _ hpos).trans_le hpow)).symm

/-- The low `k` bits of a 32-bit word as a number. -/
theorem toNat_and_mask (x : UInt32) {m : UInt32} {k : Nat} (hm : m.toNat = 2 ^ k - 1) :
    (x &&& m).toNat = x.toNat % 2 ^ k := by
  rw [UInt32.toNat_and, hm, Nat.and_two_pow_sub_one_eq_mod]

/-- Two 32-bit words in one of 64 bits. -/
theorem toNat_joinWords (low high : UInt32) :
    (low.toUInt64 ||| high.toUInt64 <<< 32).toNat = low.toNat + 2 ^ 32 * high.toNat := by
  have hlow := low.toNat_lt
  have hhigh := high.toNat_lt
  have hshift : (high.toUInt64 <<< 32).toNat = 2 ^ 32 * high.toNat := by
    rw [UInt64.toNat_shiftLeft, UInt32.toNat_toUInt64, Nat.shiftLeft_eq, Nat.mul_comm]
    exact Nat.mod_eq_of_lt (by simp; omega)
  rw [UInt64.toNat_or, UInt32.toNat_toUInt64, hshift, Nat.or_comm,
    ← Nat.two_pow_add_eq_or_of_lt hlow, Nat.add_comm]

/-- The upper and the lower part of a word. -/
theorem append_extract {w hi lo : Nat} (x : BitVec w) :
    x.extractLsb' lo hi ++ x.extractLsb' 0 lo = x.setWidth (hi + lo) := by
  rw [BitVec.extractLsb'_append_extractLsb'_eq_extractLsb' (by simp)]
  ext i hi'
  simp

end BitField
end WrpcSw
