import Mathlib.Order.Interval.Set.UnorderedInterval
import Mathlib.Tactic

/-!
# Rounded steps towards a target

A value is moved towards a target by a fraction of the distance, in integers: the
fraction is rounded to half units and then to units.  The rounding never passes the
target and never moves away from it, so that every interval that holds the value and
the target holds the moved value as well.

* `half_add_low` — a halving shift and the bit it drops, added up, round up.
* `roundedPart_mem_uIcc` — the part that is moved lies between zero and the distance.
* `add_roundedPart_mem_Icc` — the moved value stays in the interval.
-/

namespace WrpcSw
namespace Rounding

/-- Half of a value, rounded up, from its arithmetic shift and its lowest bit. -/
theorem half_add_low (q : Int) : q >>> (1 : Nat) + q % 2 = (q + 1) / 2 := by
  rw [Int.shiftRight_eq_div_pow]
  omega

/-- The fraction `a / 2 ^ (k + 1)` of a distance `d`: half units by a floor, units by rounding
up. -/
def roundedPart (a : Int) (k : Nat) (d : Int) : Int := (a * d / 2 ^ k + 1) / 2

section Part

variable {a d : Int} {k : Nat} (ha : 0 ≤ a) (ha' : a ≤ 2 ^ (k + 1))

include ha ha'

/-- The half units lie between zero and twice the distance. -/
theorem halfUnits_bounds :
    (0 ≤ d → 0 ≤ a * d / 2 ^ k ∧ a * d / 2 ^ k ≤ 2 * d) ∧
      (d ≤ 0 → 2 * d ≤ a * d / 2 ^ k ∧ a * d / 2 ^ k ≤ 0) := by
  have hpos : (0 : Int) < 2 ^ k := by positivity
  have htwice : (2 : Int) ^ (k + 1) * d / 2 ^ k = 2 * d := by
    rw [pow_succ, mul_assoc, Int.mul_ediv_cancel_left _ hpos.ne']
  constructor
  · intro hd
    constructor
    · exact Int.ediv_nonneg (mul_nonneg ha hd) hpos.le
    · rw [← htwice]
      exact Int.ediv_le_ediv hpos (mul_le_mul_of_nonneg_right ha' hd)
  · intro hd
    constructor
    · rw [← htwice]
      exact Int.ediv_le_ediv hpos (mul_le_mul_of_nonpos_right ha' hd)
    · exact Int.ediv_nonpos_of_nonpos_of_neg (mul_nonpos_of_nonneg_of_nonpos ha hd) hpos

theorem roundedPart_mem_uIcc : roundedPart a k d ∈ Set.uIcc 0 d := by
  obtain ⟨hup, hdown⟩ := halfUnits_bounds (d := d) ha ha'
  unfold roundedPart
  rcases le_total 0 d with hd | hd
  · have hhalf := hup hd
    rw [Set.uIcc_of_le hd]
    constructor <;> omega
  · have hhalf := hdown hd
    rw [Set.uIcc_of_ge hd]
    constructor <;> omega

/-- A value that is moved by a part of its distance from a target stays in every interval that
holds both. -/
theorem add_roundedPart_mem_Icc {lo hi x y : Int} (hx : x ∈ Set.Icc lo hi)
    (hy : y ∈ Set.Icc lo hi) : y + roundedPart a k (x - y) ∈ Set.Icc lo hi := by
  have hpart := roundedPart_mem_uIcc (d := x - y) ha ha'
  rcases le_total 0 (x - y) with hd | hd
  · rw [Set.uIcc_of_le hd] at hpart
    exact ⟨hy.1.trans (by linarith [hpart.1]), le_trans (by linarith [hpart.2]) hx.2⟩
  · rw [Set.uIcc_of_ge hd] at hpart
    exact ⟨hx.1.trans (by linarith [hpart.1]), le_trans (by linarith [hpart.2]) hy.2⟩

end Part

end Rounding
end WrpcSw
