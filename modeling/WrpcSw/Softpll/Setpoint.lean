import WrpcSw.Softpll.SoftpllNg

/-!
# Reading back the phase setpoint

A setpoint in picoseconds is converted to units of the phase shifter, rounded towards
zero, and halved with the same rounding where the clocks are divided by two.  The way
back doubles it and rounds down.  The servo compares what it reads with what it has set.

* `reported_nonneg`, `reported_neg` — the two conversions as divisions of the amount.
* `setpoint_round_trip` — what is read is within one picosecond of what was set, and
  keeps the order, for both boards and every channel.
-/

namespace WrpcSw
namespace Softpll

open CInt

def toPicos (board : Board) (units : Int) : Int :=
  i32 ((units * board.clockPeriodPicoseconds) >>> hpllN)

/-- The divider of the DMTD clocks. -/
def dmtdDiv (board : Board) : Int := if board.divideDmtdClocksBy2 then 2 else 1

/-- The current phase shift and the target of a channel. -/
def spllGetPhaseShift (board : Board) (s : SoftpllState) (channel : Nat) : Int × Int :=
  let st := if channel = 0 then s.mpll else (s.aux (channel - 1)).dmtd
  (toPicos board (i32 (st.phaseShiftCurrent * dmtdDiv board)),
    toPicos board (i32 (st.phaseShiftTarget * dmtdDiv board)))

/-- The two supported boards. -/
def Supported (board : Board) : Prop := board = Board.wrc ∨ board = Board.wrs

/-- The target that is read after `v` has been set. -/
def reported (board : Board) (v : Int) : Int :=
  toPicos board (i32 (shiftUnits board v * dmtdDiv board))

/-- What is read is what was set on the channel. -/
theorem spllGetPhaseShift_set (board : Board) (s : SoftpllState) (channel : Nat) (v : Int) :
    (spllGetPhaseShift board (spllSetPhaseShift board s (.one channel) v) channel).2 =
      reported board v := by
  unfold spllGetPhaseShift spllSetPhaseShift setPhaseShift reported
  by_cases hmain : channel = 0
  · simp only [hmain, if_true, mpllSetPhaseShift]
  · simp only [hmain, if_false, setDmtd, Function.update_self, mpllSetPhaseShift]

section Conversion

variable {v : Int}

/-- The conversion to units rounds towards zero: it is one division of the amount by the
period, and one by the divider. -/
theorem shiftUnits_nonneg (hnonneg : 0 ≤ v) (hv : v ≤ 1000000000) :
    shiftUnits Board.wrc v = v * 16384 / 8000 / 2 ∧
      shiftUnits Board.wrs v = v * 16384 / 16000 := by
  unfold shiftUnits fromPicos
  simp only [Board.wrc, Board.wrs, hpllN, if_true, Bool.false_eq_true, if_false, Int.tdiv_one]
  have hproduct : (0 : Int) ≤ v * 2 ^ 14 := by omega
  rw [Int.tdiv_eq_ediv_of_nonneg hproduct, Int.tdiv_eq_ediv_of_nonneg hproduct,
    i32_eq_self (by unfold InI32; omega), i32_eq_self (by unfold InI32; omega),
    Int.tdiv_eq_ediv_of_nonneg (by omega)]
  exact ⟨rfl, rfl⟩

/-- The units of the opposite setpoint are the opposite ones. -/
theorem shiftUnits_neg {board : Board} (hboard : Supported board) (hnonneg : 0 ≤ v)
    (hv : v ≤ 1000000000) : shiftUnits board (-v) = -shiftUnits board v := by
  have hproduct : (0 : Int) ≤ v * 2 ^ 14 := by omega
  have hfits : InI32 ((v * 2 ^ hpllN).tdiv board.clockPeriodPicoseconds) ∧
      InI32 (-(v * 2 ^ hpllN).tdiv board.clockPeriodPicoseconds) := by
    rcases hboard with rfl | rfl <;>
      simp only [Board.wrc, Board.wrs, hpllN, Int.tdiv_eq_ediv_of_nonneg hproduct] <;>
      unfold InI32 <;> omega
  unfold shiftUnits fromPicos
  rw [neg_mul, Int.neg_tdiv, i32_eq_self hfits.1, i32_eq_self hfits.2, Int.neg_tdiv]

/-- What is read back of a setpoint that is not negative. -/
theorem reported_nonneg (hnonneg : 0 ≤ v) (hv : v ≤ 1000000000) :
    reported Board.wrc v = 16000 * (v * 16384 / 8000 / 2) / 16384 ∧
      reported Board.wrs v = 16000 * (v * 16384 / 16000) / 16384 := by
  obtain ⟨hwrc, hwrs⟩ := shiftUnits_nonneg hnonneg hv
  unfold reported toPicos
  rw [hwrc, hwrs]
  simp only [Board.wrc, Board.wrs, dmtdDiv, hpllN, if_true, Bool.false_eq_true, if_false,
    Int.shiftRight_eq_div_pow]
  constructor
  · rw [i32_eq_self (x := v * 16384 / 8000 / 2 * 2) (by unfold InI32; omega),
      i32_eq_self (by unfold InI32; omega)]
    omega
  · rw [i32_eq_self (x := v * 16384 / 16000 * 1) (by unfold InI32; omega),
      i32_eq_self (by unfold InI32; omega)]
    omega

/-- What is read back of its opposite: the last division rounds down, not towards zero. -/
theorem reported_neg (hneg : 0 ≤ v) (hv : v ≤ 1000000000) :
    reported Board.wrc (-v) = -(16000 * (v * 16384 / 8000 / 2)) / 16384 ∧
      reported Board.wrs (-v) = -(16000 * (v * 16384 / 16000)) / 16384 := by
  obtain ⟨hwrc, hwrs⟩ := shiftUnits_nonneg hneg hv
  unfold reported toPicos
  rw [shiftUnits_neg (Or.inl rfl) hneg hv, shiftUnits_neg (Or.inr rfl) hneg hv, hwrc, hwrs]
  simp only [Board.wrc, Board.wrs, dmtdDiv, hpllN, if_true, Bool.false_eq_true, if_false,
    Int.shiftRight_eq_div_pow]
  constructor
  · rw [i32_eq_self (x := -(v * 16384 / 8000 / 2) * 2) (by unfold InI32; omega),
      i32_eq_self (by unfold InI32; omega)]
    omega
  · rw [i32_eq_self (x := -(v * 16384 / 16000) * 1) (by unfold InI32; omega),
      i32_eq_self (by unfold InI32; omega)]
    omega

/-- A setpoint is not negative, or the opposite of one that is not. -/
theorem setpoint_cases (hv : |v| ≤ 1000000000) :
    (0 ≤ v ∧ v ≤ 1000000000) ∨ ∃ w, v = -w ∧ 0 < w ∧ w ≤ 1000000000 := by
  obtain ⟨hlow, hhigh⟩ := abs_le.mp hv
  rcases le_or_gt 0 v with hnonneg | hneg
  · exact Or.inl ⟨hnonneg, hhigh⟩
  · exact Or.inr ⟨-v, by omega, by omega, by omega⟩

/-- What is read is within one picosecond of what was set. -/
theorem reported_near {board : Board} (hboard : Supported board) (hv : |v| ≤ 1000000000) :
    |reported board v - v| ≤ 1 := by
  rw [abs_le]
  rcases setpoint_cases hv with ⟨hnonneg, hhigh⟩ | ⟨w, rfl, hpos, hhigh⟩
  · obtain ⟨hwrc, hwrs⟩ := reported_nonneg hnonneg hhigh
    rcases hboard with rfl | rfl
    · rw [hwrc]
      omega
    · rw [hwrs]
      omega
  · obtain ⟨hwrc, hwrs⟩ := reported_neg hpos.le hhigh
    rcases hboard with rfl | rfl
    · rw [hwrc]
      omega
    · rw [hwrs]
      omega

/-- A larger amount has at least as many units. -/
theorem units_mono {u v : Int} (huv : u ≤ v) :
    u * 16384 / 8000 / 2 ≤ v * 16384 / 8000 / 2 ∧ u * 16384 / 16000 ≤ v * 16384 / 16000 := by
  have hproduct : u * 16384 ≤ v * 16384 := by omega
  constructor
  · exact Int.ediv_le_ediv (by decide) (Int.ediv_le_ediv (by decide) hproduct)
  · exact Int.ediv_le_ediv (by decide) hproduct

/-- A larger setpoint is not read as a smaller one. -/
theorem reported_mono {board : Board} (hboard : Supported board) {u v : Int}
    (hu : |u| ≤ 1000000000) (hv : |v| ≤ 1000000000) (huv : u ≤ v) :
    reported board u ≤ reported board v := by
  rcases setpoint_cases hu with ⟨hnonneg, hhigh⟩ | ⟨w, rfl, hpos, hhigh⟩
  · obtain ⟨hwrc, hwrs⟩ := reported_nonneg hnonneg hhigh
    obtain ⟨hwrc', hwrs'⟩ := reported_nonneg (hnonneg.trans huv) (le_of_abs_le hv)
    obtain ⟨hhalved, hplain⟩ := units_mono huv
    rcases hboard with rfl | rfl
    · rw [hwrc, hwrc']
      exact Int.ediv_le_ediv (by decide) (by omega)
    · rw [hwrs, hwrs']
      exact Int.ediv_le_ediv (by decide) (by omega)
  · obtain ⟨hwrc, hwrs⟩ := reported_neg hpos.le hhigh
    rcases setpoint_cases hv with ⟨hnonneg, hhigh'⟩ | ⟨z, rfl, hpos', hhigh'⟩
    · -- zero is in between
      obtain ⟨hwrc', hwrs'⟩ := reported_nonneg hnonneg hhigh'
      rcases hboard with rfl | rfl
      · rw [hwrc, hwrc']
        exact Int.ediv_le_ediv (by decide) (by omega)
      · rw [hwrs, hwrs']
        exact Int.ediv_le_ediv (by decide) (by omega)
    · obtain ⟨hwrc', hwrs'⟩ := reported_neg hpos'.le hhigh'
      obtain ⟨hhalved, hplain⟩ := units_mono (show z ≤ w by omega)
      rcases hboard with rfl | rfl
      · rw [hwrc, hwrc']
        exact Int.ediv_le_ediv (by decide) (by omega)
      · rw [hwrs, hwrs']
        exact Int.ediv_le_ediv (by decide) (by omega)

end Conversion

/-- For both boards, every channel and every setpoint of up to a millisecond: the target
that is read is within one picosecond of the one that was set, and a larger setpoint is not
read as a smaller one. -/
theorem setpoint_round_trip (board : Board) (hboard : Supported board) (channel : Nat) :
    (∀ (s : SoftpllState) (v : Int), |v| ≤ 1000000000 →
      |(spllGetPhaseShift board (spllSetPhaseShift board s (.one channel) v) channel).2 - v| ≤
        1) ∧
    ∀ (s t : SoftpllState) (u v : Int), |u| ≤ 1000000000 → |v| ≤ 1000000000 → u ≤ v →
      (spllGetPhaseShift board (spllSetPhaseShift board s (.one channel) u) channel).2 ≤
        (spllGetPhaseShift board (spllSetPhaseShift board t (.one channel) v) channel).2 := by
  constructor
  · intro s v hv
    rw [spllGetPhaseShift_set]
    exact reported_near hboard hv
  · intro s t u v hu hv huv
    rw [spllGetPhaseShift_set, spllGetPhaseShift_set]
    exact reported_mono hboard hu hv huv

/-- An odd number of units, with the clocks divided by two. -/
theorem setpoint_round_trip_odd :
    |(spllGetPhaseShift Board.wrc (spllSetPhaseShift Board.wrc powerUp (.one 0) 2500) 0).2 -
        2500| ≤ 1 :=
  (setpoint_round_trip Board.wrc (Or.inl rfl) 0).1 powerUp 2500 (by decide)

end Softpll
end WrpcSw
