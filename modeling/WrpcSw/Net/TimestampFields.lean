import WrpcSw.Net.Timestamp

/-!
# The fields of a linearized timestamp

Callers compare and subtract timestamps field by field, so the nanoseconds must stay
within their second.  The half period added for the falling edge may take them over its
end, which the last step of `ptpd_netif_linearize_rx_timestamp` takes care of; the
period taken off for a counter that is ahead may take them below its start, which
nothing does.

* `linearize_fields` — the result before the last step, on every path.
* `linearize_normalised_iff` — where the result is a normalised timestamp.
-/

namespace WrpcSw
namespace Net

open CInt

/-- The periods by which the nanoseconds move before the carry: in the first quarter
after the transition a counter that is not ahead is one behind, in the last quarter one
that is ahead is one too far. -/
def periodsMoved (P T x : Int) (ahead : Bool) : Int :=
  if 4 * fine P T x < P then (if ahead then 0 else 1)
  else if 3 * P < 4 * fine P T x then (if ahead then -1 else 0)
  else 0

theorem periodsMoved_cases (P T x : Int) (ahead : Bool) :
    (periodsMoved P T x ahead = -1 ∧ 3 * P < 4 * ((x - T) % P) ∧ ahead = true) ∨
      periodsMoved P T x ahead = 0 ∨ periodsMoved P T x ahead = 1 := by
  unfold periodsMoved
  by_cases hfirst : 4 * fine P T x < P
  · rw [if_pos hfirst]
    cases ahead with
    | true => exact Or.inr (Or.inl rfl)
    | false => exact Or.inr (Or.inr rfl)
  · rw [if_neg hfirst]
    by_cases hlast : 3 * P < 4 * fine P T x
    · rw [if_pos hlast]
      cases ahead with
      | true => exact Or.inl ⟨rfl, hlast, rfl⟩
      | false => exact Or.inr (Or.inl rfl)
    · rw [if_neg hlast]
      exact Or.inr (Or.inl rfl)

/-- The nanoseconds and the phase are in their ranges, and together with the seconds the
nanoseconds are those of `before`, moved by a number of periods. -/
structure Normalised (P moved : Int) (before after : WrTimestamp) : Prop where
  nsec_nonneg : 0 ≤ after.nsec
  nsec_lt : after.nsec < 1000000000
  phase_nonneg : 0 ≤ after.phase
  phase_lt : after.phase < P
  value : 1000000000 * after.sec + after.nsec =
    1000000000 * before.sec + before.nsec + P / 1000 * moved

/-- The nanoseconds of a counter of clock periods, within their second. -/
structure LatchedNsec (P nsec : Int) : Prop where
  nonneg : 0 ≤ nsec
  lt : nsec < 1000000000
  periods : P / 1000 ∣ nsec

section Fields

variable {P T x : Int} (hP : ClockPeriod P) (hT : 0 ≤ T ∧ T < P) (hx : 0 ≤ x ∧ x < P)
  {ts : WrTimestamp} (hnsec : LatchedNsec P ts.nsec) (ahead : Bool)

include hP hT hx hnsec

/-- Before the carry, on every path: the phase after the transition, and the nanoseconds
moved by whole periods. -/
theorem linearize_fields :
    ptpdNetifLinearizeRxTimestamp i32 ts x ahead T P =
      carrySecond i32
        { ts with
          rawPhase := x
          nsec := ts.nsec + P / 1000 * periodsMoved P T x ahead
          phase := fine P T x } := by
  have hPbound : 8000 ≤ P ∧ P ≤ 16000 ∧ 4 * (P / 4) = P ∧ 4 * (3 * P / 4) = 3 * P ∧
      2 * (P / 2) = P := by
    rcases hP with rfl | rfl <;> decide
  have hstep : 0 ≤ P / 1000 ∧ P / 1000 ≤ 16 := by
    rcases hP with rfl | rfl <;> decide
  have hfine := (coarse_fine (T := T) (x := x) hP).2
  have hlow := hnsec.nonneg
  have hhigh := hnsec.lt
  have hexact : ∀ y : Int, -64000 ≤ y → y ≤ 1000000016 → i32 y = y := fun y hl hh =>
    i32_eq_self (by unfold InI32; omega)
  obtain ⟨htwo, hfour, hthousand, hthree⟩ := clockPeriod_tdiv hP
  have hraw : x % P = x := Int.emod_eq_of_lt hx.1 hx.2
  have hrising := phaseR_exact (x := x) hP exactOn_i32 hT
  have hfalling := phaseF_exact (x := x) hP exactOn_i32 hT
  rw [hraw] at hrising hfalling
  simp only [ptpdNetifLinearizeRxTimestamp, hrising, hfalling, hexact (3 * P) (by omega)
    (by omega), htwo, hfour, hthousand, hthree]
  rw [hexact (ts.nsec - P / 1000) (by omega) (by omega)]
  unfold periodsMoved
  by_cases hfirst : 4 * fine P T x < P
  · -- the half period of the falling edge completes a whole one
    have hwrap : fine P T x + P / 2 + P / 2 = fine P T x + P := by omega
    have hhalf : 2 * fine P T x < P := by omega
    rw [if_pos (Or.inr (by omega)), if_pos hfirst, if_pos hhalf, hwrap,
      hexact (fine P T x + P) (by omega) (by omega), if_pos (by omega), add_sub_cancel_right,
      hexact (fine P T x) (by omega) (by omega)]
    cases ahead with
    | true =>
        rw [if_pos rfl, if_pos rfl, sub_add_cancel, hexact ts.nsec (by omega) (by omega),
          mul_zero, add_zero]
    | false =>
        rw [if_neg Bool.false_ne_true, if_neg Bool.false_ne_true,
          hexact (ts.nsec + P / 1000) (by omega) (by omega), mul_one]
  · by_cases hlast : 3 * P < 4 * fine P T x
    · have hhalf : ¬ 2 * fine P T x < P := by omega
      rw [if_pos (Or.inl (by omega)), if_neg hfirst, if_pos hlast, if_neg hhalf, sub_add_cancel,
        hexact (fine P T x) (by omega) (by omega), if_neg (by omega)]
      cases ahead with
      | true => rw [if_pos rfl, if_pos rfl, mul_neg_one, ← sub_eq_add_neg]
      | false =>
          rw [if_neg Bool.false_ne_true, if_neg Bool.false_ne_true, mul_zero, add_zero]
    · rw [if_neg (by omega), if_neg hfirst, if_neg hlast, mul_zero, add_zero]

end Fields

/-- The last step takes off a second where the nanoseconds have reached it, and leaves
negative ones as they are. -/
theorem carrySecond_fields (ts : WrTimestamp) (hlow : -16 ≤ ts.nsec)
    (hhigh : ts.nsec < 2000000000) :
    1000000000 * (carrySecond i32 ts).sec + (carrySecond i32 ts).nsec =
        1000000000 * ts.sec + ts.nsec ∧
      (carrySecond i32 ts).nsec < 1000000000 ∧
      (0 ≤ (carrySecond i32 ts).nsec ↔ 0 ≤ ts.nsec) ∧
      (carrySecond i32 ts).phase = ts.phase := by
  unfold carrySecond
  by_cases hlarge : ts.nsec ≥ 1000000000
  · rw [if_pos hlarge]
    dsimp only
    rw [i32_eq_self (by unfold InI32; omega)]
    refine ⟨by ring, by omega, by omega, rfl⟩
  · rw [if_neg hlarge]
    exact ⟨rfl, by omega, Iff.rfl, rfl⟩


/-- The linearized timestamp is normalised, except where the counter at the very start of
a second is said to be ahead in the last quarter of the period: there the nanoseconds
are left at minus one period. -/
theorem linearize_normalised_iff {P T x : Int} (hP : ClockPeriod P) (hT : 0 ≤ T ∧ T < P)
    (hx : 0 ≤ x ∧ x < P) {ts : WrTimestamp} (hnsec : LatchedNsec P ts.nsec) (ahead : Bool) :
    Normalised P (periodsMoved P T x ahead) ts
        (ptpdNetifLinearizeRxTimestamp i32 ts x ahead T P) ↔
      ¬ (ts.nsec = 0 ∧ ahead = true ∧ 3 * P < 4 * ((x - T) % P)) := by
  obtain ⟨hlow, hhigh, hperiods⟩ := hnsec
  have hstep : 8 ≤ P / 1000 ∧ P / 1000 ≤ 16 := by
    rcases hP with rfl | rfl <;> decide
  have hfine := (coarse_fine (T := T) (x := x) hP).2
  have hmoved := periodsMoved_cases P T x ahead
  have hrange : -16 ≤ P / 1000 * periodsMoved P T x ahead ∧
      P / 1000 * periodsMoved P T x ahead ≤ 16 := by
    rcases hmoved with ⟨h, -⟩ | h | h <;> rw [h] <;> omega
  rw [linearize_fields hP hT hx ⟨hlow, hhigh, hperiods⟩ ahead]
  obtain ⟨hvalue, hlt, hnonneg, hphase⟩ := carrySecond_fields
    { ts with
      rawPhase := x
      nsec := ts.nsec + P / 1000 * periodsMoved P T x ahead
      phase := fine P T x } (by dsimp only; omega) (by dsimp only; omega)
  dsimp only at hvalue hnonneg hphase
  constructor
  · rintro hnorm ⟨hzero, hahead, hlast⟩
    have hmoved' : periodsMoved P T x ahead = -1 := by
      unfold periodsMoved fine
      rw [if_neg (by omega), if_pos hlast, if_pos hahead]
    have := hnonneg.mp hnorm.nsec_nonneg
    rw [hmoved', hzero] at this
    omega
  · intro hsafe
    have hkeeps : 0 ≤ ts.nsec + P / 1000 * periodsMoved P T x ahead := by
      rcases hmoved with ⟨h, hlast, hahead⟩ | h | h
      · -- a latched counter that is not zero is at least one period
        have hpositive : ts.nsec ≠ 0 := fun hzero => hsafe ⟨hzero, hahead, hlast⟩
        have hle := Int.le_of_dvd (by omega) hperiods
        rw [h]
        omega
      · rw [h]
        omega
      · rw [h]
        omega
    rw [← hphase] at hfine
    exact ⟨hnonneg.mpr hkeeps, hlt, hfine.1, hfine.2, by rw [hvalue, add_assoc]⟩

/-- The start of a second in the middle of the period, with the counter ahead. -/
theorem linearize_normalised_iff_middle :
    Normalised 8000 (periodsMoved 8000 0 4000 true) { sec := 7 }
        (ptpdNetifLinearizeRxTimestamp i32 { sec := 7 } 4000 true 0 8000) ↔
      ¬ ((0 : Int) = 0 ∧ true = true ∧ (3 : Int) * 8000 < 4 * ((4000 - 0) % 8000)) :=
  linearize_normalised_iff (Or.inl rfl) ⟨by decide, by decide⟩ ⟨by decide, by decide⟩
    ⟨by decide, by decide, by decide⟩ true

/-- The rising-edge counter has just started a new second, the falling-edge one has not,
and the phase is near the end of the period: minus eight nanoseconds. -/
theorem linearize_negative :
    ¬ Normalised 8000 (periodsMoved 8000 0 7900 true) { sec := 7 }
      (ptpdNetifLinearizeRxTimestamp i32 { sec := 7 } 7900 true 0 8000) := by
  intro h
  have hnonneg := h.nsec_nonneg
  revert hnonneg
  decide
end Net
end WrpcSw
