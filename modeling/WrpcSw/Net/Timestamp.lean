import Mathlib.Tactic.NormNum
import WrpcSw.Lib.CInt

/-!
# RX timestamps (`lib/net.c`, `dev/minic.c`)

A received frame is tagged by two counters, one on each edge of the clock, and
by the phase of the incoming clock.  `ptpd_netif_linearize_rx_timestamp` merges
the three into one timestamp; near a transition of the rising-edge counter it
uses the falling-edge one.

The arithmetic of the function is that of `int`.  The model takes the conversion
`w` applied after each operation as an argument: `id` for exact integers, `i32`
for the machine.

* `linearize_exact` — whatever admissible counter value was latched, the exact
  timestamp is the arrival time, and the machine computes it.
* `cntrAhead_iff` — the flag that the receive path derives from the two counters.
-/

namespace WrpcSw
namespace Net

open CInt

/-- `wr_timestamp_t`. -/
structure WrTimestamp where
  sec : Int := 0
  nsec : Int := 0
  phase : Int := 0
  rawPhase : Int := 0
  rawNsec : Int := 0
  rawAhead : Int := 0
  correct : Int := 0
deriving DecidableEq, Repr

section Linearize

variable (w : Int → Int)

/-- The phase that jumps where the rising-edge counter changes (`phase_r`). -/
def phaseR (rawPhase transitionPoint clockPeriod : Int) : Int :=
  let phase := w (rawPhase - transitionPoint)
  if phase < 0 then w (phase + clockPeriod) else phase

/-- The phase that jumps where the falling-edge counter changes (`phase_f`). -/
def phaseF (rawPhase transitionPoint clockPeriod : Int) : Int :=
  let phase := w (w (rawPhase - transitionPoint) + clockPeriod.tdiv 2)
  let phase := if phase < 0 then w (phase + clockPeriod) else phase
  if phase ≥ clockPeriod then w (phase - clockPeriod) else phase

/-- The last step: the nanoseconds may have overflown into a second. -/
def carrySecond (ts : WrTimestamp) : WrTimestamp :=
  if ts.nsec ≥ 1000000000 then
    { ts with nsec := w (ts.nsec - 1000000000), sec := ts.sec + 1 }
  else ts

def ptpdNetifLinearizeRxTimestamp (ts : WrTimestamp) (dmtdPhase : Int) (cntrAhead : Bool)
    (transitionPoint clockPeriod : Int) : WrTimestamp :=
  let ts := { ts with rawPhase := dmtdPhase }
  let nsecR := ts.nsec
  let nsecF := if cntrAhead then w (ts.nsec - clockPeriod.tdiv 1000) else ts.nsec
  let phaseR := phaseR w ts.rawPhase transitionPoint clockPeriod
  let phaseF := phaseF w ts.rawPhase transitionPoint clockPeriod
  carrySecond w <|
    -- within 25 % of the transition of the rising-edge counter, pick the falling one
    if phaseR > (w (3 * clockPeriod)).tdiv 4 ∨ phaseR < clockPeriod.tdiv 4 then
      let phase := w (phaseF + clockPeriod.tdiv 2)
      if phase ≥ clockPeriod then
        { ts with phase := w (phase - clockPeriod), nsec := w (nsecF + clockPeriod.tdiv 1000) }
      else { ts with phase := phase, nsec := nsecF }
    else { ts with nsec := nsecR, phase := phaseR }

theorem carrySecond_rawPhase (ts : WrTimestamp) : (carrySecond w ts).rawPhase = ts.rawPhase := by
  unfold carrySecond
  split_ifs <;> rfl

/-- The phase reading is kept beside the result. -/
theorem linearize_rawPhase (ts : WrTimestamp) (dmtdPhase : Int) (cntrAhead : Bool)
    (transitionPoint clockPeriod : Int) :
    (ptpdNetifLinearizeRxTimestamp w ts dmtdPhase cntrAhead transitionPoint
      clockPeriod).rawPhase = dmtdPhase := by
  simp only [ptpdNetifLinearizeRxTimestamp, carrySecond_rawPhase]
  split_ifs <;> rfl

end Linearize

/-! ## The two counters -/

/-- The coarse time of the arrival: full periods since the transition point. -/
def coarse (P T x : Int) : Int := (x - T) / P

/-- The phase of the arrival after the transition point. -/
def fine (P T x : Int) : Int := (x - T) % P

/-- The falling-edge counter changes half a period after the rising-edge one. -/
def fallingCounter (P T x : Int) : Int :=
  if P ≤ 2 * fine P T x then coarse P T x else coarse P T x - 1

/-- The readings of the rising-edge counter that an arrival at `x` may latch: near
its transition the counter may be one behind or one ahead.  There, `ahead` tells
whether the reading is one ahead of the falling-edge counter. -/
structure AdmissibleReading (P T x r : Int) (ahead : Bool) : Prop where
  early : 4 * fine P T x < P → r = coarse P T x ∨ r = coarse P T x - 1
  middle : P ≤ 4 * fine P T x → 4 * fine P T x ≤ 3 * P → r = coarse P T x
  late : 3 * P < 4 * fine P T x → r = coarse P T x ∨ r = coarse P T x + 1
  ahead : 4 * fine P T x < P ∨ 3 * P < 4 * fine P T x →
    (ahead = true ↔ r = fallingCounter P T x + 1)

/-- The clock periods of the two boards. -/
def ClockPeriod (P : Int) : Prop := P = 8000 ∨ P = 16000

/-- The conversion `w` is exact on the range `R`, which holds the small values and
is closed under the carry. -/
structure ExactOn (w : Int → Int) (R : Int → Prop) : Prop where
  exact : ∀ y, R y → w y = y
  small : ∀ y, -64000 ≤ y → y ≤ 64000 → R y
  carry : ∀ y, R y → 1000000000 ≤ y → R (y - 1000000000)

theorem exactOn_id : ExactOn id fun _ => True :=
  ⟨fun _ _ => rfl, fun _ _ _ => trivial, fun _ _ _ => trivial⟩

theorem exactOn_i32 : ExactOn i32 InI32 where
  exact _ h := i32_eq_self h
  small _ hlow hhigh := ⟨by omega, by omega⟩
  carry _ h hlarge := ⟨by omega, by have := h.2; omega⟩

/-- The carry moves a second from the nanoseconds. -/
theorem carrySecond_value {w : Int → Int} {R : Int → Prop} (hw : ExactOn w R)
    (ts : WrTimestamp) (hrange : R ts.nsec) :
    1000 * (1000000000 * (carrySecond w ts).sec + (carrySecond w ts).nsec) +
        (carrySecond w ts).phase =
      1000 * (1000000000 * ts.sec + ts.nsec) + ts.phase ∧
    carrySecond w ts = carrySecond id ts := by
  unfold carrySecond
  by_cases hlarge : ts.nsec ≥ 1000000000
  · simp only [if_pos hlarge, id_eq, hw.exact _ (hw.carry _ hrange hlarge), and_true]
    ring
  · simp [if_neg hlarge]

section Exact

variable {P T x : Int} (hP : ClockPeriod P)

include hP

theorem clockPeriod_tdiv : P.tdiv 2 = P / 2 ∧ P.tdiv 4 = P / 4 ∧ P.tdiv 1000 = P / 1000 ∧
    (3 * P).tdiv 4 = 3 * P / 4 := by
  rcases hP with rfl | rfl <;> decide

/-- The coarse time and the phase make up the arrival time. -/
theorem coarse_fine : P * coarse P T x + fine P T x = x - T ∧
    0 ≤ fine P T x ∧ fine P T x < P := by
  rcases hP with rfl | rfl <;> simp only [coarse, fine] <;> omega

/-- Near its transition, the reading is the falling-edge counter or one ahead. -/
theorem reading_near {r : Int} {ahead : Bool} (hr : AdmissibleReading P T x r ahead)
    (hnear : 4 * fine P T x < P ∨ 3 * P < 4 * fine P T x) :
    r = fallingCounter P T x + if ahead then 1 else 0 := by
  have hphase := coarse_fine (T := T) (x := x) hP
  have hreading : r = fallingCounter P T x ∨ r = fallingCounter P T x + 1 := by
    unfold fallingCounter
    rcases hnear with hnear | hnear
    · have := hr.early hnear
      split_ifs <;> omega
    · have := hr.late hnear
      split_ifs <;> omega
  have hahead := hr.ahead hnear
  cases ahead with
  | true => simpa using hahead
  | false =>
      have hnot : ¬ r = fallingCounter P T x + 1 := fun h =>
        Bool.false_ne_true (hahead.mpr h)
      simpa [hnot] using hreading

variable {w : Int → Int} {R : Int → Prop} (hw : ExactOn w R)

include hw

/-- Near the transition, the falling-edge nanoseconds are those of its counter. -/
theorem nsecF_exact {r : Int} {ahead : Bool} (hr : AdmissibleReading P T x r ahead)
    (hnear : 4 * fine P T x < P ∨ 3 * P < 4 * fine P T x)
    (hprev : R (P / 1000 * (r - 1))) :
    (if ahead then w (P / 1000 * r - P / 1000) else P / 1000 * r) =
      P / 1000 * fallingCounter P T x := by
  have hreading := reading_near hP hr hnear
  cases ahead with
  | true =>
      have hstep : P / 1000 * r - P / 1000 = P / 1000 * (r - 1) := by ring
      rw [if_pos rfl, hstep, hw.exact _ hprev, hreading, if_pos rfl, add_sub_cancel_right]
  | false => rw [hreading]; simp

variable (hT : 0 ≤ T ∧ T < P)

include hT

/-- The phase for the rising edge is the phase after the transition. -/
theorem phaseR_exact : phaseR w (x % P) T P = fine P T x := by
  have hsmall : ∀ y : Int, -64000 ≤ y → y ≤ 64000 → w y = y := fun y hlow hhigh =>
    hw.exact y (hw.small y hlow hhigh)
  have hraw : 0 ≤ x % P ∧ x % P < P ∧ P ≤ 16000 := by
    rcases hP with rfl | rfl <;> omega
  simp only [phaseR]
  rw [hsmall (x % P - T) (by omega) (by omega), hsmall (x % P - T + P) (by omega) (by omega)]
  rcases hP with rfl | rfl <;> simp only [fine] <;> split_ifs <;> omega

/-- The phase for the falling edge is half a period later. -/
theorem phaseF_exact : phaseF w (x % P) T P =
    if 2 * fine P T x < P then fine P T x + P / 2 else fine P T x - P / 2 := by
  have hsmall : ∀ y : Int, -64000 ≤ y → y ≤ 64000 → w y = y := fun y hlow hhigh =>
    hw.exact y (hw.small y hlow hhigh)
  have hraw : 0 ≤ x % P ∧ x % P < P ∧ P ≤ 16000 := by
    rcases hP with rfl | rfl <;> omega
  simp only [phaseF, (clockPeriod_tdiv hP).1]
  rw [hsmall (x % P - T) (by omega) (by omega),
    hsmall (x % P - T + P / 2) (by omega) (by omega),
    hsmall (x % P - T + P / 2 + P) (by omega) (by omega)]
  by_cases hlow : x % P - T + P / 2 < 0
  · rw [if_pos hlow, if_neg (by omega)]
    rcases hP with rfl | rfl <;> simp only [fine] <;> split_ifs <;> omega
  · rw [if_neg hlow, hsmall (x % P - T + P / 2 - P) (by omega) (by omega)]
    rcases hP with rfl | rfl <;> simp only [fine] <;> split_ifs <;> omega

/-- Before the carry, the timestamp is the coarse time with the phase, whichever
counter was picked. -/
theorem linearize_value {r : Int} {ahead : Bool} (hr : AdmissibleReading P T x r ahead)
    (ts : WrTimestamp) (hnsec : ts.nsec = P / 1000 * r)
    (hprev : R (P / 1000 * (r - 1))) (hcurr : R (P / 1000 * r))
    (hnext : R (P / 1000 * (r + 1))) :
    ptpdNetifLinearizeRxTimestamp w ts (x % P) ahead T P =
      carrySecond w
        { ts with rawPhase := x % P, nsec := P / 1000 * coarse P T x, phase := fine P T x } := by
  have hsmall : ∀ y : Int, -64000 ≤ y → y ≤ 64000 → w y = y := fun y hlow hhigh =>
    hw.exact y (hw.small y hlow hhigh)
  have hphase := coarse_fine (T := T) (x := x) hP
  have hPbound : 8000 ≤ P ∧ P ≤ 16000 ∧ 4 * (P / 4) = P ∧ 4 * (3 * P / 4) = 3 * P ∧
      2 * (P / 2) = P := by
    rcases hP with rfl | rfl <;> decide
  obtain ⟨htwo, hfour, hthousand, hthree⟩ := clockPeriod_tdiv hP
  simp only [ptpdNetifLinearizeRxTimestamp, phaseR_exact hP hw hT, phaseF_exact hP hw hT,
    hsmall (3 * P) (by omega) (by omega), htwo, hfour, hthousand, hthree, hnsec]
  -- near a transition the falling counter is used, else the rising one
  by_cases hnear : 4 * fine P T x < P ∨ 3 * P < 4 * fine P T x
  · rw [if_pos (by omega), nsecF_exact hP hw hr hnear hprev]
    -- behind the transition the falling counter lags by one, which the phase makes up for
    by_cases hhalf : 2 * fine P T x < P
    · have hfalling : fallingCounter P T x = coarse P T x - 1 := if_neg (by omega)
      have hcarry : P / 1000 * (coarse P T x - 1) + P / 1000 = P / 1000 * coarse P T x := by
        ring
      have hrange : R (P / 1000 * coarse P T x) := by
        rcases hr.early (by omega) with h | h
        · rwa [← h]
        · rwa [h, sub_add_cancel] at hnext
      have hwrap : fine P T x + P / 2 + P / 2 = fine P T x + P := by omega
      rw [if_pos hhalf, hwrap, hsmall (fine P T x + P) (by omega) (by omega),
        if_pos (by omega), add_sub_cancel_right, hsmall (fine P T x) (by omega) (by omega),
        hfalling, hcarry, hw.exact _ hrange]
    · have hfalling : fallingCounter P T x = coarse P T x := if_pos (by omega)
      rw [if_neg hhalf, sub_add_cancel, hsmall (fine P T x) (by omega) (by omega),
        if_neg (by omega), hfalling]
  · have hreading : r = coarse P T x := hr.middle (by omega) (by omega)
    rw [if_neg (by omega), hreading]

end Exact

/-- The reading is within one period of the coarse time. -/
theorem AdmissibleReading.coarse_near {P T x r : Int} {ahead : Bool}
    (hr : AdmissibleReading P T x r ahead) :
    coarse P T x = r - 1 ∨ coarse P T x = r ∨ coarse P T x = r + 1 := by
  rcases lt_or_ge (4 * fine P T x) P with hearly | hearly
  · have := hr.early hearly
    omega
  rcases lt_or_ge (3 * P) (4 * fine P T x) with hlate | hlate
  · have := hr.late hlate
    omega
  · exact .inr (.inl (hr.middle hearly hlate).symm)

/-- The linearized timestamp is the arrival time, whichever admissible reading of
the counter was latched.  The machine computes it as long as the nanoseconds of
the neighbouring readings are representable. -/
theorem linearize_exact {P T x r : Int} {ahead : Bool} (hP : ClockPeriod P)
    (hT : 0 ≤ T ∧ T < P) (hr : AdmissibleReading P T x r ahead)
    (ts : WrTimestamp) (hnsec : ts.nsec = P / 1000 * r) :
    let out := ptpdNetifLinearizeRxTimestamp id ts (x % P) ahead T P
    1000 * (1000000000 * out.sec + out.nsec) + out.phase =
        1000 * 1000000000 * ts.sec + (x - T) ∧
      (InI32 (P / 1000 * (r - 1)) → InI32 (P / 1000 * (r + 1)) →
        ptpdNetifLinearizeRxTimestamp i32 ts (x % P) ahead T P = out) := by
  have hvalue := linearize_value hP exactOn_id hT hr ts hnsec trivial trivial trivial
  refine ⟨?_, fun hprev hnext => ?_⟩
  · have hsum := (coarse_fine (T := T) (x := x) hP).1
    have hthousand : P = 1000 * (P / 1000) := by rcases hP with rfl | rfl <;> decide
    have hperiods : P * coarse P T x = 1000 * (P / 1000 * coarse P T x) := by
      rw [← mul_assoc, ← hthousand]
    rw [hvalue, (carrySecond_value exactOn_id _ trivial).1, ← hsum, hperiods]
    ring
  · have hcurr : InI32 (P / 1000 * r) := by
      rcases hP with rfl | rfl <;> exact ⟨by have := hprev.1; omega, by have := hnext.2; omega⟩
    have hrange : InI32 (P / 1000 * coarse P T x) := by
      rcases hr.coarse_near with h | h | h <;> rwa [h]
    rw [hvalue, linearize_value hP exactOn_i32 hT hr ts hnsec hprev hcurr hnext]
    exact (carrySecond_value exactOn_i32 _ hrange).2

/-- A frame that arrives just before the transition while the rising-edge counter
already shows the next value. -/
theorem linearize_exact_late :
    let out := ptpdNetifLinearizeRxTimestamp id { sec := 5, nsec := 8 * 125000000 }
      (999999999900 % 8000) true 0 8000
    1000 * (1000000000 * out.sec + out.nsec) + out.phase =
        1000 * 1000000000 * 5 + (999999999900 - 0) ∧
      (InI32 (8000 / 1000 * (125000000 - 1)) → InI32 (8000 / 1000 * (125000000 + 1)) →
        ptpdNetifLinearizeRxTimestamp i32 { sec := 5, nsec := 8 * 125000000 }
          (999999999900 % 8000) true 0 8000 = out) :=
  linearize_exact (P := 8000) (T := 0) (x := 999999999900) (r := 125000000) (.inl rfl)
    ⟨by decide, by decide⟩
    ⟨fun h => absurd h (by decide), fun _ h => absurd h (by decide),
      fun _ => .inr (by decide), fun _ => by decide⟩
    { sec := 5, nsec := 8 * 125000000 } (by decide)

/-! ## The flag of the receive path -/

/-- The test of `minic_rx_frame` on the 28-bit counter of the rising edge and the
4-bit counter of the falling one. -/
def cntrAhead (counterR counterF : Int) : Bool :=
  let cntrDiff := counterR % 16 - counterF
  decide (cntrDiff = 1 ∨ cntrDiff = -15)

/-- Four bits of the falling-edge counter tell a reading that is one ahead of it
from one that is not. -/
theorem cntrAhead_iff {r f : Int} (hnear : r = f ∨ r = f + 1) :
    cntrAhead r (f % 16) = true ↔ r = f + 1 := by
  unfold cntrAhead
  rw [decide_eq_true_iff]
  omega

end Net
end WrpcSw
