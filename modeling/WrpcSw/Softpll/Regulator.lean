import WrpcSw.Lib.Run
import WrpcSw.Softpll.Helper

/-!
# Anti-windup of the PI regulator

`pi_update` adds every sample to the integrator, clamps its output, and keeps the
old integrator when the output is already out of range and the sample pushes it
further out.  Over the exact integers this bounds the integral term by the range
of the actuator, whatever the samples are: the new integral term lies between the
old one and the sum that was clamped, and the branch that takes it is one where
the nearer of the two is inside.

The firmware computes in 32-bit integers.  Wherever the sums of one sample fit,
the wrapping regulator is the exact one, so a bound on the exact integrator is an
overflow argument for runs of any length.  The helper PLL clamps its error before
the regulator sees it; for its constants every sum fits.
-/

namespace WrpcSw
namespace Softpll

open CInt Run

/-- `pi_update` behind its sums: the clamp of the output `y`, and whether the
integrator takes the value `iNew`. -/
def piSettle (pi : SpllPi) (x iNew y : Int) : SpllPi × Int :=
  if y < pi.yMin then
    let moves := (pi.antiWindup && decide (iNew > pi.integrator)) || !pi.antiWindup
    ({ pi with
        x := x
        y := pi.yMin
        integrator := if moves then iNew else pi.integrator }, pi.yMin)
  else if y > pi.yMax then
    let moves := (pi.antiWindup && decide (iNew < pi.integrator)) || !pi.antiWindup
    ({ pi with
        x := x
        y := pi.yMax
        integrator := if moves then iNew else pi.integrator }, pi.yMax)
  else
    ({ pi with x := x, y := y, integrator := iNew }, y)

/-- The proportional and the integral term of one sample. -/
def piTerms (pi : SpllPi) (x : Int) : Int :=
  (pi.integrator + x) * pi.ki + x * pi.kp

/-- The output before the clamp. -/
def piOutput (pi : SpllPi) (x : Int) : Int :=
  piTerms pi x >>> piFracbits + pi.bias

/-- `pi_update` in exact integers. -/
def piUpdateExact (pi : SpllPi) (x : Int) : SpllPi × Int :=
  piSettle pi x (pi.integrator + x) (piOutput pi x)

/-- The exact results of the operations of one sample: `i_new`, the two products,
their sum and the output before the clamp. -/
def piSums (pi : SpllPi) (x : Int) : List Int :=
  [pi.integrator + x,
    (pi.integrator + x) * pi.ki,
    x * pi.kp,
    piTerms pi x,
    piOutput pi x]

/-- Where no operation overflows, the wrapping regulator is the exact one. -/
theorem piUpdate_eq_exact {pi : SpllPi} {x : Int} (hfits : ∀ v ∈ piSums pi x, InI32 v) :
    piUpdate pi x = piUpdateExact pi x := by
  simp only [piSums, List.forall_mem_cons] at hfits
  obtain ⟨hnew, hintegral, hproportional, hterms, houtput, -⟩ := hfits
  have hwrapped : piUpdate pi x = piSettle pi x (i32 (pi.integrator + x))
      (i32 (i32 (i32 (i32 (pi.integrator + x) * pi.ki) + i32 (x * pi.kp)) >>> piFracbits +
        pi.bias)) := rfl
  rw [hwrapped, i32_eq_self hnew, i32_eq_self hintegral, i32_eq_self hproportional]
  unfold piOutput piTerms at houtput
  unfold piTerms at hterms
  rw [i32_eq_self hterms, i32_eq_self houtput]
  rfl

/-! ## One sample -/

/-- Two regulators run with the same settings. -/
def SpllPi.SameSettings (a b : SpllPi) : Prop :=
  a.ki = b.ki ∧ a.kp = b.kp ∧ a.bias = b.bias ∧ a.antiWindup = b.antiWindup ∧
    a.yMin = b.yMin ∧ a.yMax = b.yMax

theorem SpllPi.SameSettings.trans {a b c : SpllPi} (hab : a.SameSettings b)
    (hbc : b.SameSettings c) : a.SameSettings c := by
  obtain ⟨hki, hkp, hbias, haw, hmin, hmax⟩ := hab
  obtain ⟨hki', hkp', hbias', haw', hmin', hmax'⟩ := hbc
  exact ⟨hki.trans hki', hkp.trans hkp', hbias.trans hbias', haw.trans haw', hmin.trans hmin',
    hmax.trans hmax'⟩

/-- No sample changes the settings. -/
theorem piSettle_settings (pi : SpllPi) (x iNew y : Int) :
    (piSettle pi x iNew y).1.SameSettings pi := by
  unfold piSettle
  dsimp only
  split_ifs <;> exact ⟨rfl, rfl, rfl, rfl, rfl, rfl⟩

theorem piUpdateExact_settings (pi : SpllPi) (x : Int) :
    (piUpdateExact pi x).1.SameSettings pi :=
  piSettle_settings pi x _ _

/-- The settings of a regulator that cannot wind up: the bias is inside the range of
the actuator, and no gain is negative. -/
structure SpllPi.NoWindup (pi : SpllPi) : Prop where
  antiWindup : pi.antiWindup = true
  ki_nonneg : 0 ≤ pi.ki
  kp_nonneg : 0 ≤ pi.kp
  yMin_le : pi.yMin ≤ pi.bias
  le_yMax : pi.bias ≤ pi.yMax

theorem SpllPi.NoWindup.congr {a b : SpllPi} (hb : b.NoWindup) (h : a.SameSettings b) :
    a.NoWindup := by
  obtain ⟨hki, hkp, hbias, haw, hmin, hmax⟩ := h
  constructor
  · rw [haw]
    exact hb.antiWindup
  · rw [hki]
    exact hb.ki_nonneg
  · rw [hkp]
    exact hb.kp_nonneg
  · rw [hmin, hbias]
    exact hb.yMin_le
  · rw [hbias, hmax]
    exact hb.le_yMax

/-- The integral term is one that the actuator can still follow. -/
def SpllPi.IntegratorBounded (pi : SpllPi) : Prop :=
  (pi.yMin - pi.bias) * 2 ^ piFracbits ≤ pi.ki * pi.integrator ∧
    pi.ki * pi.integrator ≤ (pi.yMax - pi.bias + 1) * 2 ^ piFracbits - 1

section Sample

variable {pi : SpllPi}

/-- The clamped output is in the range of the actuator. -/
theorem piSettle_output (hrange : pi.yMin ≤ pi.yMax) (x iNew y : Int) :
    pi.yMin ≤ (piSettle pi x iNew y).2 ∧ (piSettle pi x iNew y).2 ≤ pi.yMax := by
  unfold piSettle
  split_ifs with hlow hhigh
  · exact ⟨le_refl _, hrange⟩
  · exact ⟨hrange, le_refl _⟩
  · exact ⟨not_lt.mp hlow, not_lt.mp hhigh⟩

/-- So is that of the wrapping regulator, whatever the sample. -/
theorem piUpdate_output (hrange : pi.yMin ≤ pi.yMax) (x : Int) :
    pi.yMin ≤ (piUpdate pi x).2 ∧ (piUpdate pi x).2 ≤ pi.yMax :=
  piSettle_output hrange x _ _

/-- What one sample can do to the integrator: nothing, or take the sample, and then the
output is in range or the sample pulls it back. -/
theorem piUpdateExact_integrator (hno : pi.NoWindup) (x : Int) :
    (piUpdateExact pi x).1.integrator = pi.integrator ∨
      ((piUpdateExact pi x).1.integrator = pi.integrator + x ∧
        (piOutput pi x < pi.yMin → 0 < x) ∧ (pi.yMax < piOutput pi x → x < 0)) := by
  unfold piUpdateExact piSettle
  simp only [hno.antiWindup, Bool.true_and, Bool.not_true, Bool.or_false, decide_eq_true_eq]
  have hrange := hno.yMin_le.trans hno.le_yMax
  split_ifs with hlow hinward hhigh hinward
  · right
    refine ⟨rfl, ?_, ?_⟩
    · intro _
      omega
    · intro habove
      omega
  · exact Or.inl rfl
  · right
    refine ⟨rfl, ?_, ?_⟩
    · intro hbelow
      omega
    · intro _
      omega
  · exact Or.inl rfl
  · right
    refine ⟨rfl, ?_, ?_⟩
    · intro hbelow
      exact absurd hbelow hlow
    · intro habove
      exact absurd habove hhigh

/-- The new integral term lies between the old one and the sum of the two terms, on the
side the sign of the sample tells. -/
theorem integral_between (hno : pi.NoWindup) (x : Int) :
    (0 ≤ x → pi.ki * pi.integrator ≤ pi.ki * (pi.integrator + x) ∧
      pi.ki * (pi.integrator + x) ≤ piTerms pi x) ∧
    (x ≤ 0 → piTerms pi x ≤ pi.ki * (pi.integrator + x) ∧
      pi.ki * (pi.integrator + x) ≤ pi.ki * pi.integrator) := by
  have hsum : piTerms pi x = pi.ki * (pi.integrator + x) + x * pi.kp := by
    unfold piTerms
    ring
  have hnew : pi.ki * (pi.integrator + x) = pi.ki * pi.integrator + x * pi.ki := by ring
  constructor
  · intro hx
    have hintegral := mul_nonneg hx hno.ki_nonneg
    have hproportional := mul_nonneg hx hno.kp_nonneg
    omega
  · intro hx
    have hintegral := mul_nonpos_of_nonpos_of_nonneg hx hno.ki_nonneg
    have hproportional := mul_nonpos_of_nonpos_of_nonneg hx hno.kp_nonneg
    omega

/-- The output before the clamp is in the range exactly when the sum of the terms is. -/
theorem piOutput_bounds (pi : SpllPi) (x : Int) :
    (pi.yMin ≤ piOutput pi x ↔ (pi.yMin - pi.bias) * 2 ^ piFracbits ≤ piTerms pi x) ∧
      (piOutput pi x ≤ pi.yMax ↔
        piTerms pi x ≤ (pi.yMax - pi.bias + 1) * 2 ^ piFracbits - 1) := by
  unfold piOutput
  rw [Int.shiftRight_eq_div_pow]
  simp only [piFracbits]
  constructor
  · constructor <;> intro h <;> omega
  · constructor <;> intro h <;> omega

/-- One sample keeps the integral term bounded. -/
theorem piUpdateExact_bounded (hno : pi.NoWindup) (hbounded : pi.IntegratorBounded) (x : Int) :
    (piUpdateExact pi x).1.IntegratorBounded := by
  obtain ⟨hlow, hhigh⟩ := hbounded
  obtain ⟨hki, -, hbias, -, hmin, hmax⟩ := piUpdateExact_settings pi x
  obtain ⟨houtLow, houtHigh⟩ := piOutput_bounds pi x
  obtain ⟨hup, hdown⟩ := integral_between hno x
  have hspan : (pi.yMin - pi.bias) * 2 ^ piFracbits ≤ 0 ∧
      0 ≤ (pi.yMax - pi.bias + 1) * 2 ^ piFracbits - 1 := by
    have hbelow := hno.yMin_le
    have habove := hno.le_yMax
    simp only [piFracbits]
    omega
  unfold SpllPi.IntegratorBounded
  rw [hki, hbias, hmin, hmax]
  rcases piUpdateExact_integrator hno x with hstays | ⟨hmoves, hfromLow, hfromHigh⟩
  · rw [hstays]
    exact ⟨hlow, hhigh⟩
  · rw [hmoves]
    rcases le_or_gt 0 x with hx | hx
    · -- upwards: the old term bounds it from below, the sum from above
      have hinside : piOutput pi x ≤ pi.yMax := not_lt.mp fun h => absurd (hfromHigh h) (by omega)
      exact ⟨hlow.trans (hup hx).1, (hup hx).2.trans (houtHigh.mp hinside)⟩
    · have hinside : pi.yMin ≤ piOutput pi x := not_lt.mp fun h => absurd (hfromLow h) (by omega)
      exact ⟨(houtLow.mp hinside).trans (hdown hx.le).1, (hdown hx.le).2.trans hhigh⟩

end Sample

/-! ## Runs -/

/-- One sample, the state alone. -/
def piStep (pi : SpllPi) (x : Int) : SpllPi := (piUpdate pi x).1

/-- One sample in exact integers, the state alone. -/
def piStepExact (pi : SpllPi) (x : Int) : SpllPi := (piUpdateExact pi x).1

/-- The regulator still has its settings, and its integrator is bounded. -/
def SpllPi.Regulates (settings pi : SpllPi) : Prop :=
  pi.SameSettings settings ∧ pi.IntegratorBounded

theorem piStepExact_regulates {settings pi : SpllPi} (hno : settings.NoWindup)
    (h : settings.Regulates pi) (x : Int) : settings.Regulates (piStepExact pi x) := by
  obtain ⟨hset, hbounded⟩ := h
  constructor
  · exact (piUpdateExact_settings pi x).trans hset
  · exact piUpdateExact_bounded (hno.congr hset) hbounded x

/-- The wrapping regulator is as good as the exact one where the sample fits. -/
theorem piStep_regulates {settings pi : SpllPi} (hno : settings.NoWindup)
    (h : settings.Regulates pi) {x : Int} (hfits : ∀ v ∈ piSums pi x, InI32 v) :
    settings.Regulates (piStep pi x) := by
  unfold piStep
  rw [piUpdate_eq_exact hfits]
  exact piStepExact_regulates hno h x

/-- `pi_init` empties the integrator, and nothing is inside every range. -/
theorem piInit_regulates {pi : SpllPi} (hno : pi.NoWindup) : pi.Regulates (piInit pi) := by
  have hbelow := hno.yMin_le
  have habove := hno.le_yMax
  refine ⟨⟨rfl, rfl, rfl, rfl, rfl, rfl⟩, ?_, ?_⟩
  · show (pi.yMin - pi.bias) * 2 ^ piFracbits ≤ pi.ki * 0
    simp only [piFracbits]
    omega
  · show pi.ki * 0 ≤ (pi.yMax - pi.bias + 1) * 2 ^ piFracbits - 1
    simp only [piFracbits]
    omega

/-! ## The helper PLL -/

/-- The settings of the regulator of a started helper PLL. -/
def helperPi : SpllPi where
  ki := 2
  kp := 150
  bias := 65531
  antiWindup := true
  yMin := 5
  yMax := 65531

theorem helperPi_noWindup : helperPi.NoWindup :=
  ⟨rfl, by decide, by decide, by decide, by decide⟩

theorem helperStart_regulates (nChanRef : Nat) (s : SpllHelperState) (refChannel : Int)
    (regs : SpllWB) :
    helperPi.Regulates (helperStart nChanRef (helperInit s refChannel) regs).1.pi := by
  constructor
  · exact ⟨rfl, rfl, rfl, rfl, rfl, rfl⟩
  · exact (piInit_regulates (helperPi_noWindup.congr ⟨rfl, rfl, rfl, rfl, rfl, rfl⟩)).2

theorem abs_helperClamp_le (err : Int) : |helperClamp err| ≤ helperErrorClamp := by
  unfold helperClamp helperErrorClamp
  dsimp only
  rw [abs_le]
  split_ifs <;> omega

/-- With the constants of the helper PLL and a clamped error, no operation of a sample
overflows. -/
theorem helperSums_inI32 {pi : SpllPi} (h : helperPi.Regulates pi) {x : Int}
    (hx : |x| ≤ helperErrorClamp) : ∀ v ∈ piSums pi x, InI32 v := by
  obtain ⟨⟨hki, hkp, hbias, -, hmin, hmax⟩, hlow, hhigh⟩ := h
  obtain ⟨hxLow, hxHigh⟩ := abs_le.mp hx
  have hterms : piTerms pi x = 2 * pi.integrator + 152 * x := by
    unfold piTerms
    rw [hki, hkp]
    simp only [helperPi]
    ring
  rw [hki, hbias, hmin] at hlow
  rw [hki, hbias, hmax] at hhigh
  simp only [piSums, List.forall_mem_cons, piOutput, Int.shiftRight_eq_div_pow, hterms, hki, hkp,
    hbias]
  simp only [helperPi, piFracbits, helperErrorClamp, InI32] at *
  refine ⟨?_, ?_, ?_, ?_, ?_, by simp⟩ <;> omega

/-- The helper regulator is the exact one as long as its samples are clamped. -/
theorem helperPi_step {pi : SpllPi} (h : helperPi.Regulates pi) {x : Int}
    (hx : |x| ≤ helperErrorClamp) :
    (∀ v ∈ piSums pi x, InI32 v) ∧ piUpdate pi x = piUpdateExact pi x ∧
      helperPi.Regulates (piStep pi x) := by
  have hfits := helperSums_inI32 h hx
  exact ⟨hfits, piUpdate_eq_exact hfits, piStep_regulates helperPi_noWindup h hfits⟩

/-- A tag gives the helper regulator one clamped sample, or none. -/
theorem helperUpdate_clamped (s : SpllHelperState) (tag source : Int) :
    (helperUpdate s tag source).1.pi = s.pi ∨
      (helperUpdate s tag source).1.pi =
        piStep s.pi (helperClamp (helperError (helperUnwrap s tag) tag)) := by
  unfold helperUpdate
  split
  · split
    · exact Or.inl rfl
    · exact Or.inr rfl
  · exact Or.inl rfl

/-- One tag, the state alone. -/
def helperStep (s : SpllHelperState) (e : Int × Int) : SpllHelperState :=
  (helperUpdate s e.1 e.2).1

/-- The regulator of the helper PLL keeps its bound with every tag. -/
theorem helperStep_regulates (s : SpllHelperState) (e : Int × Int)
    (h : helperPi.Regulates s.pi) : helperPi.Regulates (helperStep s e).pi := by
  unfold helperStep
  rcases helperUpdate_clamped s e.1 e.2 with hstays | hsample
  · rw [hstays]
    exact h
  · rw [hsample]
    exact (helperPi_step h (abs_helperClamp_le _)).2.2

/-- The anti-windup bound, over every run of the exact regulator from `pi_init`: each
output is in the range of the actuator and each integral term in the range the actuator
can follow.  For the constants of the helper PLL and clamped samples, and so for the
helper PLL whatever its tags are, no operation of a sample overflows, and the wrapping
regulator is the exact one. -/
theorem pi_antiWindup {pi : SpllPi} (hno : pi.NoWindup) (xs : List Int) (x : Int) :
    (let s := run piStepExact (piInit pi) xs;
      pi.yMin ≤ (piUpdateExact s x).2 ∧ (piUpdateExact s x).2 ≤ pi.yMax ∧
        (pi.yMin - pi.bias) * 2 ^ piFracbits ≤ pi.ki * (piUpdateExact s x).1.integrator ∧
        pi.ki * (piUpdateExact s x).1.integrator ≤
          (pi.yMax - pi.bias + 1) * 2 ^ piFracbits - 1) ∧
    (∀ (nChanRef : Nat) (h : SpllHelperState) (refChannel : Int) (regs : SpllWB),
      let start := (helperStart nChanRef (helperInit h refChannel) regs).1;
      (∀ ys : List Int, (∀ y ∈ ys, |y| ≤ helperErrorClamp) →
        Along piStep
          (fun p y => (∀ v ∈ piSums p y, InI32 v) ∧ piUpdate p y = piUpdateExact p y)
          start.pi ys) ∧
      (∀ tags : List (Int × Int),
        Along helperStep
          (fun s e => ∀ v ∈ piSums s.pi (helperClamp (helperError (helperUnwrap s e.1) e.1)),
            InI32 v)
          start tags)) := by
  refine ⟨?_, ?_⟩
  · intro s
    have hs : pi.Regulates s :=
      run_invariant pi.Regulates (fun p y hp => piStepExact_regulates hno hp y)
        (piInit_regulates hno) xs
    obtain ⟨⟨hki, -, hbias, -, hmin, hmax⟩, hlow, hhigh⟩ := piStepExact_regulates hno hs x
    obtain ⟨-, -, -, -, hmin', hmax'⟩ := hs.1
    have hrange : s.yMin ≤ s.yMax := by
      rw [hmin', hmax']
      exact hno.yMin_le.trans hno.le_yMax
    obtain ⟨houtLow, houtHigh⟩ := piSettle_output hrange x (s.integrator + x) (piOutput s x)
    rw [hki, hbias, hmin] at hlow
    rw [hki, hbias, hmax] at hhigh
    rw [hmin'] at houtLow
    rw [hmax'] at houtHigh
    exact ⟨houtLow, houtHigh, hlow, hhigh⟩
  · intro nChanRef h refChannel regs start
    have hstart : helperPi.Regulates start.pi := helperStart_regulates nChanRef h refChannel regs
    constructor
    · intro ys hys
      refine along_of_invariant_on helperPi.Regulates (fun y => |y| ≤ helperErrorClamp)
        (fun p y hp hy => (helperPi_step hp hy).2.2) ?_ hstart ys hys
      intro p y hp hy
      obtain ⟨hfits, hexact, -⟩ := helperPi_step hp hy
      exact ⟨hfits, hexact⟩
    · intro tags
      refine along_of_invariant (fun t : SpllHelperState => helperPi.Regulates t.pi)
        helperStep_regulates ?_ hstart tags
      intro s e hs
      exact helperSums_inI32 hs (abs_helperClamp_le _)

/-- Two samples of the helper regulator, and a third one at the clamp. -/
theorem pi_antiWindup_helper :
    let s := run piStepExact (piInit helperPi) [1, -5]
    5 ≤ (piUpdateExact s 150000).2 ∧ (piUpdateExact s 150000).2 ≤ 65531 :=
  let h := (pi_antiWindup helperPi_noWindup [1, -5] 150000).1
  ⟨h.1, h.2.1⟩

end Softpll
end WrpcSw
