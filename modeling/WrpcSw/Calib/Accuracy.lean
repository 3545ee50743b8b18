import Mathlib.Analysis.Normed.Group.AddCircle
import WrpcSw.Calib.RxtsCalibrator

/-!
# The accuracy of the RX timestamper calibration

The true phase of the transition is a real number on the circle of one clock
period.  The calibration pulse is right at every phase that is at least the jitter
away from both edges, and arbitrary within it.

* `Steady` — what that means for the samples of the scan, edge by edge.
* `Steady.edge_near` — an inactive sample in front of five active ones is near a
  rising edge, wherever the detector finds it.
* `Steady.edge_found` — the scan is long enough for both detectors.
* `calibration_accurate` — the result is as near to the true transition as the
  jitter and one step of the scan.
-/

namespace WrpcSw
namespace Calib

/-- The clock period on the real line. -/
noncomputable def period : ℝ := refClockPeriodPs

theorem period_eq : period = 8000 := by
  unfold period refClockPeriodPs
  norm_num

theorem period_pos : 0 < period := by
  rw [period_eq]
  norm_num

/-- The distance of two phases on the circle of one clock period. -/
noncomputable def circularDist (x y : ℝ) : ℝ := ‖((x - y : ℝ) : AddCircle period)‖

/-- A bound for some representative bounds the circular distance. -/
theorem circularDist_le {x y d : ℝ} (k : ℤ) (h : |x - y - period * k| ≤ d) :
    circularDist x y ≤ d := by
  have hcoe : ((x - y - period * k : ℝ) : AddCircle period) = ((x - y : ℝ) : AddCircle period) := by
    rw [mul_comm, ← zsmul_eq_mul, AddCircle.coe_sub, AddCircle.coe_zsmul, AddCircle.coe_period,
      smul_zero, sub_zero]
  calc circularDist x y = ‖((x - y - period * k : ℝ) : AddCircle period)‖ := by rw [hcoe]; rfl
    _ ≤ |x - y - period * k| := QuotientAddGroup.norm_mk_le_norm
    _ ≤ d := h

/-- A bound for every representative is one for the circular distance. -/
theorem le_circularDist {x y d : ℝ} (h : ∀ k : ℤ, d ≤ |x - y - period * k|) :
    d ≤ circularDist x y := by
  unfold circularDist
  rw [AddCircle.norm_eq]
  have hround := h (round (period⁻¹ * (x - y)))
  rwa [mul_comm] at hround

/-- The result of a calibration pulse at phase `p`, for a rising edge at `t`: at the
phases at least `J` away from both edges, it says whether the clock is high. -/
def Faithful (t J : ℝ) (p : ℝ) (result : Bool) : Prop :=
  J ≤ circularDist p t → J ≤ circularDist p (t + period / 2) →
    (result = true ↔ toIcoMod period_pos 0 (p - t) < period / 2)

/-! ## Steady samples -/

/-- The samples of a scan, for a rising edge at `t`: they are 1 from `J` behind a
rising edge up to `J` in front of the falling one, and 0 the other way round. -/
structure Steady (t J : ℝ) (b : Nat → Bool) : Prop where
  high : ∀ i : ℕ, i < scanSamples → ∀ k : ℤ, t + 8000 * k + J ≤ 100 * i →
    100 * i < t + 8000 * k + 4000 - J → b i = true
  low : ∀ i : ℕ, i < scanSamples → ∀ k : ℤ, t + 8000 * k + 4000 + J ≤ 100 * i →
    100 * i < t + 8000 * k + 8000 - J → b i = false

/-- A phase is far from the edges at `e` when it is far from two neighbouring ones. -/
theorem le_circularDist_between {x e d : ℝ} (k : ℤ) (hlow : e + 8000 * k + d ≤ x)
    (hhigh : x ≤ e + 8000 * k + 8000 - d) : d ≤ circularDist x e := by
  apply le_circularDist
  intro z
  rw [period_eq]
  rcases le_or_gt z k with hz | hz
  · have hz' : (z : ℝ) ≤ k := by exact_mod_cast hz
    exact le_trans (by linarith) (le_abs_self _)
  · have hz' : (k : ℝ) + 1 ≤ z := by exact_mod_cast hz
    exact le_trans (by linarith) (neg_le_abs _)

/-- The phase within the period. -/
theorem toIcoMod_period {x : ℝ} (k : ℤ) (hlow : 8000 * k ≤ x) (hhigh : x < 8000 * k + 8000) :
    toIcoMod period_pos 0 x = x - 8000 * k := by
  rw [toIcoMod_eq_iff, zero_add, period_eq]
  refine ⟨⟨by linarith, by linarith⟩, k, ?_⟩
  rw [zsmul_eq_mul]
  ring

/-- Faithful pulses give steady samples. -/
theorem steady_of_faithful {t J : ℝ} (hJ : 0 ≤ J) {calPulse : Int → Bool}
    (h : ∀ i : ℕ, i < scanSamples → Faithful t J (100 * i) (calPulse (100 * i))) :
    Steady t J (scanned calPulse) := by
  have hhalf : period / 2 = 4000 := by
    rw [period_eq]
    norm_num
  constructor
  · intro i hi k hlow hhigh
    have hrising := le_circularDist_between (x := 100 * i) (e := t) k hlow (by linarith)
    have hfalling := le_circularDist_between (x := 100 * i) (e := t + 4000) (d := J) (k - 1)
      (by push_cast; linarith) (by push_cast; linarith)
    have hresult := h i hi hrising (by rwa [hhalf])
    rw [toIcoMod_period k (by linarith) (by linarith), hhalf] at hresult
    exact hresult.mpr (by linarith)
  · intro i hi k hlow hhigh
    have hrising := le_circularDist_between (x := 100 * i) (e := t) (d := J) k (by linarith)
      (by linarith)
    have hfalling := le_circularDist_between (x := 100 * i) (e := t + 4000) (d := J) k
      (by linarith) (by linarith)
    have hresult := h i hi hrising (by rwa [hhalf])
    rw [toIcoMod_period k (by linarith) (by linarith), hhalf] at hresult
    apply Bool.eq_false_iff.mpr
    intro htrue
    have hlt := hresult.mp htrue
    linarith

namespace Steady

variable {t J : ℝ} {b : Nat → Bool}

/-- Rising and falling edges are the same for the opposite result, half a period on. -/
theorem opposite (h : Steady t J b) : Steady (t + 4000) J (fun i => !b i) where
  high i hi k hlow hhigh := by
    rw [h.low i hi k (by linarith) (by linarith)]
    rfl
  low i hi k hlow hhigh := by
    rw [h.high i hi (k + 1) (by push_cast; linarith) (by push_cast; linarith)]
    rfl

/-- An edge may be counted from any period. -/
theorem shift (h : Steady t J b) (z : ℤ) : Steady (t + 8000 * z) J b where
  high i hi k hlow hhigh :=
    h.high i hi (z + k) (by push_cast; linarith) (by push_cast; linarith)
  low i hi k hlow hhigh :=
    h.low i hi (z + k) (by push_cast; linarith) (by push_cast; linarith)

/-- Five active samples reach into the steady part of a high half period: they span
more than the jitter around one edge. -/
theorem five_active (h : Steady t J b) (hJ' : J < 200) {m : ℕ}
    (hm : m + 5 < scanSamples) (hactive : ∀ i, m < i → i ≤ m + 5 → b i = true) :
    ∃ k : ℤ, t + 8000 * k + J ≤ 100 * (m + 5) ∧ 100 * (m + 1) < t + 8000 * k + 4000 - J := by
  obtain ⟨k, hk, hk'⟩ : ∃ k : ℤ, t + 8000 * k + J ≤ 100 * (m + 5) ∧
      100 * (m + 5) < t + 8000 * k + 8000 + J := by
    refine ⟨⌊(100 * (m + 5) - t - J) / 8000⌋, ?_, ?_⟩
    · have hfloor := Int.floor_le ((100 * (m + 5) - t - J) / 8000 : ℝ)
      linarith
    · have hfloor := Int.lt_floor_add_one ((100 * (m + 5) - t - J) / 8000 : ℝ)
      linarith
  have hfirst := hactive (m + 1) (by omega) (by omega)
  have hlast := hactive (m + 5) (by omega) (by omega)
  refine ⟨k, hk, ?_⟩
  by_contra hpast
  rw [not_lt] at hpast
  by_cases hlow : 100 * ((m : ℝ) + 5) < t + 8000 * k + 8000 - J
  · -- the last sample is in the low half period
    rw [h.low (m + 5) (by omega) k (by push_cast; linarith) (by push_cast; linarith)] at hlast
    exact absurd hlast (by decide)
  · -- the last sample is near the next rising edge, and the first one is not
    rw [h.low (m + 1) (by omega) k (by push_cast; linarith) (by push_cast; linarith)] at hfirst
    exact absurd hfirst (by decide)

/-- An inactive sample in front of five active ones is near a rising edge. -/
theorem edge_near (h : Steady t J b) (hJ' : J < 200) {m : ℕ}
    (hm : m + 5 < scanSamples) (hinactive : b m = false)
    (hactive : ∀ i, m < i → i ≤ m + 5 → b i = true) :
    ∃ k : ℤ, t + 8000 * k - J - 100 ≤ 100 * m ∧ 100 * m < t + 8000 * k + J := by
  obtain ⟨k, hlast, hfirst⟩ := h.five_active hJ' hm hactive
  refine ⟨k, ?_, ?_⟩
  · by_contra hearly
    rw [not_le] at hearly
    have hlow := h.low (m + 1) (by omega) (k - 1) (by push_cast; linarith)
      (by push_cast; linarith)
    rw [hactive (m + 1) (by omega) (by omega)] at hlow
    exact absurd hlow (by decide)
  · by_contra hlate
    rw [not_lt] at hlate
    have hhigh := h.high m (by omega) k hlate (by linarith)
    rw [hinactive] at hhigh
    exact absurd hhigh (by decide)

/-- The first sample behind a phase. -/
theorem exists_sample {x : ℝ} (hx : 0 ≤ x) : ∃ i : ℕ, x ≤ 100 * i ∧ (100 * i : ℝ) < x + 100 := by
  refine ⟨⌈x / 100⌉₊, ?_, ?_⟩
  · have hceil := Nat.le_ceil (x / 100)
    linarith
  · have hceil := Nat.ceil_lt_add_one (a := x / 100) (by positivity)
    linarith

/-- Five samples behind a phase, in a steady stretch that is long enough. -/
theorem five_samples {x y : ℝ} (hx : 0 ≤ x) (hxy : x + 500 ≤ y) :
    ∃ i : ℕ, (∀ k, i ≤ k → k < i + 5 → x ≤ 100 * k ∧ (100 * k : ℝ) < y) ∧
      (100 * i : ℝ) < x + 100 ∧ x ≤ 100 * i := by
  obtain ⟨i, hi, hi'⟩ := exists_sample hx
  refine ⟨i, fun k hk hk' => ?_, hi', hi⟩
  have hle : (i : ℝ) ≤ k := by exact_mod_cast hk
  have hlt : (k : ℝ) ≤ i + 4 := by exact_mod_cast (show k ≤ i + 4 by omega)
  exact ⟨by linarith, by linarith⟩

/-- The scan holds five low samples and, after them, five high ones. -/
theorem edge_found (h : Steady t J b) (hJ : 0 ≤ J) (hJ' : J < 200) (ht : 0 ≤ t)
    (ht' : t < 8000) :
    ∃ i j : ℕ, (∀ k, i ≤ k → k < i + 5 → b k = false) ∧ (∀ k, j ≤ k → k < j + 5 → b k = true) ∧
      i + 5 ≤ j ∧ j + 5 ≤ scanSamples := by
  -- the rising edge that is found: the first one, if the scan starts early enough before it
  obtain ⟨z, hstart, hend⟩ : ∃ z : ℤ, 700 ≤ t + 8000 * z ∧ t + 8000 * z < 8700 := by
    rcases lt_or_ge t 700 with hsmall | hlarge
    · exact ⟨1, by push_cast; linarith, by push_cast; linarith⟩
    · exact ⟨0, by push_cast; linarith, by push_cast; linarith⟩
  have hsteady := h.shift z
  generalize t + 8000 * (z : ℝ) = edge at hstart hend hsteady
  obtain ⟨i, hlow, hi, -⟩ := five_samples (x := max 0 (edge - 4000 + J)) (y := edge - J)
    (le_max_left _ _) (by rcases max_cases 0 (edge - 4000 + J) with ⟨h, -⟩ | ⟨h, -⟩ <;> linarith)
  obtain ⟨j, hhigh, hj, hj'⟩ := five_samples (x := edge + J) (y := edge + 4000 - J)
    (by linarith) (by linarith)
  have hlast := (hlow (i + 4) (by omega) (by omega)).2
  have hij : i + 5 ≤ j := by
    have hlt : ((i + 4 : ℕ) : ℝ) < j := by linarith
    have hlt' : i + 4 < j := by exact_mod_cast hlt
    omega
  have hjn : j + 5 ≤ scanSamples := by
    have hlt : (j : ℝ) < 91 := by linarith
    have hlt' : j < 91 := by exact_mod_cast hlt
    unfold scanSamples
    omega
  refine ⟨i, j, fun k hk hk' => ?_, fun k hk hk' => ?_, hij, hjn⟩
  · obtain ⟨hfrom, hto⟩ := hlow k hk hk'
    have hmax := le_max_right 0 (edge - 4000 + J)
    exact hsteady.low k (by omega) (-1) (by push_cast; linarith) (by push_cast; linarith)
  · obtain ⟨hfrom, hto⟩ := hhigh k hk hk'
    exact hsteady.high k (by omega) 0 (by push_cast; linarith) (by push_cast; linarith)

end Steady

/-! ## The result of a scan -/

/-- A phase that is near an edge at `e`, as near as the jitter and one step. -/
def Near (e J : ℝ) (p : Int) : Prop :=
  ∃ k : ℤ, e + 8000 * k - J - 100 ≤ p ∧ p < e + 8000 * k + J

/-- Each detector finds its edge. -/
theorem detect_accurate {t J : ℝ} {b : Nat → Bool} (polarity : Bool)
    (h : Steady t J (fun i => b i == polarity)) (hJ : 0 ≤ J) (hJ' : J < 200) (ht : 0 ≤ t)
    (ht' : t < 8000) :
    (detect b polarity scanSamples).state = .done ∧ ∃ m : ℕ,
      (detect b polarity scanSamples).transPhase = 100 * m ∧ Near t J (100 * m) := by
  obtain ⟨i, j, hinactive, hactive, hij, hj⟩ := h.edge_found hJ hJ' ht ht'
  have hdone := detect_done b polarity (fun k hk hk' => by simpa using hinactive k hk hk')
    (fun k hk hk' => by simpa using hactive k hk hk') hij hj
  refine ⟨hdone, ?_⟩
  obtain ⟨m, hphase, hm, hlast, hrun⟩ := detect_edge b polarity hdone
  obtain ⟨k, hlow, hhigh⟩ := h.edge_near hJ' hm (by simpa using hlast)
    (fun i hi hi' => by simpa using hrun i hi hi')
  exact ⟨m, hphase, k, by push_cast; linarith, by push_cast; linarith⟩

/-- The loop that normalises a phase. -/
theorem normalize_spec (x : Int) (hx : 0 ≤ x) :
    0 ≤ normalize x ∧ normalize x < 8000 ∧ ∃ n : ℤ, normalize x = x + 8000 * n := by
  fun_induction normalize x with
  | case1 x hle ih =>
      unfold refClockPeriodPs at hle ih
      obtain ⟨hlow, hhigh, n, hn⟩ := ih (by omega)
      exact ⟨hlow, hhigh, n - 1, by unfold refClockPeriodPs; omega⟩
  | case2 x hlt =>
      unfold refClockPeriodPs at hlt
      exact ⟨hx, by omega, 0, by omega⟩

/-- Moving by whole periods keeps a phase near. -/
theorem Near.shift {e J : ℝ} {p : Int} (h : Near e J p) (n : ℤ) : Near e J (p + 8000 * n) := by
  obtain ⟨k, hlow, hhigh⟩ := h
  exact ⟨k + n, by push_cast; linarith, by push_cast; linarith⟩

/-- The falling edge moved by half a period towards the rising one. -/
def movedEdge (rising falling : Int) : Int :=
  if falling > rising then falling - 4000 else falling + 4000

/-- The two edges are different, and the moved one is near the same true edge as the
rising one. -/
theorem movedEdge_near {t J : ℝ} {rising falling : Int} (hJ' : J < 200) (hr : 0 ≤ rising)
    (hr' : rising < 8000) (hf : 0 ≤ falling) (hf' : falling < 8000) (hrising : Near t J rising)
    (hfalling : Near (t + 4000) J falling) :
    falling ≠ rising ∧ ∃ k : ℤ, (t + 8000 * k - J - 100 ≤ rising ∧ rising < t + 8000 * k + J) ∧
      t + 8000 * k - J - 100 ≤ movedEdge rising falling ∧
        movedEdge rising falling < t + 8000 * k + J := by
  obtain ⟨k, hrlow, hrhigh⟩ := hrising
  obtain ⟨l, hflow, hfhigh⟩ := hfalling
  have hr₀ : (0 : ℝ) ≤ rising := by exact_mod_cast hr
  have hr₁ : (rising : ℝ) < 8000 := by exact_mod_cast hr'
  have hf₀ : (0 : ℝ) ≤ falling := by exact_mod_cast hf
  have hf₁ : (falling : ℝ) < 8000 := by exact_mod_cast hf'
  -- the two true edges are half a period apart, and so are the two found, up to 500
  have hbelow : (l : ℝ) < k + 1 := by linarith
  have habove : (k : ℝ) < l + 2 := by linarith
  have hbelow' : l < k + 1 := by exact_mod_cast hbelow
  have habove' : k < l + 2 := by exact_mod_cast habove
  obtain rfl | rfl : l = k ∨ l = k - 1 := by omega
  · have hlt : (rising : ℝ) < falling := by linarith
    have hlt' : rising < falling := by exact_mod_cast hlt
    refine ⟨by omega, l, ⟨hrlow, hrhigh⟩, ?_⟩
    rw [movedEdge, if_pos hlt']
    push_cast
    exact ⟨by linarith, by linarith⟩
  · push_cast at hflow hfhigh
    have hlt : (falling : ℝ) < rising := by linarith
    have hlt' : falling < rising := by exact_mod_cast hlt
    refine ⟨by omega, k, ⟨hrlow, hrhigh⟩, ?_⟩
    rw [movedEdge, if_neg (by omega)]
    push_cast
    exact ⟨by linarith, by linarith⟩

/-- The mean before the last normalisation. -/
theorem meanTransition_eq {rising falling x : Int} (hne : falling ≠ rising)
    (hx : movedEdge rising falling + rising = 2 * x) (hlow : -8000 ≤ x) (hhigh : x < 16000) :
    0 ≤ meanTransition rising falling ∧ meanTransition rising falling < 8000 ∧
      ∃ n : ℤ, meanTransition rising falling = x + 8000 * n := by
  have hmoved : (if falling > rising then falling - refClockPeriodPs / 2
      else if falling < rising then falling + refClockPeriodPs / 2 else 0) =
        movedEdge rising falling := by
    unfold movedEdge refClockPeriodPs
    split_ifs <;> omega
  unfold meanTransition
  rw [hmoved]
  dsimp only
  rw [hx, Int.mul_tdiv_cancel_left x (by decide)]
  unfold refClockPeriodPs
  split_ifs
  · exact ⟨by omega, by omega, 0, by omega⟩
  · exact ⟨by omega, by omega, 1, by omega⟩
  · exact ⟨by omega, by omega, -1, by omega⟩
  · exact ⟨by omega, by omega, 0, by omega⟩

/-- The mean of the two edges, at steps that halving keeps whole. -/
theorem meanTransition_accurate {t J : ℝ} {r f : Int} (hJ' : J < 200) (hr : 0 ≤ 100 * r)
    (hr' : 100 * r < 8000) (hf : 0 ≤ 100 * f) (hf' : 100 * f < 8000) (hrising : Near t J (100 * r))
    (hfalling : Near (t + 4000) J (100 * f)) :
    0 ≤ meanTransition (100 * r) (100 * f) ∧ meanTransition (100 * r) (100 * f) < 8000 ∧
      circularDist (meanTransition (100 * r) (100 * f)) t ≤ J + 100 := by
  obtain ⟨hne, k, ⟨hrlow, hrhigh⟩, hmlow, hmhigh⟩ :=
    movedEdge_near hJ' hr hr' hf hf' hrising hfalling
  obtain ⟨x, hx⟩ : ∃ x : Int, movedEdge (100 * r) (100 * f) + 100 * r = 2 * x := by
    unfold movedEdge
    split_ifs
    · exact ⟨50 * f - 2000 + 50 * r, by ring⟩
    · exact ⟨50 * f + 2000 + 50 * r, by ring⟩
  have hx' : (movedEdge (100 * r) (100 * f) : ℝ) + (100 * r : Int) = 2 * x := by exact_mod_cast hx
  have hmoved : -4000 ≤ movedEdge (100 * r) (100 * f) ∧ movedEdge (100 * r) (100 * f) < 12000 := by
    unfold movedEdge
    split_ifs <;> exact ⟨by omega, by omega⟩
  obtain ⟨hlow, hhigh, n, hn⟩ := meanTransition_eq hne hx (by omega) (by omega)
  refine ⟨hlow, hhigh, circularDist_le (k + n) ?_⟩
  have hn' : (meanTransition (100 * r) (100 * f) : ℝ) = x + 8000 * n := by exact_mod_cast hn
  rw [hn', period_eq, abs_le]
  push_cast at *
  exact ⟨by linarith, by linarith⟩

/-- For every true transition, every jitter below two steps and every faithful result
at the phases of the scan, the loop polls while the scan lasts, however often the
shifter is busy.  Then it returns 1 and a phase of one period that is near the true
transition. -/
theorem calibration_accurate (t J : ℝ) (ht : 0 ≤ t) (ht' : t < 8000) (hJ : 0 ≤ J) (hJ' : J < 200)
    (calPulse : Int → Bool)
    (hpulse : ∀ i : ℕ, i < scanSamples → Faithful t J (100 * i) (calPulse (100 * i)))
    (polls : List Bool) :
    (polls.count false < scanSamples →
        calibrationLoop calPulse rxtsCalibrationStart polls = none) ∧
      (scanSamples ≤ polls.count false → ∃ value : BitVec 32,
        calibrationLoop calPulse rxtsCalibrationStart polls = some (1, some value) ∧
          value.toNat < 8000 ∧ circularDist value.toNat t ≤ J + 100) := by
  have hloop := calibrationLoop_eq calPulse (scanning_start calPulse) (by decide) polls
  rw [Nat.add_zero] at hloop
  refine ⟨fun hpolls => hloop.trans (if_pos hpolls), fun hpolls => ?_⟩
  have hsteady := steady_of_faithful hJ hpulse
  have hrising : Steady t J (fun i => scanned calPulse i == true) := by
    simpa using hsteady
  -- the falling transition lies half a period behind the rising one, in the same window
  obtain ⟨z, hz, hz'⟩ : ∃ z : ℤ, 0 ≤ t + 4000 + 8000 * z ∧ t + 4000 + 8000 * z < 8000 := by
    rcases lt_or_ge t 4000 with hfirst | hsecond
    · exact ⟨0, by push_cast; linarith, by push_cast; linarith⟩
    · exact ⟨-1, by push_cast; linarith, by push_cast; linarith⟩
  have hfalling : Steady (t + 4000 + 8000 * z) J (fun i => scanned calPulse i == false) := by
    simpa using hsteady.opposite.shift z
  obtain ⟨hdoneR, m, hphaseR, hnearR⟩ := detect_accurate true hrising hJ hJ' ht ht'
  obtain ⟨hdoneF, l, hphaseF, k, hlowF, hhighF⟩ := detect_accurate false hfalling hJ hJ' hz hz'
  have hnearF : Near (t + 4000) J (100 * l) :=
    ⟨z + k, by push_cast at hlowF ⊢; linarith, by push_cast at hhighF ⊢; linarith⟩
  -- both edges are taken into one period, which moves them by whole periods
  obtain ⟨hr, hr', n, hn⟩ := normalize_spec (100 * m) (by omega)
  obtain ⟨hf, hf', n', hn'⟩ := normalize_spec (100 * l) (by omega)
  have hrEq : normalize (100 * m) = 100 * (m + 80 * n) := by omega
  have hfEq : normalize (100 * l) = 100 * (l + 80 * n') := by omega
  have hnearR' := hnearR.shift n
  have hnearF' := hnearF.shift n'
  rw [← hn, hrEq] at hnearR'
  rw [← hn', hfEq] at hnearF'
  obtain ⟨hlow, hhigh, hdist⟩ := meanTransition_accurate hJ' (by omega) (by omega) (by omega)
    (by omega) hnearR' hnearF'
  refine ⟨BitVec.ofInt 32 (meanTransition (100 * (m + 80 * n)) (100 * (l + 80 * n'))), ?_, ?_⟩
  · rw [hloop, if_neg (by omega)]
    unfold scanResult
    simp only [hdoneR, hdoneF, hphaseR, hphaseF, hrEq, hfEq]
    rfl
  · generalize meanTransition (100 * (m + 80 * n)) (100 * (l + 80 * n')) = mean at hlow hhigh hdist
    obtain ⟨value, rfl⟩ := Int.eq_ofNat_of_zero_le hlow
    have hvalue : (BitVec.ofInt 32 (value : Int)).toNat = value := by
      rw [BitVec.ofInt_natCast, BitVec.toNat_ofNat]
      omega
    rw [hvalue]
    exact ⟨by omega, by exact_mod_cast hdist⟩

/-- A clock without jitter, high in the half period behind phase `t`. -/
def idealPulse (t p : Int) : Bool := decide ((p - t) % 8000 < 4000)

theorem idealPulse_faithful (t p : Int) (J : ℝ) : Faithful t J p (idealPulse t p) := by
  intro _ _
  have hdiv := Int.mul_ediv_add_emod (p - t) 8000
  have hlow := Int.emod_nonneg (p - t) (show (8000 : Int) ≠ 0 by decide)
  have hhigh := Int.emod_lt_of_pos (p - t) (show (0 : Int) < 8000 by decide)
  generalize (p - t) / 8000 = k at hdiv
  have hphase : ((p - t : Int) : ℝ) = 8000 * k + ((p - t) % 8000 : Int) := by
    exact_mod_cast hdiv.symm
  have hlow' : (0 : ℝ) ≤ ((p - t) % 8000 : Int) := by exact_mod_cast hlow
  have hhigh' : (((p - t) % 8000 : Int) : ℝ) < 8000 := by exact_mod_cast hhigh
  rw [Int.cast_sub] at hphase
  rw [toIcoMod_period k (by linarith) (by linarith), period_eq, idealPulse, decide_eq_true_eq]
  have hresidue : (p : ℝ) - t - 8000 * k = ((p - t) % 8000 : Int) := by linarith
  have hhalf : (8000 / 2 : ℝ) = (4000 : Int) := by norm_num
  rw [hresidue, hhalf, Int.cast_lt]

/-- A transition just behind the start of the scan, with the shifter busy now and then. -/
theorem calibration_accurate_early :
    ∃ value : BitVec 32,
      calibrationLoop (idealPulse 30) rxtsCalibrationStart
          ([true, false, true] ++ List.replicate 95 false) = some (1, some value) ∧
        value.toNat < 8000 ∧ circularDist value.toNat (30 : Int) ≤ 150 + 100 :=
  (calibration_accurate (30 : Int) 150 (by norm_num) (by norm_num) (by norm_num) (by norm_num)
    (idealPulse 30) (fun i _ => by exact_mod_cast idealPulse_faithful 30 (100 * i) 150)
    ([true, false, true] ++ List.replicate 95 false)).2 (by decide)

end Calib
end WrpcSw
