import WrpcSw.Lib.Run

/-!
# The RX timestamper calibrator (`dev/rxts_calibrator.c`)

The calibrator moves the phase shifter of the main channel in steps over one
clock period and some headroom, and asks at each step whether the falling edge
counter of the timestamper is ahead.  Two deglitching detectors look for the
rising and for the falling edge in these answers; the falling edge serves as a
second sample of the rising one, half a period away.

An update takes what the hardware says during the call as arguments: whether the
shifter is busy, and the result of the calibration pulse at each phase.

* `detect` — a detector after a number of samples, and `DetectInv`, what it knows
  about them.
* `detect_done` — a detector that is shown its edge between two steady stretches
  finds one.
* `calibrationLoop_eq` — the polling loop returns what the last sample of the scan
  gives.
-/

namespace WrpcSw
namespace Calib

open Run

/-- `REF_CLOCK_PERIOD_PS` of the node. -/
def refClockPeriodPs : Int := 8000

def calScanStep : Int := 100

/-- Deglitcher threshold. -/
def calDeglitchThreshold : Int := 5

/-- One clock period plus some headroom. -/
def calScanRange : Int := refClockPeriodPs + 3 * calDeglitchThreshold * calScanStep

/-- `TD_*`. -/
inductive TransDetect
  | waitInactive
  | gotTransition
  | done
deriving DecidableEq, Repr

/-- State of a transition detector (`struct trans_detect_state`; `prev_val` is never
read). -/
structure TransDetectState where
  sampleCount : Int := 0
  state : TransDetect := .waitInactive
  transPhase : Int := 0
deriving DecidableEq, Repr

/-- One sample for a detector, and its return value. -/
def lookupTransition (state : TransDetectState) (flipBit : Bool) (phase : Int)
    (polarity : Bool) : TransDetectState × Int :=
  match state.state with
  | .waitInactive =>
      let count := if flipBit ≠ polarity then state.sampleCount + 1 else 0
      if count ≥ calDeglitchThreshold then
        ({ state with state := .gotTransition, sampleCount := 0 }, 0)
      else ({ state with sampleCount := count }, 0)
  | .gotTransition =>
      if flipBit ≠ polarity then ({ state with sampleCount := 0 }, 0)
      else if state.sampleCount + 1 ≥ calDeglitchThreshold then
        ({ sampleCount := state.sampleCount + 1
           state := .done
           transPhase := phase - calDeglitchThreshold * calScanStep }, 0)
      else ({ state with sampleCount := state.sampleCount + 1 }, 0)
  | .done => (state, 1)

/-- The globals of the file, and the setpoint of the phase shifter of channel 0. -/
structure RxtsCalibration where
  detRising : TransDetectState := {}
  detFalling : TransDetectState := {}
  calCurPhase : Int := 0
  phaseShift : Int := 0
deriving DecidableEq, Repr

/-- `rxts_calibration_start`, which overwrites all of it. -/
def rxtsCalibrationStart : RxtsCalibration := {}

/-- `while (x >= REF_CLOCK_PERIOD_PS) x -= REF_CLOCK_PERIOD_PS;` -/
def normalize (x : Int) : Int :=
  if refClockPeriodPs ≤ x then normalize (x - refClockPeriodPs) else x
termination_by x.toNat
decreasing_by
  unfold refClockPeriodPs at *
  omega

/-- The mean of the rising edge and the falling edge moved by half a period, all in
one period. -/
def meanTransition (rising falling : Int) : Int :=
  let ttrans :=
    if falling > rising then falling - refClockPeriodPs / 2
    else if falling < rising then falling + refClockPeriodPs / 2
    else 0
  let ttrans := (ttrans + rising).tdiv 2
  let ttrans := if ttrans < 0 then ttrans + refClockPeriodPs else ttrans
  if ttrans ≥ refClockPeriodPs then ttrans - refClockPeriodPs else ttrans

/-- One call: the new state, the return value and `*t24p_value`, if it is written. -/
def rxtsCalibrationUpdate (shifterBusy : Bool) (calPulse : Int → Bool) (s : RxtsCalibration) :
    RxtsCalibration × Int × Option (BitVec 32) :=
  if shifterBusy then (s, 0, none)
  else
    let flip := calPulse s.phaseShift
    let rising := (lookupTransition s.detRising flip s.calCurPhase true).1
    let falling := (lookupTransition s.detFalling flip s.calCurPhase false).1
    let s := { s with detRising := rising, detFalling := falling }
    if s.calCurPhase ≥ calScanRange then
      if rising.state ≠ .done ∨ falling.state ≠ .done then (s, -1, none)
      else
        let risingPhase := normalize rising.transPhase
        let fallingPhase := normalize falling.transPhase
        ({ s with
            detRising := { rising with transPhase := risingPhase }
            detFalling := { falling with transPhase := fallingPhase } },
          1, some (BitVec.ofInt 32 (meanTransition risingPhase fallingPhase)))
    else
      ({ s with
          calCurPhase := s.calCurPhase + calScanStep
          phaseShift := s.calCurPhase + calScanStep }, 0, none)

/-- `while (!(rv = rxts_calibration_update(value)));` over the calls of `polls`, each
with the answer of the shifter; `none` while it still polls. -/
def calibrationLoop (calPulse : Int → Bool) :
    RxtsCalibration → List Bool → Option (Int × Option (BitVec 32))
  | _, [] => none
  | s, busy :: polls =>
      let r := rxtsCalibrationUpdate busy calPulse s
      if r.2.1 = 0 then calibrationLoop calPulse r.1 polls else some r.2

/-! ## The detectors -/

section Detector

variable (b : Nat → Bool) (polarity : Bool)

/-- A detector after the samples `b 0`, …, `b (n - 1)`. -/
def detect : Nat → TransDetectState
  | 0 => {}
  | n + 1 => (lookupTransition (detect n) (b n) (calScanStep * n) polarity).1

/-- What a detector knows after `n` samples: in the first two states, how many of the
last samples were inactive, or active; at the end, the last inactive sample in front
of five active ones. -/
def DetectInv (n : Nat) (d : TransDetectState) : Prop :=
  match d.state with
  | .waitInactive => ∃ count : Nat, d.sampleCount = count ∧ count < 5 ∧ count ≤ n
  | .gotTransition => ∃ count : Nat, d.sampleCount = count ∧ count < 5 ∧ count < n ∧
      b (n - 1 - count) ≠ polarity ∧ ∀ i, n - count ≤ i → i < n → b i = polarity
  | .done => ∃ m : Nat, d.transPhase = calScanStep * m ∧ m + 5 < n ∧ b m ≠ polarity ∧
      ∀ i, m < i → i ≤ m + 5 → b i = polarity

theorem detect_inv (n : Nat) : DetectInv b polarity n (detect b polarity n) := by
  induction n with
  | zero => exact ⟨0, rfl, by omega, Nat.le_refl 0⟩
  | succ n ih =>
      show DetectInv b polarity (n + 1)
        (lookupTransition (detect b polarity n) (b n) (calScanStep * n) polarity).1
      generalize detect b polarity n = d at ih ⊢
      unfold lookupTransition
      unfold DetectInv at ih
      cases hd : d.state with
      | waitInactive =>
          simp only [hd] at ih ⊢
          obtain ⟨count, hcount, hlt, hle⟩ := ih
          by_cases hactive : b n = polarity
          · -- an active sample starts the count anew
            simp only [hactive, ne_eq, not_true_eq_false, if_false, calDeglitchThreshold]
            exact ⟨0, rfl, by omega, by omega⟩
          · by_cases hfull : count + 1 = 5
            · rw [if_pos (by simp [hactive, hcount, calDeglitchThreshold]; omega)]
              exact ⟨0, rfl, by omega, by omega, hactive, fun i hi hi' => by omega⟩
            · rw [if_neg (by simp [hactive, hcount, calDeglitchThreshold]; omega)]
              simp only [DetectInv]
              exact ⟨count + 1, by simp [hactive, hcount], by omega, by omega⟩
      | gotTransition =>
          simp only [hd] at ih ⊢
          obtain ⟨count, hcount, hlt, hle, hlast, hrun⟩ := ih
          -- the count goes on with an active sample, and starts anew with another one
          by_cases hactive : b n = polarity
          · have hrun' : ∀ i, n - count ≤ i → i < n + 1 → b i = polarity := by
              intro i hi hi'
              rcases Nat.lt_succ_iff_lt_or_eq.mp hi' with hbefore | rfl
              · exact hrun i hi hbefore
              · exact hactive
            rw [if_neg (not_not.mpr hactive)]
            by_cases hfull : count + 1 = 5
            · rw [if_pos (by simp [hcount, calDeglitchThreshold]; omega)]
              refine ⟨n - 1 - count, ?_, by omega, hlast,
                fun i hi hi' => hrun' i (by omega) (by omega)⟩
              simp only [calScanStep, calDeglitchThreshold]
              omega
            · rw [if_neg (by simp [hcount, calDeglitchThreshold]; omega)]
              simp only [DetectInv]
              refine ⟨count + 1, by simp [hcount], by omega, by omega, ?_, ?_⟩
              · rwa [show n + 1 - 1 - (count + 1) = n - 1 - count by omega]
              · exact fun i hi hi' => hrun' i (by omega) hi'
          · rw [if_pos hactive]
            simp only [DetectInv]
            exact ⟨0, rfl, by omega, by omega, hactive, fun i hi hi' => by omega⟩
      | done =>
          simp only [hd] at ih ⊢
          obtain ⟨m, hphase, hlt, hlast, hrun⟩ := ih
          simp only [DetectInv, hd]
          exact ⟨m, hphase, by omega, hlast, hrun⟩

/-- The edge that a detector has found. -/
theorem detect_edge {n : Nat} (hdone : (detect b polarity n).state = .done) :
    ∃ m : Nat, (detect b polarity n).transPhase = calScanStep * m ∧ m + 5 < n ∧
      b m ≠ polarity ∧ ∀ i, m < i → i ≤ m + 5 → b i = polarity := by
  have hinv := detect_inv b polarity n
  unfold DetectInv at hinv
  rw [hdone] at hinv
  exact hinv

/-- A detector that stays in its first state counts the inactive samples. -/
theorem lookupTransition_waits {d : TransDetectState} {flipBit : Bool} {phase : Int}
    (h : (lookupTransition d flipBit phase polarity).1.state = .waitInactive) :
    d.state = .waitInactive ∧ (flipBit ≠ polarity →
      (lookupTransition d flipBit phase polarity).1.sampleCount = d.sampleCount + 1) := by
  unfold lookupTransition at h ⊢
  cases hd : d.state with
  | waitInactive =>
      simp only [hd] at h ⊢
      refine ⟨trivial, fun hflip => ?_⟩
      simp only [if_pos hflip] at h ⊢
      split_ifs at h ⊢
      rfl
  | gotTransition =>
      simp only [hd] at h
      split_ifs at h
  | done => simp [hd] at h

/-- A detector that has not found the edge yet counts the active samples. -/
theorem lookupTransition_searches {d : TransDetectState} {flipBit : Bool} {phase : Int}
    (hwait : d.state ≠ .waitInactive)
    (h : (lookupTransition d flipBit phase polarity).1.state ≠ .done) :
    d.state ≠ .done ∧ (flipBit = polarity →
      (lookupTransition d flipBit phase polarity).1.sampleCount = d.sampleCount + 1) := by
  unfold lookupTransition at h ⊢
  cases hd : d.state with
  | waitInactive => exact absurd hd hwait
  | gotTransition =>
      simp only [hd] at h ⊢
      refine ⟨by decide, fun hflip => ?_⟩
      simp only [if_neg (not_not.mpr hflip)] at h ⊢
      split_ifs at h ⊢ <;> rfl
  | done => simp [hd] at h

/-- The state of a detector only advances. -/
theorem detect_advances {i j : Nat} (hij : i ≤ j) :
    ((detect b polarity i).state ≠ .waitInactive → (detect b polarity j).state ≠ .waitInactive) ∧
      ((detect b polarity i).state = .done → (detect b polarity j).state = .done) := by
  induction hij with
  | refl => exact ⟨id, id⟩
  | @step j _ ih =>
      refine ⟨fun h hwait => ih.1 h (lookupTransition_waits polarity hwait).1, fun h => ?_⟩
      show (lookupTransition (detect b polarity j) _ _ _).1.state = .done
      unfold lookupTransition
      rw [ih.2 h]
      exact ih.2 h

/-- Five inactive samples in a row take a detector out of its first state. -/
theorem detect_inactive {i : Nat} (h : ∀ k, i ≤ k → k < i + 5 → b k ≠ polarity) :
    (detect b polarity (i + 5)).state ≠ .waitInactive := by
  have hcount : ∀ l : Nat, l ≤ 5 → (detect b polarity (i + l)).state = .waitInactive →
      (l : Int) ≤ (detect b polarity (i + l)).sampleCount := by
    intro l
    induction l with
    | zero =>
        intro _ hwait
        have hinv := detect_inv b polarity i
        simp only [DetectInv, Nat.add_zero] at hinv hwait
        simp only [hwait] at hinv
        obtain ⟨count, hcount, -⟩ := hinv
        rw [Nat.add_zero]
        omega
    | succ l ih =>
        intro hl hwait
        obtain ⟨hbefore, hstep⟩ := lookupTransition_waits polarity hwait
        have hadds : (detect b polarity (i + (l + 1))).sampleCount =
            (detect b polarity (i + l)).sampleCount + 1 := hstep (h (i + l) (by omega) (by omega))
        have hle := ih (by omega) hbefore
        rw [hadds]
        omega
  intro hwait
  have hfive := hcount 5 (Nat.le_refl 5) hwait
  have hinv := detect_inv b polarity (i + 5)
  simp only [DetectInv, hwait] at hinv
  obtain ⟨count, hcount', hlt, -⟩ := hinv
  omega

/-- Five active samples in a row after that are an edge. -/
theorem detect_active {j : Nat} (hwait : (detect b polarity j).state ≠ .waitInactive)
    (h : ∀ k, j ≤ k → k < j + 5 → b k = polarity) : (detect b polarity (j + 5)).state = .done := by
  have hstays : ∀ l : Nat, (detect b polarity (j + l)).state ≠ .waitInactive :=
    fun l => (detect_advances b polarity (Nat.le_add_right j l)).1 hwait
  have hgot : ∀ l : Nat, (detect b polarity (j + l)).state ≠ .done →
      ∃ count : Nat, (detect b polarity (j + l)).sampleCount = count ∧ count < 5 := by
    intro l hdone
    have hinv := detect_inv b polarity (j + l)
    cases hstate : (detect b polarity (j + l)).state with
    | waitInactive => exact absurd hstate (hstays l)
    | gotTransition =>
        simp only [DetectInv, hstate] at hinv
        obtain ⟨count, hcount, hlt, -⟩ := hinv
        exact ⟨count, hcount, hlt⟩
    | done => exact absurd hstate hdone
  -- unless the edge is found before, each active sample counts
  have hcount : ∀ l : Nat, l ≤ 5 → (detect b polarity (j + l)).state ≠ .done →
      (l : Int) ≤ (detect b polarity (j + l)).sampleCount := by
    intro l
    induction l with
    | zero =>
        intro _ hdone
        obtain ⟨count, hcount, -⟩ := hgot 0 hdone
        omega
    | succ l ih =>
        intro hl hdone
        obtain ⟨hbefore, hstep⟩ := lookupTransition_searches polarity (hstays l) hdone
        have hadds : (detect b polarity (j + (l + 1))).sampleCount =
            (detect b polarity (j + l)).sampleCount + 1 := hstep (h (j + l) (by omega) (by omega))
        have hle := ih (by omega) hbefore
        rw [hadds]
        omega
  by_contra hdone
  obtain ⟨count, hcount', hlt⟩ := hgot 5 hdone
  have hfive := hcount 5 (Nat.le_refl 5) hdone
  omega

/-- A detector that sees a steady inactive stretch and a steady active one after it
finds an edge. -/
theorem detect_done {i j n : Nat} (hinactive : ∀ k, i ≤ k → k < i + 5 → b k ≠ polarity)
    (hactive : ∀ k, j ≤ k → k < j + 5 → b k = polarity) (hij : i + 5 ≤ j) (hn : j + 5 ≤ n) :
    (detect b polarity n).state = .done := by
  have hleft := (detect_advances b polarity hij).1 (detect_inactive b polarity hinactive)
  exact (detect_advances b polarity hn).2 (detect_active b polarity hleft hactive)

end Detector

/-! ## The scan -/

section Scan

variable (calPulse : Int → Bool)

/-- The number of samples of a scan: the phases from 0 to `calScanRange`. -/
def scanSamples : Nat := 96

/-- The result of the calibration pulse at the samples of the scan. -/
def scanned (i : Nat) : Bool := calPulse (calScanStep * i)

/-- The calibrator in front of sample `n`. -/
structure Scanning (n : Nat) (s : RxtsCalibration) : Prop where
  detRising : s.detRising = detect (scanned calPulse) true n
  detFalling : s.detFalling = detect (scanned calPulse) false n
  calCurPhase : s.calCurPhase = calScanStep * n
  phaseShift : s.phaseShift = calScanStep * n

/-- What the last update makes of a whole scan. -/
def scanResult : Int × Option (BitVec 32) :=
  let rising := detect (scanned calPulse) true scanSamples
  let falling := detect (scanned calPulse) false scanSamples
  if rising.state ≠ .done ∨ falling.state ≠ .done then (-1, none)
  else (1, some (BitVec.ofInt 32
    (meanTransition (normalize rising.transPhase) (normalize falling.transPhase))))

theorem scanning_start : Scanning calPulse 0 rxtsCalibrationStart := ⟨rfl, rfl, rfl, rfl⟩

/-- A sample in the middle of the scan. -/
theorem scanning_next {n : Nat} {s : RxtsCalibration} (h : Scanning calPulse n s)
    (hn : n + 1 < scanSamples) :
    Scanning calPulse (n + 1) (rxtsCalibrationUpdate false calPulse s).1 ∧
      (rxtsCalibrationUpdate false calPulse s).2.1 = 0 := by
  have hrange : ¬ s.calCurPhase ≥ calScanRange := by
    rw [h.calCurPhase]
    unfold calScanStep calScanRange refClockPeriodPs calDeglitchThreshold calScanStep
    unfold scanSamples at hn
    omega
  have hphase : s.calCurPhase + calScanStep = calScanStep * (n + 1 : Nat) := by
    rw [h.calCurPhase, Int.natCast_add, Int.mul_add]
    rfl
  unfold rxtsCalibrationUpdate
  simp only [Bool.false_eq_true, if_false, if_neg hrange]
  refine ⟨⟨?_, ?_, hphase, hphase⟩, trivial⟩
  · rw [h.detRising, h.phaseShift, h.calCurPhase]
    rfl
  · rw [h.detFalling, h.phaseShift, h.calCurPhase]
    rfl

/-- The last sample. -/
theorem scanning_last {n : Nat} {s : RxtsCalibration} (h : Scanning calPulse n s)
    (hn : n + 1 = scanSamples) :
    (rxtsCalibrationUpdate false calPulse s).2 = scanResult calPulse := by
  have hrange : s.calCurPhase ≥ calScanRange := by
    rw [h.calCurPhase]
    unfold calScanStep calScanRange refClockPeriodPs calDeglitchThreshold calScanStep
    unfold scanSamples at hn
    omega
  have hrising : (lookupTransition s.detRising (calPulse s.phaseShift) s.calCurPhase true).1 =
      detect (scanned calPulse) true scanSamples := by
    rw [h.detRising, h.phaseShift, h.calCurPhase, ← hn]
    rfl
  have hfalling : (lookupTransition s.detFalling (calPulse s.phaseShift) s.calCurPhase false).1 =
      detect (scanned calPulse) false scanSamples := by
    rw [h.detFalling, h.phaseShift, h.calCurPhase, ← hn]
    rfl
  unfold rxtsCalibrationUpdate scanResult
  simp only [Bool.false_eq_true, if_false, if_pos hrange, hrising, hfalling]
  split_ifs <;> rfl

/-- However often the shifter is busy, the loop polls until the last sample of the
scan, and returns what that gives. -/
theorem calibrationLoop_eq {n : Nat} {s : RxtsCalibration} (h : Scanning calPulse n s)
    (hn : n < scanSamples) (polls : List Bool) :
    calibrationLoop calPulse s polls =
      if polls.count false + n < scanSamples then none else some (scanResult calPulse) := by
  induction polls generalizing n s with
  | nil => exact (if_pos (by simpa using hn)).symm
  | cons busy polls ih =>
      cases busy with
      | true =>
          have hbusy : calibrationLoop calPulse s (true :: polls) =
              calibrationLoop calPulse s polls := rfl
          rw [hbusy, ih h hn]
          rfl
      | false =>
          rw [List.count_cons_self]
          by_cases hlast : n + 1 = scanSamples
          · have hresult := scanning_last calPulse h hlast
            have hover : (rxtsCalibrationUpdate false calPulse s).2.1 ≠ 0 := by
              rw [hresult]
              unfold scanResult
              dsimp only
              split_ifs
              · exact Int.negSucc_ne_zero 0
              · exact Int.one_ne_zero
            rw [calibrationLoop, if_neg hover, hresult, if_neg (by omega)]
          · obtain ⟨hnext, hzero⟩ := scanning_next calPulse h (by omega)
            rw [calibrationLoop, if_pos hzero, ih hnext (by omega)]
            simp only [Nat.add_right_comm]
            rfl

end Scan

end Calib
end WrpcSw
