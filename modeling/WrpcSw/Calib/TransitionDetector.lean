import WrpcSw.Calib.Accuracy
import WrpcSw.Lib.Streak

/-!
# The transition detector and the end of the scan

A detector waits for five inactive samples in a row, then for five active ones, with one
counter for both.  Nothing is assumed about the samples here, and nothing about the phases
they are taken at.

* `Detecting` — the detector after a number of samples, in terms of windows: the counter is
  the streak of the samples it waits for.
* `lookups_done_iff` — it is done once the first active window after the first inactive
  one has ended.
* `firstReturn_iff` — the scan polls for 95 samples, whatever they are and however often
  the shifter is busy in between, and ends with the next.
* `transition_detector` — both, with what is remembered and reported.
-/

namespace WrpcSw
namespace Calib

open Run Streak

/-! ## The detector -/

section Detector

variable (d : TransDetectState) (b : Nat → Bool) (phase : Nat → Int) (polarity : Bool)

/-- The detector `d` after the samples `b 0`, …, `b (n - 1)`, taken at `phase 0`, …. -/
def lookups : Nat → TransDetectState
  | 0 => d
  | n + 1 => (lookupTransition (lookups n) (b n) (phase n) polarity).1

/-- The sample is active. -/
def Active (k : Nat) : Prop := b k = polarity

/-- The sample is inactive. -/
def Inactive (k : Nat) : Prop := b k ≠ polarity

instance : DecidablePred (Active b polarity) := fun k =>
  inferInstanceAs (Decidable (b k = polarity))
instance : DecidablePred (Inactive b polarity) := fun k =>
  inferInstanceAs (Decidable (b k ≠ polarity))

/-- The first five inactive samples in a row end with `i`, the first five active ones in a
row that start after that end with `k`. -/
structure Transition (i k : Nat) : Prop where
  inactive : FirstWindow (Inactive b polarity) 5 0 i
  active : FirstWindow (Active b polarity) 5 (i + 1) k

/-- What a detector knows after `n` samples. -/
inductive Detecting (n : Nat) (d : TransDetectState) : Prop
  | waiting (hstate : d.state = .waitInactive)
      (hcount : d.sampleCount = streak (Inactive b polarity) 0 n)
      (hnone : ∀ l, l < n → ¬ WindowEnds (Inactive b polarity) 5 0 l)
  | searching (i : Nat) (hstate : d.state = .gotTransition) (hi : i < n)
      (hinactive : FirstWindow (Inactive b polarity) 5 0 i)
      (hcount : d.sampleCount = streak (Active b polarity) (i + 1) n)
      (hnone : ∀ l, l < n → ¬ WindowEnds (Active b polarity) 5 (i + 1) l)
  | found (i k : Nat) (hstate : d.state = .done) (hk : k < n) (h : Transition b polarity i k)
      (hphase : d.transPhase = phase k - calDeglitchThreshold * calScanStep)

variable {b phase polarity} {d : TransDetectState} {n : Nat}

theorem Transition.unique {i k i' k' : Nat} (h : Transition b polarity i k)
    (h' : Transition b polarity i' k') : i = i' ∧ k = k' := by
  obtain rfl := h.inactive.unique h'.inactive
  exact ⟨rfl, h.active.unique h'.active⟩

theorem Transition.lt {i k : Nat} (h : Transition b polarity i k) : i < k :=
  h.active.start_le (by decide)

/-- A streak of the samples the detector waits for stays below five until it is one. -/
theorem streak_lt_five {p : Nat → Prop} [DecidablePred p] {start m : Nat}
    (hnone : ∀ l, l < m → ¬ WindowEnds p 5 start l) : streak p start m < 5 := by
  by_contra hfull
  cases m with
  | zero =>
      rw [streak] at hfull
      omega
  | succ m => exact hnone m (by omega) ((windowEnds_iff (by decide) m).mpr (by omega))

/-- One sample: the counter follows the streak, and the state advances where a window
ends. -/
theorem detecting_step (h : Detecting b phase polarity n d) :
    Detecting b phase polarity (n + 1) (lookupTransition d (b n) (phase n) polarity).1 := by
  unfold lookupTransition
  cases h with
  | waiting hstate hcount hnone =>
      simp only [hstate]
      by_cases hmiss : b n = polarity
      · have hreset : streak (Inactive b polarity) 0 (n + 1) = 0 := streak_miss fun h => h hmiss
        rw [if_neg (by simp [hmiss, calDeglitchThreshold])]
        refine .waiting rfl (by simp [hmiss, hreset]) ?_
        exact not_windowEnds_succ (by decide) hnone (by omega)
      · have hhit : streak (Inactive b polarity) 0 (n + 1) = streak (Inactive b polarity) 0 n + 1 :=
          streak_hit (Nat.zero_le n) hmiss
        by_cases hfull : streak (Inactive b polarity) 0 n + 1 = 5
        · rw [if_pos (by simp [hmiss, hcount, calDeglitchThreshold]; omega)]
          have hfirst := firstWindow_succ (by decide) hnone (by omega)
          refine .searching n rfl (by omega) hfirst ?_ ?_
          · rw [streak_start (Nat.le_refl _)]
            rfl
          · intro l hl hends
            have := hends.1
            omega
        · have hbelow := streak_lt_five hnone
          rw [if_neg (by simp [hmiss, hcount, calDeglitchThreshold]; omega)]
          refine .waiting rfl (by simp [hmiss, hcount, hhit]) ?_
          exact not_windowEnds_succ (by decide) hnone (by omega)
  | searching i hstate hi hinactive hcount hnone =>
      simp only [hstate]
      by_cases hmiss : b n ≠ polarity
      · have hreset : streak (Active b polarity) (i + 1) (n + 1) = 0 := streak_miss hmiss
        rw [if_pos hmiss]
        refine .searching i rfl (by omega) hinactive (by simp [hreset]) ?_
        exact not_windowEnds_succ (by decide) hnone (by omega)
      · have hhit : streak (Active b polarity) (i + 1) (n + 1) =
            streak (Active b polarity) (i + 1) n + 1 :=
          streak_hit (by omega) (not_not.mp hmiss)
        rw [if_neg hmiss]
        by_cases hfull : streak (Active b polarity) (i + 1) n + 1 = 5
        · rw [if_pos (by simp [hcount, calDeglitchThreshold]; omega)]
          have hfirst := firstWindow_succ (by decide) hnone (by omega)
          exact .found i n rfl (by omega) ⟨hinactive, hfirst⟩ rfl
        · have hbelow := streak_lt_five hnone
          rw [if_neg (by simp [hcount, calDeglitchThreshold]; omega)]
          refine .searching i rfl (by omega) hinactive (by simp [hcount, hhit]) ?_
          exact not_windowEnds_succ (by decide) hnone (by omega)
  | found i k hstate hk h hphase =>
      simp only [hstate]
      exact .found i k hstate (by omega) h hphase

/-- A detector that is to wait, with its counter at zero. -/
structure Fresh (d : TransDetectState) : Prop where
  state : d.state = .waitInactive
  sampleCount : d.sampleCount = 0

variable (b phase polarity) in
theorem detecting_lookups (hd : Fresh d) (n : Nat) :
    Detecting b phase polarity n (lookups d b phase polarity n) := by
  induction n with
  | zero => exact .waiting hd.state hd.sampleCount fun l hl => absurd hl (Nat.not_lt_zero l)
  | succ n ih => exact detecting_step ih

/-- The detector is done once the transition has ended. -/
theorem lookups_done_iff (hd : Fresh d) (n : Nat) :
    (lookups d b phase polarity n).state = .done ↔
      ∃ i k, Transition b polarity i k ∧ k < n := by
  constructor
  · intro hdone
    cases detecting_lookups b phase polarity hd n with
    | waiting hstate _ _ => cases hstate.symm.trans hdone
    | searching i hstate _ _ _ _ => cases hstate.symm.trans hdone
    | found i k _ hk h _ => exact ⟨i, k, h, hk⟩
  · rintro ⟨i, k, h, hk⟩
    cases detecting_lookups b phase polarity hd n with
    | waiting _ _ hnone => exact absurd h.inactive.ends (hnone i (by have := h.lt; omega))
    | searching i' _ _ hinactive _ hnone =>
        obtain rfl := h.inactive.unique hinactive
        exact absurd h.active.ends (hnone k hk)
    | found _ _ hstate _ _ _ => exact hstate

/-- The detector is done with sample `k` exactly when the transition ends there: `k` is the
end of the first five active samples in a row that start after the first five inactive
ones.  Its phase is that of the sample, less five steps, and stays. -/
theorem lookups_transition (hd : Fresh d) (k : Nat) :
    ((lookups d b phase polarity k).state ≠ .done ∧
        (lookups d b phase polarity (k + 1)).state = .done ↔
      ∃ i, Transition b polarity i k) ∧
    ∀ i, Transition b polarity i k → ∀ m, k < m →
      (lookups d b phase polarity m).state = .done ∧
        (lookups d b phase polarity m).transPhase = phase k - 500 := by
  refine ⟨?_, ?_⟩
  · rw [ne_eq, lookups_done_iff hd, lookups_done_iff hd]
    constructor
    · rintro ⟨hbefore, i, l, h, hl⟩
      have hlast : l = k := by
        by_contra hne
        exact hbefore ⟨i, l, h, by omega⟩
      exact ⟨i, hlast ▸ h⟩
    · rintro ⟨i, h⟩
      refine ⟨?_, i, k, h, by omega⟩
      rintro ⟨i', l, h', hl⟩
      have := (h.unique h').2
      omega
  · intro i h m hm
    have hdone : (lookups d b phase polarity m).state = .done :=
      (lookups_done_iff hd m).mpr ⟨i, k, h, hm⟩
    refine ⟨hdone, ?_⟩
    cases detecting_lookups b phase polarity hd m with
    | waiting hwait _ _ => cases hwait.symm.trans hdone
    | searching _ hsearch _ _ _ _ => cases hsearch.symm.trans hdone
    | found i' k' _ _ h' hphase =>
        rw [hphase, (h.unique h').2]
        rfl

end Detector

/-! ## The scan -/

/-- One call of `rxts_calibration_update`: whether the shifter is busy, and the result of
the calibration pulse if it is not. -/
structure Poll where
  busy : Bool
  flip : Bool

def scanStep (s : RxtsCalibration) (p : Poll) : RxtsCalibration :=
  (rxtsCalibrationUpdate p.busy (fun _ => p.flip) s).1

/-- The return value. -/
def scanReturn (s : RxtsCalibration) (p : Poll) : Int :=
  (rxtsCalibrationUpdate p.busy (fun _ => p.flip) s).2.1

/-- What is written to `*t24p_value`. -/
def scanValue (s : RxtsCalibration) (p : Poll) : Option (BitVec 32) :=
  (rxtsCalibrationUpdate p.busy (fun _ => p.flip) s).2.2

/-- The samples that a list of calls has taken. -/
def samplesOf (polls : List Poll) : List Bool := (polls.filter fun p => !p.busy).map Poll.flip

/-- The samples of a list, as a sequence. -/
def sampleAt (flips : List Bool) (k : Nat) : Bool := flips.getD k false

/-- The phase of each sample of the scan. -/
def scanPhase (k : Nat) : Int := calScanStep * k

/-- The calibrator in the middle of a scan, with the samples taken so far. -/
structure ScanAt (flips : List Bool) (s : RxtsCalibration) : Prop where
  detRising : s.detRising = lookups {} (sampleAt flips) scanPhase true flips.length
  detFalling : s.detFalling = lookups {} (sampleAt flips) scanPhase false flips.length
  calCurPhase : s.calCurPhase = scanPhase flips.length

section Scan

variable {s : RxtsCalibration} {p : Poll}

theorem scanStep_busy (h : p.busy = true) : scanStep s p = s ∧ scanReturn s p = 0 := by
  unfold scanStep scanReturn rxtsCalibrationUpdate
  rw [h]
  exact ⟨rfl, rfl⟩

/-- A detector has not seen the samples that are still to come. -/
theorem lookups_congr {d : TransDetectState} {b b' : Nat → Bool} {phase : Nat → Int}
    {polarity : Bool} {n : Nat} (h : ∀ k, k < n → b k = b' k) :
    lookups d b phase polarity n = lookups d b' phase polarity n := by
  induction n with
  | zero => rfl
  | succ n ih => rw [lookups, lookups, ih fun k hk => h k (by omega), h n (by omega)]

/-- One more sample for a detector. -/
theorem lookups_append (d : TransDetectState) (flips : List Bool) (flip polarity : Bool) :
    lookups d (sampleAt (flips ++ [flip])) scanPhase polarity (flips ++ [flip]).length =
      (lookupTransition (lookups d (sampleAt flips) scanPhase polarity flips.length) flip
        (scanPhase flips.length) polarity).1 := by
  have hold : ∀ k, k < flips.length → sampleAt (flips ++ [flip]) k = sampleAt flips k := by
    intro k hk
    unfold sampleAt
    rw [List.getD_eq_getElem?_getD, List.getD_eq_getElem?_getD, List.getElem?_append_left hk]
  have hnew : sampleAt (flips ++ [flip]) flips.length = flip := by
    unfold sampleAt
    rw [List.getD_eq_getElem?_getD, List.getElem?_concat_length]
    rfl
  rw [List.length_append, List.length_singleton, lookups, lookups_congr hold, hnew]

/-- A sample before the last one takes the scan one step further. -/
theorem scanAt_step {flips : List Bool} (h : ScanAt flips s) (hbusy : p.busy = false)
    (hlength : flips.length < 95) :
    ScanAt (flips ++ [p.flip]) (scanStep s p) ∧ scanReturn s p = 0 := by
  have hrange : ¬ s.calCurPhase ≥ calScanRange := by
    rw [h.calCurPhase]
    unfold scanPhase calScanStep calScanRange refClockPeriodPs calDeglitchThreshold calScanStep
    omega
  unfold scanStep scanReturn rxtsCalibrationUpdate
  simp only [hbusy, Bool.false_eq_true, if_false, if_neg hrange]
  refine ⟨⟨?_, ?_, ?_⟩, trivial⟩
  · rw [lookups_append, h.detRising, h.calCurPhase]
  · rw [lookups_append, h.detFalling, h.calCurPhase]
  · simp only [h.calCurPhase, scanPhase, List.length_append, List.length_singleton]
    push_cast
    ring

/-- The samples `flips` hold a transition of the given polarity. -/
def HasTransition (flips : List Bool) (polarity : Bool) : Prop :=
  ∃ i k, Transition (sampleAt flips) polarity i k ∧ k < flips.length

/-- The last sample ends the scan: with success when there is a transition of either
polarity. -/
theorem scanAt_last {flips : List Bool} (h : ScanAt flips s) (hbusy : p.busy = false)
    (hlength : flips.length = 95) :
    scanReturn s p ≠ 0 ∧ (scanReturn s p = 1 ↔ HasTransition (flips ++ [p.flip]) true ∧
      HasTransition (flips ++ [p.flip]) false) := by
  have hrange : s.calCurPhase ≥ calScanRange := by
    rw [h.calCurPhase, hlength]
    decide
  have hfresh : Fresh {} := ⟨rfl, rfl⟩
  have hrising : (lookupTransition s.detRising p.flip s.calCurPhase true).1.state = .done ↔
      HasTransition (flips ++ [p.flip]) true := by
    rw [h.detRising, h.calCurPhase, ← lookups_append]
    exact lookups_done_iff hfresh _
  have hfalling : (lookupTransition s.detFalling p.flip s.calCurPhase false).1.state = .done ↔
      HasTransition (flips ++ [p.flip]) false := by
    rw [h.detFalling, h.calCurPhase, ← lookups_append]
    exact lookups_done_iff hfresh _
  unfold scanReturn rxtsCalibrationUpdate
  simp only [hbusy, Bool.false_eq_true, if_false, if_pos hrange]
  by_cases hboth : HasTransition (flips ++ [p.flip]) true ∧ HasTransition (flips ++ [p.flip]) false
  · rw [if_neg (by simp [hrising.mpr hboth.1, hfalling.mpr hboth.2])]
    simp [hboth]
  · rw [if_pos (by rw [← hrising, ← hfalling] at hboth; tauto)]
    simp only [hboth, iff_false]
    decide

theorem samplesOf_append (polls : List Poll) (p : Poll) :
    samplesOf (polls ++ [p]) = samplesOf polls ++ if p.busy then [] else [p.flip] := by
  unfold samplesOf
  rw [List.filter_append, List.map_append]
  cases hbusy : p.busy <;> simp [hbusy]

/-- Up to 95 samples, every call returns zero. -/
theorem scanAt_run (polls : List Poll) (hlength : (samplesOf polls).length ≤ 95) :
    ScanAt (samplesOf polls) (run scanStep rxtsCalibrationStart polls) ∧
      Along scanStep (fun s p => scanReturn s p = 0) rxtsCalibrationStart polls := by
  induction polls using List.reverseRecOn with
  | nil => exact ⟨⟨rfl, rfl, rfl⟩, trivial⟩
  | append_singleton polls p ih =>
      rw [samplesOf_append] at hlength ⊢
      rw [run_append, along_append]
      cases hbusy : p.busy with
      | true =>
          rw [hbusy, if_pos rfl, List.append_nil] at hlength
          obtain ⟨hscan, hzero⟩ := ih hlength
          obtain ⟨hkeep, hret⟩ := scanStep_busy (s := run scanStep rxtsCalibrationStart polls) hbusy
          rw [if_pos rfl, List.append_nil, run_cons, run_nil, hkeep]
          exact ⟨hscan, hzero, hret, trivial⟩
      | false =>
          rw [hbusy, if_neg Bool.false_ne_true, List.length_append, List.length_singleton]
            at hlength
          obtain ⟨hscan, hzero⟩ := ih (by omega)
          obtain ⟨hnext, hret⟩ := scanAt_step hscan hbusy (by omega)
          rw [if_neg Bool.false_ne_true]
          exact ⟨hnext, hzero, hret, trivial⟩

/-- The phase of a detected transition is not negative: five samples go by before a detector
starts to search, and it takes off no more than five. -/
inductive DetRange (cal : Int) (d : TransDetectState) : Prop
  | waiting (hstate : d.state = .waitInactive) (hnonneg : 0 ≤ d.sampleCount)
      (hle : d.sampleCount ≤ 4) (hcount : 100 * d.sampleCount ≤ cal)
  | searching (hstate : d.state = .gotTransition) (hcal : 500 ≤ cal)
  | found (hstate : d.state = .done) (hphase : 0 ≤ d.transPhase)

/-- One sample, with the phase moved on by a step, or at its end. -/
theorem detRange_step {cal cal' : Int} {d : TransDetectState} (h : DetRange cal d)
    (hcal' : cal + 100 ≤ cal' ∨ (9500 ≤ cal ∧ cal ≤ cal')) (flip polarity : Bool) :
    DetRange cal' (lookupTransition d flip cal polarity).1 := by
  unfold lookupTransition
  cases h with
  | waiting hstate hnonneg hle hcount =>
      simp only [hstate, calDeglitchThreshold]
      by_cases hmiss : flip ≠ polarity
      · simp only [if_pos hmiss]
        by_cases hfull : d.sampleCount + 1 ≥ 5
        · rw [if_pos hfull]
          exact .searching rfl (by omega)
        · rw [if_neg hfull]
          exact .waiting rfl (by simp only; omega) (by simp only; omega) (by simp only; omega)
      · simp only [if_neg hmiss]
        rw [if_neg (by omega)]
        exact .waiting rfl (le_refl 0) (by simp only; omega) (by simp only; omega)
  | searching hstate hcal =>
      simp only [hstate, calDeglitchThreshold, calScanStep]
      split_ifs
      · exact .searching rfl (by omega)
      · exact .found rfl (by simp only; omega)
      · exact .searching rfl (by omega)
  | found hstate hphase =>
      simp only [hstate]
      exact .found hstate hphase

/-- A detector that is done has found a phase. -/
theorem DetRange.phase {cal : Int} {d : TransDetectState} (h : DetRange cal d)
    (hdone : d.state = .done) : 0 ≤ d.transPhase := by
  cases h with
  | waiting hstate _ _ _ => cases hstate.symm.trans hdone
  | searching hstate _ => cases hstate.symm.trans hdone
  | found _ hphase => exact hphase

/-- The two detectors in a calibrator. -/
structure ScanRange (s : RxtsCalibration) : Prop where
  rising : DetRange s.calCurPhase s.detRising
  falling : DetRange s.calCurPhase s.detFalling

/-- Halving towards zero. -/
theorem tdiv_two_range {x : Int} (hlow : -8000 ≤ x) (hhigh : x < 24000) :
    -8000 ≤ x.tdiv 2 ∧ x.tdiv 2 < 16000 := by
  rcases le_or_gt 0 x with hnonneg | hneg
  · rw [Int.tdiv_eq_ediv_of_nonneg hnonneg]
    omega
  · have hmirror : x.tdiv 2 = -((-x) / 2) := by
      rw [← Int.tdiv_eq_ediv_of_nonneg (by omega), Int.neg_tdiv, neg_neg]
    rw [hmirror]
    omega

theorem meanTransition_range {rising falling : Int} (hr : 0 ≤ rising) (hr' : rising < 8000)
    (hf : 0 ≤ falling) (hf' : falling < 8000) :
    0 ≤ meanTransition rising falling ∧ meanTransition rising falling < 8000 := by
  unfold meanTransition refClockPeriodPs
  dsimp only
  generalize hsum : (if falling > rising then falling - 8000 / 2
    else if falling < rising then falling + 8000 / 2 else 0) + rising = sum
  have hsum' : -8000 ≤ sum ∧ sum < 24000 := by
    rw [← hsum]
    split_ifs <;> omega
  obtain ⟨hlow, hhigh⟩ := tdiv_two_range hsum'.1 hsum'.2
  split_ifs <;> omega

/-- The value of a successful call is in one period; a failing one writes nothing. -/
def ScanReports (s : RxtsCalibration) (p : Poll) : Prop :=
  (scanReturn s p = 1 → ∃ v, scanValue s p = some v ∧ v.toNat < 8000) ∧
    (scanReturn s p = -1 → scanValue s p = none)

theorem scanRange_step (h : ScanRange s) (p : Poll) :
    ScanRange (scanStep s p) ∧ ScanReports s p := by
  unfold ScanReports
  cases hbusy : p.busy with
  | true =>
      obtain ⟨hkeep, hret⟩ := scanStep_busy (s := s) hbusy
      rw [hkeep, hret]
      exact ⟨h, fun h => absurd h (by decide), fun h => absurd h (by decide)⟩
  | false =>
      unfold scanStep scanReturn scanValue rxtsCalibrationUpdate
      simp only [hbusy, Bool.false_eq_true, if_false]
      have hrising : ∀ cal', s.calCurPhase + 100 ≤ cal' ∨
          (9500 ≤ s.calCurPhase ∧ s.calCurPhase ≤ cal') → DetRange cal'
            (lookupTransition s.detRising p.flip s.calCurPhase true).1 :=
        fun cal' hcal => detRange_step h.rising hcal p.flip true
      have hfalling : ∀ cal', s.calCurPhase + 100 ≤ cal' ∨
          (9500 ≤ s.calCurPhase ∧ s.calCurPhase ≤ cal') → DetRange cal'
            (lookupTransition s.detFalling p.flip s.calCurPhase false).1 :=
        fun cal' hcal => detRange_step h.falling hcal p.flip false
      generalize (lookupTransition s.detRising p.flip s.calCurPhase true).1 = rising at hrising ⊢
      generalize (lookupTransition s.detFalling p.flip s.calCurPhase false).1 = falling
        at hfalling ⊢
      by_cases hend : s.calCurPhase ≥ calScanRange
      · have hcal : 9500 ≤ s.calCurPhase := hend
        have hrising := hrising s.calCurPhase (Or.inr ⟨hcal, le_refl _⟩)
        have hfalling := hfalling s.calCurPhase (Or.inr ⟨hcal, le_refl _⟩)
        rw [if_pos hend]
        by_cases hmissing : rising.state ≠ .done ∨ falling.state ≠ .done
        · rw [if_pos hmissing]
          exact ⟨⟨hrising, hfalling⟩, fun h => absurd h (by simp), fun _ => rfl⟩
        · rw [if_neg hmissing]
          obtain ⟨hdoneR, hdoneF⟩ := not_or.mp hmissing
          obtain ⟨hr, hr', -⟩ := normalize_spec _ (hrising.phase (not_not.mp hdoneR))
          obtain ⟨hf, hf', -⟩ := normalize_spec _ (hfalling.phase (not_not.mp hdoneF))
          obtain ⟨hlow, hhigh⟩ := meanTransition_range hr hr' hf hf'
          refine ⟨⟨.found (not_not.mp hdoneR) hr, .found (not_not.mp hdoneF) hf⟩,
            fun _ => ⟨_, rfl, ?_⟩, fun h => absurd h (by simp)⟩
          rw [BitVec.toNat_ofInt]
          omega
      · have hnext : s.calCurPhase + 100 ≤ s.calCurPhase + calScanStep := le_refl _
        rw [if_neg hend]
        exact ⟨⟨hrising _ (Or.inl hnext), hfalling _ (Or.inl hnext)⟩,
          fun h => absurd h (by simp), fun h => absurd h (by simp)⟩

theorem scanRange_start : ScanRange rxtsCalibrationStart :=
  ⟨.waiting rfl (le_refl 0) (by decide) (le_refl 0),
    .waiting rfl (le_refl 0) (by decide) (le_refl 0)⟩

/-- The call is the first one that returns anything but zero. -/
def FirstReturn (polls : List Poll) (p : Poll) : Prop :=
  Along scanStep (fun s p => scanReturn s p = 0) rxtsCalibrationStart polls ∧
    scanReturn (run scanStep rxtsCalibrationStart polls) p ≠ 0

/-- The call that takes sample `n`. -/
theorem exists_sample_call (polls : List Poll) {n : Nat} (hn : n < (samplesOf polls).length) :
    ∃ pre q post, polls = pre ++ q :: post ∧ (samplesOf pre).length = n ∧ q.busy = false := by
  induction polls using List.reverseRecOn with
  | nil => exact absurd hn (Nat.not_lt_zero n)
  | append_singleton polls p ih =>
      rcases Nat.lt_or_ge n (samplesOf polls).length with hbefore | hlast
      · obtain ⟨pre, q, post, rfl, hlength, hbusy⟩ := ih hbefore
        exact ⟨pre, q, post ++ [p], by simp, hlength, hbusy⟩
      · rw [samplesOf_append, List.length_append] at hn
        cases hbusy : p.busy with
        | true =>
            rw [hbusy, if_pos rfl, List.length_nil] at hn
            omega
        | false =>
            rw [hbusy, if_neg Bool.false_ne_true, List.length_singleton] at hn
            exact ⟨polls, p, [], rfl, by omega, hbusy⟩

/-- After 95 samples the next one ends the scan. -/
theorem firstReturn_iff (polls : List Poll) (p : Poll) :
    FirstReturn polls p ↔ (samplesOf polls).length = 95 ∧ p.busy = false := by
  constructor
  · rintro ⟨hzero, hret⟩
    have hbusy : p.busy = false := by
      by_contra hbusy
      exact hret (scanStep_busy (Bool.eq_true_of_not_eq_false hbusy)).2
    refine ⟨?_, hbusy⟩
    rcases Nat.lt_trichotomy (samplesOf polls).length 95 with hless | heq | hmore
    · exact absurd (scanAt_step (scanAt_run polls (by omega)).1 hbusy hless).2 hret
    · exact heq
    · -- the scan would have ended before
      obtain ⟨pre, q, post, rfl, hlength, hq⟩ := exists_sample_call polls hmore
      have hend := (scanAt_last (scanAt_run pre (by omega)).1 hq hlength).1
      exact absurd (along_append.mp hzero).2.1 hend
  · rintro ⟨hlength, hbusy⟩
    obtain ⟨hscan, hzero⟩ := scanAt_run polls (by omega)
    exact ⟨hzero, (scanAt_last hscan hbusy hlength).1⟩

/-- What a call tells its caller, after any calls since `rxts_calibration_start`. -/
theorem scan_call (polls : List Poll) (p : Poll) :
    (FirstReturn polls p → (scanReturn (run scanStep rxtsCalibrationStart polls) p = 1 ↔
        HasTransition (samplesOf polls ++ [p.flip]) true ∧
          HasTransition (samplesOf polls ++ [p.flip]) false)) ∧
      ScanReports (run scanStep rxtsCalibrationStart polls) p := by
  have hrange : ScanRange (run scanStep rxtsCalibrationStart polls) :=
    run_invariant ScanRange (fun _ q h => (scanRange_step h q).1) scanRange_start polls
  refine ⟨?_, (scanRange_step hrange p).2⟩
  intro hfirst
  obtain ⟨hlength, hbusy⟩ := (firstReturn_iff polls p).mp hfirst
  exact (scanAt_last (scanAt_run polls (by omega)).1 hbusy hlength).2

end Scan

/-- A detector with nothing counted yet is done with sample `k` exactly when `k` is the end
of the first five active samples in a row that start after the first five inactive ones;
its phase is that of the sample, less five steps, and stays.  From
`rxts_calibration_start` on, for all samples and however often the shifter is busy, the
first call that returns anything but zero is the 96th one that takes a sample; it is a
success exactly when the samples have a transition of either polarity.  A success reports
a value within one period, and a failure leaves the caller's alone. -/
theorem transition_detector (d : TransDetectState) (hstate : d.state = .waitInactive)
    (hcount : d.sampleCount = 0) :
    (∀ (b : Nat → Bool) (phase : Nat → Int) (polarity : Bool) (k : Nat),
      ((lookups d b phase polarity k).state ≠ .done ∧
          (lookups d b phase polarity (k + 1)).state = .done ↔
        ∃ i, Transition b polarity i k) ∧
      ∀ i, Transition b polarity i k → ∀ m, k < m →
        (lookups d b phase polarity m).state = .done ∧
          (lookups d b phase polarity m).transPhase = phase k - 500) ∧
    ∀ (polls : List Poll) (p : Poll),
      (FirstReturn polls p ↔ (samplesOf polls).length = 95 ∧ p.busy = false) ∧
      (FirstReturn polls p → (scanReturn (run scanStep rxtsCalibrationStart polls) p = 1 ↔
        HasTransition (samplesOf polls ++ [p.flip]) true ∧
          HasTransition (samplesOf polls ++ [p.flip]) false)) ∧
      (scanReturn (run scanStep rxtsCalibrationStart polls) p = 1 →
        ∃ v, scanValue (run scanStep rxtsCalibrationStart polls) p = some v ∧ v.toNat < 8000) ∧
      (scanReturn (run scanStep rxtsCalibrationStart polls) p = -1 →
        scanValue (run scanStep rxtsCalibrationStart polls) p = none) :=
  ⟨fun _ _ _ k => lookups_transition ⟨hstate, hcount⟩ k,
    fun polls p => ⟨firstReturn_iff polls p, (scan_call polls p).1, (scan_call polls p).2⟩⟩

/-- Five inactive samples, then active ones. -/
theorem transition_detector_step :
    (lookups {} (fun k => decide (5 ≤ k)) (fun k => 100 * k) true 9).state ≠ .done ∧
        (lookups {} (fun k => decide (5 ≤ k)) (fun k => 100 * k) true (9 + 1)).state = .done ↔
      ∃ i, Transition (fun k => decide (5 ≤ k)) true i 9 :=
  ((transition_detector {} rfl rfl).1 (fun k => decide (5 ≤ k)) (fun k => 100 * k) true 9).1

end Calib
end WrpcSw
