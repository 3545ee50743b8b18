import WrpcSw.Softpll.PhaseShift
import WrpcSw.Softpll.Regulator

/-!
# The 32-bit range of the main PLL

`mpll_update` does not clamp its error, as `helper_update` does.  A pair whose tags
are far apart therefore reaches the products of the regulator as it is.

* `mainSums_inI32_iff` — what the gains of the node leave for the error: the
  proportional product and the sum of both terms.
* `mpllSums_inI32_iff` — what the accumulators leave for the unwrapped tags.
* `mpll_arithmetic_iff` — a run overflows nowhere exactly when each of its pairs
  respects the first limit while unlocked, and the second one while locked.

The anti-windup bound carries both: it holds as long as nothing has overflowed, and
keeps the integral term away from the limit.
-/

namespace WrpcSw
namespace Softpll

open CInt Run

/-! ## The regulator -/

/-- The settings of the regulator of a main PLL of the node. -/
def mainPi : SpllPi where
  ki := 30
  kp := 1100
  bias := 65000
  antiWindup := true
  yMin := 5
  yMax := 65530

theorem mainPi_noWindup : mainPi.NoWindup :=
  ⟨rfl, by decide, by decide, by decide, by decide⟩

theorem mpllRestart_regulates (nChanRef : Nat) (s : SpllMainState) (idRef idOut : Int) :
    mainPi.Regulates (mpllRestart (mpllInit Board.wrc nChanRef s idRef idOut)).pi := by
  constructor
  · exact ⟨rfl, rfl, rfl, rfl, rfl, rfl⟩
  · exact (piInit_regulates (mainPi_noWindup.congr ⟨rfl, rfl, rfl, rfl, rfl, rfl⟩)).2

/-- No operation of a sample overflows exactly when the proportional product and the sum
of the two terms fit. -/
theorem mainSums_inI32_iff {pi : SpllPi} (h : mainPi.Regulates pi) (x : Int) :
    (∀ v ∈ piSums pi x, InI32 v) ↔
      InI32 (1100 * x) ∧ InI32 (30 * pi.integrator + 1130 * x) := by
  obtain ⟨⟨hki, hkp, hbias, -, hmin, hmax⟩, hlow, hhigh⟩ := h
  have hterms : piTerms pi x = 30 * pi.integrator + 1130 * x := by
    unfold piTerms
    rw [hki, hkp]
    simp only [mainPi]
    ring
  rw [hki, hbias, hmin] at hlow
  rw [hki, hbias, hmax] at hhigh
  simp only [piSums, List.forall_mem_cons, piOutput, Int.shiftRight_eq_div_pow, hterms, hki, hkp,
    hbias]
  simp only [mainPi, piFracbits, InI32] at *
  constructor
  · rintro ⟨-, -, hproportional, hsum, -⟩
    omega
  · rintro ⟨hproportional, hsum⟩
    refine ⟨?_, ?_, ?_, ?_, ?_, by simp⟩ <;> omega

/-! ## The accumulators -/

section Pair

variable {s : SpllMainState}

/-- Without a phase shift, no sum of a pair overflows exactly when the unwrapped reference
tag, the unwrapped output adder and the difference of the unwrapped tags fit. -/
theorem mpllSums_inI32_iff (hbounded : AddersBounded s) (hnonneg : 0 ≤ s.adderRef)
    (hpair : s.Paired) (hrest : mpllShiftStep s = 0) :
    (∀ v ∈ mpllSums s, InI32 v) ↔
      s.adderRef + (if s.RefWraps then 2 ^ tagBits else 0) + s.tagRef < 2147483648 ∧
        s.adderOut + (if s.OutWraps then 2 ^ tagBits else 0) < 2147483648 ∧
        -2147483648 ≤
          s.adderRef - s.adderOut + 2 ^ tagBits * pairTurns s + (s.tagRef - s.tagOut) := by
  obtain ⟨hout, -, htagRef, htagOut⟩ := hbounded
  obtain ⟨href, houtTag⟩ := hpair
  have hrefTurn := turn_bounds s.RefWraps s.adderRef
  have houtTurn := turn_bounds s.OutWraps s.adderOut
  have hturns : (2 : Int) ^ tagBits * pairTurns s =
      (if s.RefWraps then 2 ^ tagBits else 0) - (if s.OutWraps then 2 ^ tagBits else 0) := by
    unfold pairTurns
    split_ifs <;> simp
  have hrefSum : (if s.RefWraps then s.adderRef + 2 ^ tagBits else s.adderRef) =
      s.adderRef + if s.RefWraps then 2 ^ tagBits else 0 := by
    rw [add_ite, add_zero]
  have houtSum : (if s.OutWraps then s.adderOut + 2 ^ tagBits else s.adderOut) =
      s.adderOut + if s.OutWraps then 2 ^ tagBits else 0 := by
    rw [add_ite, add_zero]
  rw [hturns]
  constructor
  · intro hsums
    simp only [mpllSums, List.forall_mem_cons] at hsums
    obtain ⟨hrefFits, houtFits, hfirst, -, hthird, -⟩ := hsums
    obtain ⟨hunwrapRef, hunwrapOut⟩ := mpllUnwrap_adders hrefFits houtFits
    rw [houtSum] at houtFits
    rw [hunwrapRef, mpllUnwrap_tagRef] at hfirst hthird
    rw [hunwrapOut, mpllUnwrap_tagOut] at hthird
    unfold InI32 at hfirst hthird houtFits
    omega
  · rintro ⟨hrefLt, houtLt, hdiff⟩
    have hrefFits : InI32 (if s.RefWraps then s.adderRef + 2 ^ tagBits else s.adderRef) := by
      rw [hrefSum]
      unfold InI32
      omega
    have houtFits : InI32 (if s.OutWraps then s.adderOut + 2 ^ tagBits else s.adderOut) := by
      rw [houtSum]
      unfold InI32
      omega
    obtain ⟨hunwrapRef, hunwrapOut⟩ := mpllUnwrap_adders hrefFits houtFits
    obtain ⟨hrefBase, houtBase⟩ :=
      rebase_inI32 (s := mpllUnwrap s) (by unfold InI32; omega) (by unfold InI32; omega)
    have hshift : InI32 ((mpllRebase (mpllUnwrap s)).adderRef + mpllShiftStep s) := by
      rw [hrest, add_zero, mpllRebase_eq]
      dsimp only
      rw [ite_i32_eq hrefBase]
      simp only [InI32, SpllMainState.Rebases, mpllTagWraparound]
      split_ifs <;> omega
    simp only [mpllSums, List.forall_mem_cons]
    refine ⟨hrefFits, houtFits, ?_, ?_, ?_, hrefBase, houtBase, hshift, by simp⟩
    all_goals
      simp only [InI32, mpllUnwrap_tagRef, mpllUnwrap_tagOut]
      omega

/-- A pair that overflows nowhere keeps the reference adder non-negative as well, while
nothing shifts it. -/
theorem pairDone_adderRef_nonneg {t : SpllMainState} (h : PairDone s t)
    (hsums : ∀ v ∈ mpllSums s, InI32 v) (hnonneg : 0 ≤ s.adderRef)
    (hrest : mpllShiftStep s = 0) : 0 ≤ t.adderRef := by
  obtain ⟨href, -⟩ := pairDone_exact h hsums
  simp only [mpllSums, List.forall_mem_cons] at hsums
  have hunwrapRef : (mpllUnwrap s).adderRef = s.adderRef + if s.RefWraps then 2 ^ tagBits else 0 :=
    ite_i32_eq hsums.1
  have hturn := turn_bounds s.RefWraps s.adderRef
  rw [href, ← hunwrapRef, hrest, add_zero]
  rw [← hunwrapRef] at hturn
  simp only [SpllMainState.Rebases, mpllTagWraparound]
  split_ifs <;> omega

end Pair

/-! ## Runs of tags -/

/-- One tag of a channel. -/
def MpllRun.tagStep (x : MpllRun) (e : BitVec tagBits × Int) : MpllRun :=
  x.step (.tag e.1 e.2)

/-- No operation that `mpll_update` makes for the tag overflows: neither one on the
accumulators and the error, nor one of the regulator. -/
def MpllRun.Fits (x : MpllRun) (e : BitVec tagBits × Int) : Prop :=
  (mpllLatch x.pll e.1.toNat e.2).Paired →
    (∀ v ∈ mpllSums (mpllLatch x.pll e.1.toNat e.2), InI32 v) ∧
      ∀ v ∈ piSums x.pll.pi (x.pll.pairError e.1.toNat e.2), InI32 v

/-- The accumulators have room for the unwrapped tags of the pair. -/
def MpllRun.Room (x : MpllRun) (e : BitVec tagBits × Int) : Prop :=
  let s := mpllLatch x.pll e.1.toNat e.2
  s.adderRef + (if s.RefWraps then 2 ^ tagBits else 0) + s.tagRef < 2147483648 ∧
    s.adderOut + (if s.OutWraps then 2 ^ tagBits else 0) < 2147483648 ∧
    -2147483648 ≤ x.unwrappedDifference e.1 e.2

/-- The gains and the integrator have room for the distance of the unwrapped tags. -/
def MpllRun.GainRoom (x : MpllRun) (e : BitVec tagBits × Int) : Prop :=
  InI32 (1100 * x.unwrappedDifference e.1 e.2) ∧
    InI32 (30 * x.pll.pi.integrator + 1130 * x.unwrappedDifference e.1 e.2)

/-- The limit that applies to a pair: the gains while unlocked, the accumulators while
locked. -/
def MpllRun.Admits (x : MpllRun) (e : BitVec tagBits × Int) : Prop :=
  (mpllLatch x.pll e.1.toNat e.2).Paired →
    (x.pll.ld.locked = true → x.Room e) ∧ (x.pll.ld.locked = false → x.GainRoom e)

/-- What a run of tags keeps as long as nothing overflows. -/
structure MpllRun.Ranged (x : MpllRun) : Prop where
  inRange : x.InRange
  ref_nonneg : 0 ≤ x.pll.adderRef
  target : x.pll.phaseShiftTarget = 0
  current : x.pll.phaseShiftCurrent = 0
  regulates : mainPi.Regulates x.pll.pi

section Step

variable {x : MpllRun} {e : BitVec tagBits × Int}

theorem MpllRun.Ranged.rests (h : x.Ranged) :
    mpllShiftStep (mpllLatch x.pll e.1.toNat e.2) = 0 := by
  have htarget : (mpllLatch x.pll e.1.toNat e.2).phaseShiftTarget = 0 := h.target
  have hcurrent : (mpllLatch x.pll e.1.toNat e.2).phaseShiftCurrent = 0 := h.current
  simp [mpllShiftStep, htarget, hcurrent]

/-- The sums on the accumulators fit exactly when there is room. -/
theorem room_iff (h : x.Ranged) (hpair : (mpllLatch x.pll e.1.toNat e.2).Paired) :
    (∀ v ∈ mpllSums (mpllLatch x.pll e.1.toNat e.2), InI32 v) ↔ x.Room e := by
  unfold MpllRun.Room
  rw [unwrappedDifference_eq x e.1 e.2 h.inRange.exact hpair]
  exact mpllSums_inI32_iff (latch_bounded x e.1 e.2 h.inRange.bounded) h.ref_nonneg hpair h.rests

/-- While locked, the masked error never overflows the regulator. -/
theorem piSums_locked (h : x.Ranged) (hlocked : x.pll.ld.locked = true) :
    ∀ v ∈ piSums x.pll.pi (x.pll.pairError e.1.toNat e.2), InI32 v := by
  have herr : x.pll.pairError e.1.toNat e.2 = signedLow (hpllN - 1)
      (i32 (i32 (i32 ((mpllUnwrap (mpllLatch x.pll e.1.toNat e.2)).adderRef +
          (mpllUnwrap (mpllLatch x.pll e.1.toNat e.2)).tagRef) -
        (mpllUnwrap (mpllLatch x.pll e.1.toNat e.2)).adderOut) -
        (mpllUnwrap (mpllLatch x.pll e.1.toNat e.2)).tagOut)) := by
    have hlocked' : (mpllUnwrap (mpllLatch x.pll e.1.toNat e.2)).ld.locked = true := hlocked
    simp only [SpllMainState.pairError, mpllError, hlocked', if_true]
  obtain ⟨hmaskLow, hmaskHigh, -⟩ := signedLow_isSignedLow (hpllN - 1)
    (i32 (i32 (i32 ((mpllUnwrap (mpllLatch x.pll e.1.toNat e.2)).adderRef +
          (mpllUnwrap (mpllLatch x.pll e.1.toNat e.2)).tagRef) -
        (mpllUnwrap (mpllLatch x.pll e.1.toNat e.2)).adderOut) -
        (mpllUnwrap (mpllLatch x.pll e.1.toNat e.2)).tagOut))
  rw [← herr] at hmaskLow hmaskHigh
  rw [mainSums_inI32_iff h.regulates]
  obtain ⟨⟨hki, -, hbias, -, hmin, hmax⟩, hlow, hhigh⟩ := h.regulates
  rw [hki, hbias, hmin] at hlow
  rw [hki, hbias, hmax] at hhigh
  simp only [mainPi, piFracbits, hpllN, InI32] at *
  omega

/-- While unlocked, room for the gains keeps the adders close, and they have room. -/
theorem close_of_gainRoom (h : x.Ranged) (hpair : (mpllLatch x.pll e.1.toNat e.2).Paired)
    (hroom : x.GainRoom e) : x.Close := by
  obtain ⟨hproportional, -⟩ := hroom
  have hdiff := unwrappedDifference_eq x e.1 e.2 h.inRange.exact hpair
  obtain ⟨-, -, htagRef, htagOut⟩ := latch_bounded x e.1 e.2 h.inRange.bounded
  obtain ⟨href, hout⟩ := hpair
  have hturns : -1 ≤ pairTurns (mpllLatch x.pll e.1.toNat e.2) ∧
      pairTurns (mpllLatch x.pll e.1.toNat e.2) ≤ 1 := by
    unfold pairTurns
    split_ifs <;> omega
  have hadders : (mpllLatch x.pll e.1.toNat e.2).adderRef = x.pll.adderRef ∧
      (mpllLatch x.pll e.1.toNat e.2).adderOut = x.pll.adderOut := ⟨rfl, rfl⟩
  rw [hadders.1, hadders.2] at hdiff
  unfold MpllRun.Close
  rw [abs_le]
  simp only [InI32, tagBits] at *
  omega

/-- Tags within 1664835 of each other leave room whatever the integrator holds. -/
theorem gainRoom_of_abs_le (h : x.Ranged)
    (hclose : |x.unwrappedDifference e.1 e.2| ≤ 1664835) : x.GainRoom e := by
  obtain ⟨⟨hki, -, hbias, -, hmin, hmax⟩, hlow, hhigh⟩ := h.regulates
  obtain ⟨hdiffLow, hdiffHigh⟩ := abs_le.mp hclose
  rw [hki, hbias, hmin] at hlow
  rw [hki, hbias, hmax] at hhigh
  unfold MpllRun.GainRoom
  simp only [mainPi, piFracbits, InI32] at *
  omega

/-- What a pair may be is what fits. -/
theorem fits_iff (h : x.Ranged) : x.Fits e ↔ x.Admits e := by
  apply forall_congr'
  intro hpair
  cases hlocked : x.pll.ld.locked with
  | true =>
      rw [room_iff h hpair]
      constructor
      · rintro ⟨hroom, -⟩
        exact ⟨fun _ => hroom, by simp⟩
      · rintro ⟨hroom, -⟩
        exact ⟨hroom rfl, piSums_locked h hlocked⟩
  | false =>
      constructor
      · rintro ⟨hsums, hpi⟩
        rw [pairError_eq x e.1 e.2 h.inRange.exact hpair hlocked hsums,
          mainSums_inI32_iff h.regulates] at hpi
        exact ⟨by simp, fun _ => hpi⟩
      · rintro ⟨-, hgain⟩
        have hclose := close_of_gainRoom h hpair (hgain rfl)
        have hsums := mpllSums_inI32 (latch_bounded x e.1 e.2 h.inRange.bounded) hpair hclose
        refine ⟨hsums, ?_⟩
        rw [pairError_eq x e.1 e.2 h.inRange.exact hpair hlocked hsums,
          mainSums_inI32_iff h.regulates]
        exact hgain rfl

/-- A tag that overflows nothing keeps the run in range. -/
theorem ranged_step (h : x.Ranged) (hfits : x.Fits e) : (x.tagStep e).Ranged := by
  have hlatched := latch_bounded x e.1 e.2 h.inRange.bounded
  by_cases hpair : (mpllLatch x.pll e.1.toNat e.2).Paired
  · obtain ⟨hsums, hpi⟩ := hfits hpair
    obtain ⟨hdone, -⟩ := step_paired x e.1 e.2 hpair
    obtain ⟨href, hout⟩ := pairDone_exact hdone hsums
    have hexact : (mpllLatch x.pll e.1.toNat e.2).adderRef -
        (mpllLatch x.pll e.1.toNat e.2).adderOut = x.accounted := h.inRange.exact
    refine ⟨⟨?_, pairDone_bounded_of_sums hdone hlatched hsums⟩, ?_, ?_, ?_, ?_⟩
    · show MpllRun.Exact (x.step (.tag e.1 e.2))
      unfold MpllRun.Exact
      rw [accounted_paired x e.1 e.2 hpair, href, hout, ← hexact]
      unfold pairTurns
      split_ifs <;> ring
    · exact pairDone_adderRef_nonneg hdone hsums h.ref_nonneg h.rests
    · exact hdone.phaseShiftTarget.trans h.target
    · have hcurrent := hdone.phaseShiftCurrent
      rw [h.rests, add_zero] at hcurrent
      exact hcurrent.trans h.current
    · show mainPi.Regulates (mpllUpdate x.pll e.1.toNat e.2).1.pi
      rw [(mpllUpdate_passes x.pll e.1.toNat e.2 hpair).1]
      exact piStep_regulates mainPi_noWindup h.regulates hpi
  · unfold MpllRun.tagStep
    rw [step_unpaired x e.1 e.2 hpair]
    exact ⟨⟨h.inRange.exact, hlatched⟩, h.ref_nonneg, h.target, h.current, h.regulates⟩

end Step

theorem start_ranged (nChanRef : Nat) (s : SpllMainState) (idRef idOut : Int) :
    (MpllRun.start (mpllInit Board.wrc nChanRef s idRef idOut)).Ranged where
  inRange := start_inRange _
  ref_nonneg := le_refl _
  target := rfl
  current := rfl
  regulates := mpllRestart_regulates nChanRef s idRef idOut

/-- From `mpll_init` and `mpll_start` with the gains of the node, and for tags in any order, no
operation of the main PLL overflows exactly when every pair completed while unlocked leaves
room for the gains, and every pair completed while locked leaves room in the
accumulators. -/
theorem mpll_arithmetic_iff (nChanRef : Nat) (s : SpllMainState) (idRef idOut : Int)
    (tags : List (BitVec tagBits × Int)) :
    let start := MpllRun.start (mpllInit Board.wrc nChanRef s idRef idOut)
    Along MpllRun.tagStep MpllRun.Fits start tags ↔
      Along MpllRun.tagStep MpllRun.Admits start tags := by
  apply along_iff_of_invariant MpllRun.Ranged
  · intro x e hx hadmits
    exact ranged_step hx ((fits_iff hx).mpr hadmits)
  · intro x e hx
    exact fits_iff hx
  · exact start_ranged nChanRef s idRef idOut

/-- Two tags 2000000 apart: the proportional product wraps, and the DAC is driven to the
bottom of its range instead of the top. -/
theorem mpll_arithmetic_wraps :
    let start := MpllRun.start (mpllInit Board.wrc 1 {} 0 1)
    let before := run MpllRun.tagStep start [(2000000, 0)]
    let err := before.pll.pairError 0 1
    ¬ Along MpllRun.tagStep MpllRun.Fits start [(2000000, 0), (0, 1)] ∧
      (mpllUpdate before.pll 0 1).2.1 = some (dacMainW 5 0) ∧
      (piUpdateExact before.pll.pi err).2 = 65530 := by
  refine ⟨?_, by decide, by decide⟩
  rintro ⟨-, hpair, -⟩
  have hproduct := (hpair (by decide)).2 2200000000 (by decide)
  exact absurd hproduct (by decide)

end Softpll
end WrpcSw
