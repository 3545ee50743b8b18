import WrpcSw.Lib.Run
import WrpcSw.Softpll.MainPll

/-!
# The phase error of the main PLL

From `mpll_start` on, tags of both channels and new phase setpoints arrive in any
order.  A run counts, beside the PLL, the turns its two wrap detectors have
added; the counters are never read back.

* `adders_congr` — the two adders differ by the counted turns and the phase
  shift, modulo the `2 ^ 32` values of an `int`.
* `adders_exact` — the difference is exact as long as the adders stay within
  `1000000000` of each other, because the joint rebase keeps one of them small.
* `pairError_locked`, `pairError_unlocked` — the error of a pair.
* `phaseShift_run` — the phase shifter moves by one unit per locked pair until
  it has reached its target.
-/

namespace WrpcSw
namespace Softpll

open CInt Run

/-- One call on a running main PLL. -/
inductive MpllEvent
  | tag (tag : BitVec tagBits) (source : Int)
  | setPhaseShift (desiredShift : BitVec 32)
deriving DecidableEq, Repr

/-- The latched reference tag is below the one of the pair before. -/
def SpllMainState.RefWraps (s : SpllMainState) : Prop := s.tagRefD ≥ 0 ∧ s.tagRefD > s.tagRef

/-- The latched output tag is below the one of the pair before. -/
def SpllMainState.OutWraps (s : SpllMainState) : Prop := s.tagOutD ≥ 0 ∧ s.tagOutD > s.tagOut

/-- Both adders are rebased. -/
def SpllMainState.Rebases (s : SpllMainState) : Prop :=
  s.adderRef > 2 * mpllTagWraparound ∧ s.adderOut > 2 * mpllTagWraparound

instance (s : SpllMainState) : Decidable s.RefWraps := inferInstanceAs (Decidable (_ ∧ _))
instance (s : SpllMainState) : Decidable s.OutWraps := inferInstanceAs (Decidable (_ ∧ _))
instance (s : SpllMainState) : Decidable s.Rebases := inferInstanceAs (Decidable (_ ∧ _))

/-- A main PLL with the number of turns each of its wrap detectors has added. -/
structure MpllRun where
  pll : SpllMainState
  refTurns : Int
  outTurns : Int

/-- The PLL just after `mpll_start`. -/
def MpllRun.start (s : SpllMainState) : MpllRun := ⟨mpllRestart s, 0, 0⟩

/-- One event.  A turn is counted when the update that completes a pair detects
the wrap. -/
def MpllRun.step (x : MpllRun) (e : MpllEvent) : MpllRun :=
  match e with
  | .tag tag source =>
      let latched := mpllLatch x.pll tag.toNat source
      { pll := (mpllUpdate x.pll tag.toNat source).1
        refTurns := x.refTurns + if latched.Paired ∧ latched.RefWraps then 1 else 0
        outTurns := x.outTurns + if latched.Paired ∧ latched.OutWraps then 1 else 0 }
  | .setPhaseShift desiredShift => { x with pll := mpllSetPhaseShift x.pll desiredShift.toInt }

/-- The difference of the adders that the counted turns and the phase shift
account for. -/
def MpllRun.accounted (x : MpllRun) : Int :=
  2 ^ tagBits * (x.refTurns - x.outTurns) + x.pll.phaseShiftCurrent

/-- The adders are so close that their difference leaves room for a turn. -/
def MpllRun.Close (x : MpllRun) : Prop := |x.pll.adderRef - x.pll.adderOut| ≤ 1000000000

/-! ## One pair -/

/-- The step the phase shifter takes with a pair. -/
def mpllShiftStep (s : SpllMainState) : Int :=
  if s.ld.locked then
    if s.phaseShiftCurrent < s.phaseShiftTarget then 1
    else if s.phaseShiftCurrent > s.phaseShiftTarget then -1
    else 0
  else 0

/-- The error that the update of a completed pair passes to the regulator. -/
def SpllMainState.pairError (s : SpllMainState) (tag source : Int) : Int :=
  mpllError (mpllUnwrap (mpllLatch s tag source))

/-- The exact results of the additions that one pair makes on the accumulators:
the unwrapped adders, the partial sums of the error, the rebased adders and the
shifted adder. -/
def mpllSums (s : SpllMainState) : List Int :=
  let u := mpllUnwrap s
  let r := mpllRebase u
  [if s.RefWraps then s.adderRef + 2 ^ tagBits else s.adderRef,
    if s.OutWraps then s.adderOut + 2 ^ tagBits else s.adderOut,
    u.adderRef + u.tagRef,
    u.adderRef + u.tagRef - u.adderOut,
    u.adderRef + u.tagRef - u.adderOut - u.tagOut,
    if u.Rebases then u.adderRef + -mpllTagWraparound else u.adderRef,
    if u.Rebases then u.adderOut + -mpllTagWraparound else u.adderOut,
    r.adderRef + mpllShiftStep s]

section Pair

variable (s : SpllMainState)

/-- The regulator and the DAC get the error of the pair. -/
theorem mpllUpdate_passes (tag source : Int) (hpair : (mpllLatch s tag source).Paired) :
    (mpllUpdate s tag source).1.pi = (piUpdate s.pi (s.pairError tag source)).1 ∧
      (mpllUpdate s tag source).2.1 =
        some (dacMainW (piUpdate s.pi (s.pairError tag source)).2 s.dacIndex) := by
  have hkeep : ∀ t : SpllMainState, (mpllShift (mpllRebase t)).pi = t.pi := by
    intro t
    unfold mpllShift mpllRebase
    split_ifs <;> rfl
  simp only [mpllUpdate, hpair, if_true, mpllPairUpdate]
  exact ⟨hkeep _, rfl⟩

/-- The shifter adds its step to the phase shift, and to the reference adder. -/
theorem mpllShift_eq :
    mpllShift s =
      { s with
        phaseShiftCurrent := s.phaseShiftCurrent + mpllShiftStep s
        adderRef := if mpllShiftStep s = 0 then s.adderRef
          else i32 (s.adderRef + mpllShiftStep s) } := by
  unfold mpllShift mpllShiftStep
  split_ifs <;> simp_all [sub_eq_add_neg]

/-- What the update of a pair leaves in the accumulators and the tags. -/
structure PairDone (t : SpllMainState) : Prop where
  adderRef : t.adderRef = if mpllShiftStep s = 0 then (mpllRebase (mpllUnwrap s)).adderRef
    else i32 ((mpllRebase (mpllUnwrap s)).adderRef + mpllShiftStep s)
  adderOut : t.adderOut = (mpllRebase (mpllUnwrap s)).adderOut
  phaseShiftCurrent : t.phaseShiftCurrent = s.phaseShiftCurrent + mpllShiftStep s
  phaseShiftTarget : t.phaseShiftTarget = s.phaseShiftTarget
  tagRef : t.tagRef = -1
  tagOut : t.tagOut = -1
  tagRefD : t.tagRefD = s.tagRef
  tagOutD : t.tagOutD = s.tagOut

theorem mpllPairUpdate_done : PairDone s (mpllPairUpdate s).1 := by
  simp only [mpllPairUpdate, mpllShift_eq]
  by_cases hrebase : (mpllUnwrap s).Rebases
  · have hcond := hrebase
    unfold SpllMainState.Rebases at hcond
    simp only [mpllRebase, hcond, and_self, if_true]
    exact ⟨by simp [mpllRebase, hcond]; rfl, by simp [mpllRebase, hcond], rfl, rfl, rfl, rfl, rfl,
      rfl⟩
  · have hcond := hrebase
    unfold SpllMainState.Rebases at hcond
    simp only [mpllRebase, hcond, if_false]
    exact ⟨by simp [mpllRebase, hcond]; rfl, by simp [mpllRebase, hcond], rfl, rfl, rfl, rfl, rfl,
      rfl⟩

theorem mpllShiftStep_bounds : -1 ≤ mpllShiftStep s ∧ mpllShiftStep s ≤ 1 := by
  unfold mpllShiftStep
  split_ifs <;> simp

/-- A guarded addition to an accumulator, up to multiples of `2 ^ 32`. -/
theorem ite_i32_congr (c : Prop) [Decidable c] (x d : Int) :
    (if c then i32 (x + d) else x) ≡ x + (if c then d else 0) [ZMOD 2 ^ 32] := by
  split_ifs
  · exact i32_modEq _
  · rw [add_zero]

theorem mpllRebase_eq :
    mpllRebase s =
      { s with
        adderRef := if s.Rebases then i32 (s.adderRef + -mpllTagWraparound) else s.adderRef
        adderOut := if s.Rebases then i32 (s.adderOut + -mpllTagWraparound) else s.adderOut } := by
  by_cases hrebase : s.Rebases
  · have hcond := hrebase
    unfold SpllMainState.Rebases at hcond
    simp [mpllRebase, hrebase, hcond, sub_eq_add_neg]
  · have hcond := hrebase
    unfold SpllMainState.Rebases at hcond
    simp [mpllRebase, hrebase, hcond]

/-- The adder of the reference after a pair, up to multiples of `2 ^ 32`. -/
theorem pairDone_adderRef {s t : SpllMainState} (h : PairDone s t) :
    t.adderRef ≡ s.adderRef + (if s.RefWraps then 2 ^ tagBits else 0) +
      (if (mpllUnwrap s).Rebases then -mpllTagWraparound else 0) + mpllShiftStep s
      [ZMOD 2 ^ 32] := by
  have hunwrap : (mpllUnwrap s).adderRef ≡
      s.adderRef + (if s.RefWraps then 2 ^ tagBits else 0) [ZMOD 2 ^ 32] :=
    ite_i32_congr _ _ _
  have hrebase : (mpllRebase (mpllUnwrap s)).adderRef ≡ (mpllUnwrap s).adderRef +
      (if (mpllUnwrap s).Rebases then -mpllTagWraparound else 0) [ZMOD 2 ^ 32] := by
    rw [mpllRebase_eq]
    exact ite_i32_congr _ _ _
  have hshift : t.adderRef ≡
      (mpllRebase (mpllUnwrap s)).adderRef + mpllShiftStep s [ZMOD 2 ^ 32] := by
    rw [h.adderRef]
    split_ifs with hrest
    · rw [hrest, add_zero]
    · exact i32_modEq _
  exact hshift.trans ((hrebase.trans (hunwrap.add_right _)).add_right _)

/-- The adder of the output after a pair, up to multiples of `2 ^ 32`. -/
theorem pairDone_adderOut {s t : SpllMainState} (h : PairDone s t) :
    t.adderOut ≡ s.adderOut + (if s.OutWraps then 2 ^ tagBits else 0) +
      (if (mpllUnwrap s).Rebases then -mpllTagWraparound else 0) [ZMOD 2 ^ 32] := by
  have hunwrap : (mpllUnwrap s).adderOut ≡
      s.adderOut + (if s.OutWraps then 2 ^ tagBits else 0) [ZMOD 2 ^ 32] :=
    ite_i32_congr _ _ _
  rw [h.adderOut, mpllRebase_eq]
  exact (ite_i32_congr _ _ _).trans (hunwrap.add_right _)

/-- The turns that the two wrap detectors add with a pair. -/
def pairTurns (s : SpllMainState) : Int :=
  (if s.RefWraps then 1 else 0) - (if s.OutWraps then 1 else 0)

/-- The rebase cancels in the difference of the adders. -/
theorem pairDone_congr {s t : SpllMainState} (h : PairDone s t) :
    t.adderRef - t.adderOut ≡
      s.adderRef - s.adderOut + 2 ^ tagBits * pairTurns s + mpllShiftStep s [ZMOD 2 ^ 32] := by
  have hsum : s.adderRef + (if s.RefWraps then 2 ^ tagBits else 0) +
        (if (mpllUnwrap s).Rebases then -mpllTagWraparound else 0) + mpllShiftStep s -
        (s.adderOut + (if s.OutWraps then 2 ^ tagBits else 0) +
          (if (mpllUnwrap s).Rebases then -mpllTagWraparound else 0)) =
      s.adderRef - s.adderOut + 2 ^ tagBits * pairTurns s + mpllShiftStep s := by
    unfold pairTurns
    split_ifs <;> ring
  rw [← hsum]
  exact (pairDone_adderRef h).sub (pairDone_adderOut h)

/-! ## Room in 32 bits -/

/-- A guarded addition that stays in range is exact. -/
theorem ite_i32_eq {c : Prop} [Decidable c] {x d : Int} (h : InI32 (if c then x + d else x)) :
    (if c then i32 (x + d) else x) = x + if c then d else 0 := by
  split_ifs at h ⊢
  · exact i32_eq_self h
  · rw [add_zero]

@[simp] theorem mpllUnwrap_tagRef (s : SpllMainState) : (mpllUnwrap s).tagRef = s.tagRef := rfl

@[simp] theorem mpllUnwrap_tagOut (s : SpllMainState) : (mpllUnwrap s).tagOut = s.tagOut := rfl

/-- The adders behind the unwrapping, where it fits. -/
theorem mpllUnwrap_adders {s : SpllMainState}
    (href : InI32 (if s.RefWraps then s.adderRef + 2 ^ tagBits else s.adderRef))
    (hout : InI32 (if s.OutWraps then s.adderOut + 2 ^ tagBits else s.adderOut)) :
    (mpllUnwrap s).adderRef = s.adderRef + (if s.RefWraps then 2 ^ tagBits else 0) ∧
      (mpllUnwrap s).adderOut = s.adderOut + (if s.OutWraps then 2 ^ tagBits else 0) :=
  ⟨ite_i32_eq href, ite_i32_eq hout⟩

/-- The rebase takes off only what both adders have. -/
theorem rebase_inI32 {s : SpllMainState} (href : InI32 s.adderRef) (hout : InI32 s.adderOut) :
    InI32 (if s.Rebases then s.adderRef + -mpllTagWraparound else s.adderRef) ∧
      InI32 (if s.Rebases then s.adderOut + -mpllTagWraparound else s.adderOut) := by
  simp only [InI32, SpllMainState.Rebases, mpllTagWraparound] at *
  constructor
  · split_ifs <;> omega
  · split_ifs <;> omega

/-- With every sum in range, the adders after a pair are the exact ones. -/
theorem pairDone_exact {s t : SpllMainState} (h : PairDone s t)
    (hsums : ∀ v ∈ mpllSums s, InI32 v) :
    t.adderRef = s.adderRef + (if s.RefWraps then 2 ^ tagBits else 0) +
        (if (mpllUnwrap s).Rebases then -mpllTagWraparound else 0) + mpllShiftStep s ∧
      t.adderOut = s.adderOut + (if s.OutWraps then 2 ^ tagBits else 0) +
        (if (mpllUnwrap s).Rebases then -mpllTagWraparound else 0) := by
  simp only [mpllSums, List.forall_mem_cons] at hsums
  obtain ⟨href, hout, -, -, -, hrefBase, houtBase, hshift, -⟩ := hsums
  obtain ⟨hunwrapRef, hunwrapOut⟩ := mpllUnwrap_adders href hout
  refine ⟨?_, ?_⟩
  · have hadd : t.adderRef = (mpllRebase (mpllUnwrap s)).adderRef + mpllShiftStep s := by
      rw [h.adderRef, i32_eq_self hshift]
      by_cases hrest : mpllShiftStep s = 0
      · rw [if_pos hrest, hrest, add_zero]
      · rw [if_neg hrest]
    rw [hadd, mpllRebase_eq]
    dsimp only
    rw [ite_i32_eq hrefBase, hunwrapRef]
  · rw [h.adderOut, mpllRebase_eq]
    dsimp only
    rw [ite_i32_eq houtBase, hunwrapOut]

/-- One of the adders is small, and the latched tags are tags. -/
structure AddersBounded : Prop where
  out_nonneg : 0 ≤ s.adderOut
  small : s.adderRef ≤ 200000001 ∨ s.adderOut ≤ 200000001
  tagRef : s.tagRef < 2 ^ tagBits
  tagOut : s.tagOut < 2 ^ tagBits

/-- A wrap detector adds at most one turn. -/
theorem turn_bounds (c : Prop) [Decidable c] (x : Int) :
    x ≤ x + (if c then 2 ^ tagBits else 0) ∧
      x + (if c then 2 ^ tagBits else 0) ≤ x + 4194304 := by
  split_ifs <;> simp [tagBits]

/-- Between adders that are close, and one of them small, no sum overflows. -/
theorem mpllSums_inI32 {s : SpllMainState} (h : AddersBounded s) (hpair : s.Paired)
    (hclose : |s.adderRef - s.adderOut| ≤ 1000000000) : ∀ v ∈ mpllSums s, InI32 v := by
  obtain ⟨hnonneg, hsmall, htagRef, htagOut⟩ := h
  obtain ⟨href, hout⟩ := hpair
  have hlow := (abs_le.mp hclose).1
  have hhigh := (abs_le.mp hclose).2
  have hstep := mpllShiftStep_bounds s
  simp only [tagBits] at htagRef htagOut
  have hrefSum : InI32 (if s.RefWraps then s.adderRef + 2 ^ tagBits else s.adderRef) := by
    simp only [InI32, tagBits]
    split_ifs <;> omega
  have houtSum : InI32 (if s.OutWraps then s.adderOut + 2 ^ tagBits else s.adderOut) := by
    simp only [InI32, tagBits]
    split_ifs <;> omega
  obtain ⟨hunwrapRef, hunwrapOut⟩ := mpllUnwrap_adders hrefSum houtSum
  have hrefTurn := turn_bounds s.RefWraps s.adderRef
  have houtTurn := turn_bounds s.OutWraps s.adderOut
  rw [← hunwrapRef] at hrefTurn
  rw [← hunwrapOut] at houtTurn
  obtain ⟨hrefBase, houtBase⟩ :=
    rebase_inI32 (s := mpllUnwrap s) (by unfold InI32; omega) (by unfold InI32; omega)
  have hshift : InI32 ((mpllRebase (mpllUnwrap s)).adderRef + mpllShiftStep s) := by
    have hrebased : (mpllRebase (mpllUnwrap s)).adderRef = (mpllUnwrap s).adderRef +
        if (mpllUnwrap s).Rebases then -mpllTagWraparound else 0 := by
      rw [mpllRebase_eq]
      exact ite_i32_eq hrefBase
    rw [hrebased]
    simp only [InI32, SpllMainState.Rebases, mpllTagWraparound]
    split_ifs <;> omega
  simp only [mpllSums, List.forall_mem_cons]
  refine ⟨hrefSum, houtSum, ?_, ?_, ?_, hrefBase, houtBase, hshift, by simp⟩
  all_goals
    simp only [InI32, mpllUnwrap_tagRef, mpllUnwrap_tagOut]
    omega

/-- A pair that overflows nowhere leaves the adders bounded: the rebase comes as soon as
both are large. -/
theorem pairDone_bounded_of_sums {s t : SpllMainState} (h : PairDone s t)
    (hbounded : AddersBounded s) (hsums : ∀ v ∈ mpllSums s, InI32 v) : AddersBounded t := by
  obtain ⟨href, hout⟩ := pairDone_exact h hsums
  simp only [mpllSums, List.forall_mem_cons] at hsums
  obtain ⟨hunwrapRef, hunwrapOut⟩ := mpllUnwrap_adders hsums.1 hsums.2.1
  have hstep := mpllShiftStep_bounds s
  have hnonneg := hbounded.out_nonneg
  have hsmall := hbounded.small
  have hrefTurn := turn_bounds s.RefWraps s.adderRef
  have houtTurn := turn_bounds s.OutWraps s.adderOut
  rw [← hunwrapRef] at hrefTurn href
  rw [← hunwrapOut] at houtTurn hout
  -- non-negative after the rebase, and small unless it takes off
  refine ⟨?_, ?_, by rw [h.tagRef]; decide, by rw [h.tagOut]; decide⟩
  all_goals
    rw [hout]
    try rw [href]
    simp only [SpllMainState.Rebases, mpllTagWraparound]
    split_ifs <;> omega

/-- So does every pair between adders that are close. -/
theorem pairDone_bounded {s t : SpllMainState} (h : PairDone s t) (hbounded : AddersBounded s)
    (hpair : s.Paired) (hclose : |s.adderRef - s.adderOut| ≤ 1000000000) : AddersBounded t :=
  pairDone_bounded_of_sums h hbounded (mpllSums_inI32 hbounded hpair hclose)

/-! ## The error of a pair -/

/-- The unwrapped adders of a pair differ by the turns it adds. -/
theorem mpllUnwrap_congr :
    (mpllUnwrap s).adderRef - (mpllUnwrap s).adderOut ≡
      s.adderRef - s.adderOut + 2 ^ tagBits * pairTurns s [ZMOD 2 ^ 32] := by
  have href : (mpllUnwrap s).adderRef ≡
      s.adderRef + (if s.RefWraps then 2 ^ tagBits else 0) [ZMOD 2 ^ 32] :=
    ite_i32_congr _ _ _
  have hout : (mpllUnwrap s).adderOut ≡
      s.adderOut + (if s.OutWraps then 2 ^ tagBits else 0) [ZMOD 2 ^ 32] :=
    ite_i32_congr _ _ _
  have hsum : s.adderRef + (if s.RefWraps then 2 ^ tagBits else 0) -
        (s.adderOut + (if s.OutWraps then 2 ^ tagBits else 0)) =
      s.adderRef - s.adderOut + 2 ^ tagBits * pairTurns s := by
    unfold pairTurns
    split_ifs <;> ring
  rw [← hsum]
  exact href.sub hout

/-- The sum that the error is made of, up to multiples of `2 ^ 32`. -/
theorem rawError_congr :
    i32 (i32 (i32 ((mpllUnwrap s).adderRef + s.tagRef) - (mpllUnwrap s).adderOut) - s.tagOut) ≡
      s.adderRef - s.adderOut + 2 ^ tagBits * pairTurns s + (s.tagRef - s.tagOut)
      [ZMOD 2 ^ 32] := by
  have hsums := ((i32_modEq ((mpllUnwrap s).adderRef + s.tagRef)).sub_right
    (mpllUnwrap s).adderOut)
  have houter := ((i32_modEq (i32 ((mpllUnwrap s).adderRef + s.tagRef) -
    (mpllUnwrap s).adderOut)).trans hsums).sub_right s.tagOut
  have hsplit : (mpllUnwrap s).adderRef + s.tagRef - (mpllUnwrap s).adderOut - s.tagOut =
      (mpllUnwrap s).adderRef - (mpllUnwrap s).adderOut + (s.tagRef - s.tagOut) := by ring
  rw [hsplit] at houter
  exact ((i32_modEq _).trans houter).trans ((mpllUnwrap_congr s).add_right _)

/-- While locked, the error is the signed residue of the sum: the turns, which are
multiples of `2 ^ hpllN`, are masked out. -/
theorem mpllError_locked (hlocked : s.ld.locked = true) {shift : Int}
    (h : s.adderRef - s.adderOut ≡ shift [ZMOD 2 ^ hpllN]) :
    IsSignedLow (hpllN - 1) (mpllError (mpllUnwrap s)) (s.tagRef - s.tagOut + shift) := by
  have herr : mpllError (mpllUnwrap s) = signedLow (hpllN - 1)
      (i32 (i32 (i32 ((mpllUnwrap s).adderRef + s.tagRef) - (mpllUnwrap s).adderOut) -
        s.tagOut)) := by
    have hlocked' : (mpllUnwrap s).ld.locked = true := hlocked
    simp only [mpllError, hlocked', if_true]
    rfl
  obtain ⟨hlow, hhigh, hcongr⟩ := signedLow_isSignedLow (hpllN - 1)
    (i32 (i32 (i32 ((mpllUnwrap s).adderRef + s.tagRef) - (mpllUnwrap s).adderOut) - s.tagOut))
  have hturns : (2 : Int) ^ tagBits * pairTurns s ≡ 0 [ZMOD 2 ^ hpllN] :=
    Int.modEq_zero_iff_dvd.mpr (Dvd.dvd.mul_right (by decide) _)
  have hraw := (rawError_congr s).of_dvd (by decide : (2 : Int) ^ hpllN ∣ 2 ^ 32)
  have hsum := (h.add hturns).add_right (s.tagRef - s.tagOut)
  rw [add_zero, add_comm shift] at hsum
  rw [herr]
  exact ⟨hlow, hhigh, hcongr.trans (hraw.trans hsum)⟩

/-- While unlocked and in range, the error is the sum itself. -/
theorem mpllError_unlocked (hlocked : s.ld.locked = false) (hsums : ∀ v ∈ mpllSums s, InI32 v) :
    mpllError (mpllUnwrap s) =
      s.adderRef - s.adderOut + 2 ^ tagBits * pairTurns s + (s.tagRef - s.tagOut) := by
  simp only [mpllSums, List.forall_mem_cons] at hsums
  obtain ⟨href, hout, hfirst, hsecond, hthird, -⟩ := hsums
  have hunwrapRef : (mpllUnwrap s).adderRef = s.adderRef + if s.RefWraps then 2 ^ tagBits else 0 :=
    ite_i32_eq href
  have hunwrapOut : (mpllUnwrap s).adderOut = s.adderOut + if s.OutWraps then 2 ^ tagBits else 0 :=
    ite_i32_eq hout
  have hlocked' : (mpllUnwrap s).ld.locked = false := hlocked
  simp only [mpllError, hlocked']
  rw [if_neg Bool.false_ne_true, i32_eq_self hfirst, i32_eq_self hsecond, i32_eq_self hthird,
    hunwrapRef, hunwrapOut]
  show _ + s.tagRef - _ - s.tagOut = _
  unfold pairTurns
  split_ifs <;> ring

end Pair

/-! ## Runs -/

/-- The event completes a pair while the PLL is locked. -/
def MpllRun.ShiftsAt (x : MpllRun) (e : MpllEvent) : Prop :=
  match e with
  | .tag tag source => (mpllLatch x.pll tag.toNat source).Paired ∧ x.pll.ld.locked = true
  | .setPhaseShift _ => False

instance (x : MpllRun) (e : MpllEvent) : Decidable (x.ShiftsAt e) := by
  cases e <;> unfold MpllRun.ShiftsAt <;> infer_instance

/-- The number of pairs completed while locked. -/
def lockedPairs : MpllRun → List MpllEvent → Nat
  | _, [] => 0
  | x, e :: es => (if x.ShiftsAt e then 1 else 0) + lockedPairs (x.step e) es

/-- The adders differ by what is accounted for, up to multiples of `2 ^ 32`. -/
def MpllRun.Congr (x : MpllRun) : Prop :=
  x.pll.adderRef - x.pll.adderOut ≡ x.accounted [ZMOD 2 ^ 32]

/-- The adders differ by what is accounted for. -/
def MpllRun.Exact (x : MpllRun) : Prop :=
  x.pll.adderRef - x.pll.adderOut = x.accounted

section Runs

variable (x : MpllRun) (tag : BitVec tagBits) (source : Int)

/-- An event that completes no pair leaves everything but the latched tags. -/
theorem step_unpaired (hpair : ¬ (mpllLatch x.pll tag.toNat source).Paired) :
    x.step (.tag tag source) = { x with pll := mpllLatch x.pll tag.toNat source } := by
  simp [MpllRun.step, hpair, mpllUpdate_unpaired hpair]

/-- A pair, after which the counters have the turns it added. -/
theorem step_paired (hpair : (mpllLatch x.pll tag.toNat source).Paired) :
    PairDone (mpllLatch x.pll tag.toNat source) (x.step (.tag tag source)).pll ∧
      (x.step (.tag tag source)).refTurns - (x.step (.tag tag source)).outTurns =
        x.refTurns - x.outTurns + pairTurns (mpllLatch x.pll tag.toNat source) := by
  refine ⟨?_, ?_⟩
  · simp only [MpllRun.step, mpllUpdate, hpair, if_true]
    exact mpllPairUpdate_done _
  · simp only [MpllRun.step, hpair, true_and, pairTurns]
    ring

/-- A pair adds its turns and the step of the phase shifter to what is accounted
for. -/
theorem accounted_paired (hpair : (mpllLatch x.pll tag.toNat source).Paired) :
    (x.step (.tag tag source)).accounted = x.accounted +
      (2 ^ tagBits * pairTurns (mpllLatch x.pll tag.toNat source) +
        mpllShiftStep (mpllLatch x.pll tag.toNat source)) := by
  obtain ⟨hdone, hturns⟩ := step_paired x tag source hpair
  have hshift : (mpllLatch x.pll tag.toNat source).phaseShiftCurrent =
    x.pll.phaseShiftCurrent := rfl
  unfold MpllRun.accounted
  rw [hturns, hdone.phaseShiftCurrent, hshift]
  ring

theorem congr_step (e : MpllEvent) (h : x.Congr) : (x.step e).Congr := by
  cases e with
  | setPhaseShift desiredShift => exact h
  | tag tag source =>
      by_cases hpair : (mpllLatch x.pll tag.toNat source).Paired
      · have hcongr := pairDone_congr (step_paired x tag source hpair).1
        rw [add_assoc] at hcongr
        unfold MpllRun.Congr
        rw [accounted_paired x tag source hpair]
        exact hcongr.trans (h.add_right _)
      · rw [step_unpaired x tag source hpair]
        exact h

/-- The run so far has neither overflowed nor left the adders large. -/
structure MpllRun.InRange : Prop where
  exact : x.Exact
  bounded : AddersBounded x.pll

theorem latch_bounded (h : AddersBounded x.pll) :
    AddersBounded (mpllLatch x.pll tag.toNat source) := by
  have htag : ((tag.toNat : Nat) : Int) < 2 ^ tagBits := by exact_mod_cast tag.isLt
  refine ⟨h.out_nonneg, h.small, ?_, ?_⟩
  · show (if source = x.pll.idRef then (tag.toNat : Int) else x.pll.tagRef) < 2 ^ tagBits
    split_ifs
    · exact htag
    · exact h.tagRef
  · show (if source = x.pll.idOut then (tag.toNat : Int) else x.pll.tagOut) < 2 ^ tagBits
    split_ifs
    · exact htag
    · exact h.tagOut

theorem inRange_step (e : MpllEvent) (h : x.InRange) (hclose : x.Close) :
    (x.step e).InRange := by
  cases e with
  | setPhaseShift desiredShift =>
      obtain ⟨hnonneg, hsmall, htagRef, htagOut⟩ := h.bounded
      exact ⟨h.exact, hnonneg, hsmall, htagRef, htagOut⟩
  | tag tag source =>
      have hlatched := latch_bounded x tag source h.bounded
      by_cases hpair : (mpllLatch x.pll tag.toNat source).Paired
      · have hdone := (step_paired x tag source hpair).1
        have hsums := mpllSums_inI32 hlatched hpair hclose
        refine ⟨?_, pairDone_bounded hdone hlatched hpair hclose⟩
        obtain ⟨href, hout⟩ := pairDone_exact hdone hsums
        have hexact : (mpllLatch x.pll tag.toNat source).adderRef -
            (mpllLatch x.pll tag.toNat source).adderOut = x.accounted := h.exact
        unfold MpllRun.Exact
        rw [accounted_paired x tag source hpair, href, hout, ← hexact]
        unfold pairTurns
        split_ifs <;> ring
      · rw [step_unpaired x tag source hpair]
        exact ⟨h.exact, hlatched⟩

/-- Both invariants hold after `mpll_start`. -/
theorem start_congr (s : SpllMainState) : (MpllRun.start s).Congr := by
  simp [MpllRun.Congr, MpllRun.accounted, MpllRun.start, mpllRestart]

theorem start_inRange (s : SpllMainState) : (MpllRun.start s).InRange := by
  refine ⟨?_, ?_⟩
  · simp [MpllRun.Exact, MpllRun.accounted, MpllRun.start, mpllRestart]
  · refine ⟨le_refl _, Or.inl ?_, ?_, ?_⟩
    · show (0 : Int) ≤ 200000001
      decide
    · show (-1 : Int) < 2 ^ tagBits
      decide
    · show (-1 : Int) < 2 ^ tagBits
      decide

/-- At all times the adders account for the turns and the phase shift, up to
multiples of `2 ^ 32`. -/
theorem adders_congr (s : SpllMainState) (es : List MpllEvent) :
    (run MpllRun.step (MpllRun.start s) es).Congr :=
  run_invariant MpllRun.Congr congr_step (start_congr s) es

/-- They do so exactly as long as they stay close to each other. -/
theorem inRange_run (s : SpllMainState) {es : List MpllEvent}
    (h : Along MpllRun.step (fun x _ => x.Close) (MpllRun.start s) es) :
    (run MpllRun.step (MpllRun.start s) es).InRange :=
  run_invariant_of_along MpllRun.InRange inRange_step (start_inRange s) h

/-- The error of a pair completed while locked. -/
theorem pairError_locked (h : x.Congr) (hlocked : x.pll.ld.locked = true) :
    IsSignedLow (hpllN - 1) (x.pll.pairError tag.toNat source)
      ((mpllLatch x.pll tag.toNat source).tagRef - (mpllLatch x.pll tag.toNat source).tagOut +
        x.pll.phaseShiftCurrent) := by
  apply mpllError_locked (mpllLatch x.pll tag.toNat source) hlocked
  have hturns : (2 : Int) ^ tagBits * (x.refTurns - x.outTurns) ≡ 0 [ZMOD 2 ^ hpllN] :=
    Int.modEq_zero_iff_dvd.mpr (Dvd.dvd.mul_right (by decide) _)
  have hcongr := h.of_dvd (by decide : (2 : Int) ^ hpllN ∣ 2 ^ 32)
  have hshift := hturns.add_right x.pll.phaseShiftCurrent
  rw [zero_add] at hshift
  exact hcongr.trans hshift

/-- The difference of the tags of a pair, unwrapped by the counted turns, in the
position the phase shifter has reached. -/
def MpllRun.unwrappedDifference (x : MpllRun) (tag : BitVec tagBits) (source : Int) : Int :=
  (2 ^ tagBits * (x.step (.tag tag source)).refTurns +
      (mpllLatch x.pll tag.toNat source).tagRef) -
    (2 ^ tagBits * (x.step (.tag tag source)).outTurns +
      (mpllLatch x.pll tag.toNat source).tagOut) +
    x.pll.phaseShiftCurrent

/-- With an exact account, the unwrapped difference is the sum of what the accumulators, the
turns of the pair and its tags contribute. -/
theorem unwrappedDifference_eq (h : x.Exact)
    (hpair : (mpllLatch x.pll tag.toNat source).Paired) :
    x.unwrappedDifference tag source =
      (mpllLatch x.pll tag.toNat source).adderRef - (mpllLatch x.pll tag.toNat source).adderOut +
        2 ^ tagBits * pairTurns (mpllLatch x.pll tag.toNat source) +
        ((mpllLatch x.pll tag.toNat source).tagRef -
          (mpllLatch x.pll tag.toNat source).tagOut) := by
  have hexact : (mpllLatch x.pll tag.toNat source).adderRef -
    (mpllLatch x.pll tag.toNat source).adderOut = x.accounted := h
  obtain ⟨-, hturns⟩ := step_paired x tag source hpair
  unfold MpllRun.unwrappedDifference
  rw [hexact, MpllRun.accounted]
  linear_combination (2 ^ tagBits : Int) * hturns

/-- The error of a pair completed while unlocked, when nothing overflows. -/
theorem pairError_eq (h : x.Exact) (hpair : (mpllLatch x.pll tag.toNat source).Paired)
    (hlocked : x.pll.ld.locked = false)
    (hsums : ∀ v ∈ mpllSums (mpllLatch x.pll tag.toNat source), InI32 v) :
    x.pll.pairError tag.toNat source = x.unwrappedDifference tag source := by
  rw [unwrappedDifference_eq x tag source h hpair]
  exact mpllError_unlocked (mpllLatch x.pll tag.toNat source) hlocked hsums

/-- Nothing does between adders that are close. -/
theorem pairError_unlocked (h : x.InRange) (hclose : x.Close)
    (hpair : (mpllLatch x.pll tag.toNat source).Paired) (hlocked : x.pll.ld.locked = false) :
    x.pll.pairError tag.toNat source = x.unwrappedDifference tag source :=
  pairError_eq x tag source h.exact hpair hlocked
    (mpllSums_inI32 (latch_bounded x tag source h.bounded) hpair hclose)

/-- The phase shift moves only with a pair completed while locked, and then by
one unit towards its target. -/
theorem phaseShift_step (e : MpllEvent) :
    (x.step e).pll.phaseShiftCurrent =
      x.pll.phaseShiftCurrent +
        if x.ShiftsAt e then Int.sign (x.pll.phaseShiftTarget - x.pll.phaseShiftCurrent)
        else 0 := by
  cases e with
  | setPhaseShift desiredShift =>
      rw [if_neg (by simp [MpllRun.ShiftsAt]), add_zero]
      rfl
  | tag tag source =>
      by_cases hpair : (mpllLatch x.pll tag.toNat source).Paired
      · have hdone := (step_paired x tag source hpair).1
        have hstep : mpllShiftStep (mpllLatch x.pll tag.toNat source) =
            if x.ShiftsAt (.tag tag source) then
              Int.sign (x.pll.phaseShiftTarget - x.pll.phaseShiftCurrent) else 0 := by
          show (if x.pll.ld.locked then _ else _) = _
          simp only [MpllRun.ShiftsAt, hpair, true_and]
          split_ifs with hlocked hbelow habove
          · rw [Int.sign_eq_one_of_pos (by exact sub_pos.mpr hbelow)]
          · rw [Int.sign_eq_neg_one_of_neg (by exact sub_neg.mpr habove)]
          · have hthere : x.pll.phaseShiftCurrent = x.pll.phaseShiftTarget :=
              le_antisymm (not_lt.mp habove) (not_lt.mp hbelow)
            rw [hthere, sub_self, Int.sign_zero]
          · rfl
        rw [hdone.phaseShiftCurrent, hstep]
        rfl
      · rw [step_unpaired x tag source hpair, if_neg (by simp [MpllRun.ShiftsAt, hpair]), add_zero]
        rfl

/-- A tag leaves the target alone. -/
theorem phaseShiftTarget_step :
    (x.step (.tag tag source)).pll.phaseShiftTarget = x.pll.phaseShiftTarget :=
  mpllUpdate_phaseShiftTarget _ _ _

/-- With a constant target, every pair completed while locked brings the phase
shift one unit closer, until it is there. -/
theorem phaseShift_run (es : List MpllEvent) (htags : ∀ e ∈ es, ∃ tag source, e = .tag tag source) :
    |x.pll.phaseShiftTarget - (run MpllRun.step x es).pll.phaseShiftCurrent| =
      max 0 (|x.pll.phaseShiftTarget - x.pll.phaseShiftCurrent| - lockedPairs x es) := by
  induction es generalizing x with
  | nil => simp [lockedPairs]
  | cons e es ih =>
      obtain ⟨tag, source, rfl⟩ := htags e (List.mem_cons_self ..)
      have hrest := ih (x.step (.tag tag source)) (fun e he => htags e (List.mem_cons_of_mem _ he))
      rw [phaseShiftTarget_step] at hrest
      have hstep := phaseShift_step x (.tag tag source)
      rw [run_cons, hrest, lockedPairs, hstep]
      by_cases hshifts : x.ShiftsAt (.tag tag source)
      · rw [if_pos hshifts, if_pos hshifts]
        rcases lt_trichotomy (x.pll.phaseShiftTarget - x.pll.phaseShiftCurrent) 0 with
          hbelow | hthere | habove
        · rw [Int.sign_eq_neg_one_of_neg hbelow]
          rw [abs_of_neg hbelow, abs_of_nonpos (by omega)]
          push_cast
          omega
        · rw [hthere, Int.sign_zero, add_zero, hthere, abs_zero]
          push_cast
          omega
        · rw [Int.sign_eq_one_of_pos habove]
          rw [abs_of_pos habove, abs_of_nonneg (by omega)]
          push_cast
          omega
      · rw [if_neg hshifts, if_neg hshifts, add_zero]
        push_cast
        rw [zero_add]

end Runs

/-- The phase error and the phase shifter over every run from `mpll_start`: the
adders account for the wraps and the phase shift modulo `2 ^ 32`; the error of a
pair is the signed residue of `r - o + phase_shift_current` while locked; as long
as the adders are within `1000000000` of each other nothing overflows, the
account is exact, and the unlocked error is the unwrapped difference; and the
phase shift moves to its target by one unit per pair completed while locked. -/
theorem mpll_phase_error (s : SpllMainState) (es : List MpllEvent) :
    let x := run MpllRun.step (MpllRun.start s) es
    (x.Congr ∧
      (Along MpllRun.step (fun y _ => y.Close) (MpllRun.start s) es → x.Exact)) ∧
    (∀ tag source, (mpllLatch x.pll tag.toNat source).Paired →
      let latched := mpllLatch x.pll tag.toNat source
      let err := x.pll.pairError tag.toNat source
      (mpllUpdate x.pll tag.toNat source).1.pi = (piUpdate x.pll.pi err).1 ∧
      (mpllUpdate x.pll tag.toNat source).2.1 =
        some (dacMainW (piUpdate x.pll.pi err).2 x.pll.dacIndex) ∧
      (x.pll.ld.locked = true →
        ∀ e, IsSignedLow (hpllN - 1) e
            (latched.tagRef - latched.tagOut + x.pll.phaseShiftCurrent) ↔ e = err) ∧
      (Along MpllRun.step (fun y _ => y.Close) (MpllRun.start s) es → x.Close →
        (∀ v ∈ mpllSums latched, InI32 v) ∧
        (x.pll.ld.locked = false → err = x.unwrappedDifference tag source))) ∧
    (∀ e, (x.step e).pll.phaseShiftCurrent = x.pll.phaseShiftCurrent +
      if x.ShiftsAt e then Int.sign (x.pll.phaseShiftTarget - x.pll.phaseShiftCurrent) else 0) ∧
    (∀ fs, (∀ e ∈ fs, ∃ tag source, e = MpllEvent.tag tag source) →
      ((run MpllRun.step x fs).pll.phaseShiftCurrent = x.pll.phaseShiftTarget ↔
        |x.pll.phaseShiftTarget - x.pll.phaseShiftCurrent| ≤ lockedPairs x fs)) := by
  intro x
  have hcongr : x.Congr := adders_congr s es
  refine ⟨⟨hcongr, fun halong => (inRange_run s halong).exact⟩, ?_, phaseShift_step x, ?_⟩
  -- the error of a pair, locked and unlocked
  · intro tag source hpair latched err
    obtain ⟨hpi, hdac⟩ := mpllUpdate_passes x.pll tag.toNat source hpair
    refine ⟨hpi, hdac, ?_, ?_⟩
    · intro hlocked e
      have herr := pairError_locked x tag source hcongr hlocked
      constructor
      · intro he
        exact he.unique herr rfl
      · rintro rfl
        exact herr
    · intro halong hclose
      have hrange := inRange_run s halong
      refine ⟨mpllSums_inI32 (latch_bounded x tag source hrange.bounded) hpair hclose, ?_⟩
      exact pairError_unlocked x tag source hrange hclose hpair
  -- the distance to the target goes down by one a pair, and stops at zero
  · intro fs htags
    have hdistance := phaseShift_run x fs htags
    constructor
    · intro hthere
      rw [hthere, sub_self, abs_zero] at hdistance
      have hmax := le_max_right 0 (|x.pll.phaseShiftTarget - x.pll.phaseShiftCurrent| -
        (lockedPairs x fs : Int))
      omega
    · intro hcount
      rw [max_eq_left (by omega), abs_eq_zero] at hdistance
      omega

/-! ## Where the adders overflow -/

/-- A reference whose tag wraps once every two pairs, against an output that
stands still. -/
def refTurning (n : Nat) : List MpllEvent :=
  (List.range n).flatMap fun _ => [.tag 1 0, .tag 0 1, .tag 0 0, .tag 0 1]

/-- The reference has turned `n` times, and its last tag was `d`. -/
structure RefTurned (d n : Int) (x : MpllRun) : Prop where
  ids : x.pll.idRef = 0 ∧ x.pll.idOut = 1
  tags : x.pll.tagRef = -1 ∧ x.pll.tagOut = -1
  tagRefD : x.pll.tagRefD = d
  tagOutD : x.pll.tagOutD ≤ 0
  shift : x.pll.phaseShiftTarget = 0 ∧ x.pll.phaseShiftCurrent = 0
  adderRef : InI32 x.pll.adderRef
  adderOut : x.pll.adderOut = 0
  turns : x.refTurns - x.outTurns = n

/-- One pair with the output tag zero. -/
theorem refTurned_pair {d n : Int} {x : MpllRun} (h : RefTurned d n x) (r : BitVec tagBits) :
    RefTurned r.toNat (n + if 0 ≤ d ∧ (r.toNat : Int) < d then 1 else 0)
      (run MpllRun.step x [.tag r 0, .tag 0 1]) := by
  obtain ⟨⟨hidRef, hidOut⟩, ⟨htagRef, htagOut⟩, htagRefD, htagOutD, ⟨htarget, hcurrent⟩, href,
    hout, hturns⟩ := h
  have hfirst : ¬ (mpllLatch x.pll r.toNat 0).Paired := by
    simp [SpllMainState.Paired, mpllLatch, hidOut, htagOut]
  rw [run_cons, run_cons, run_nil, step_unpaired x r 0 hfirst]
  generalize hy : ({ x with pll := mpllLatch x.pll r.toNat 0 } : MpllRun) = y
  have hpair : (mpllLatch y.pll (0 : BitVec tagBits).toNat 1).Paired := by
    simp [← hy, SpllMainState.Paired, mpllLatch, hidRef, hidOut]
  obtain ⟨hdone, hturn⟩ := step_paired y 0 1 hpair
  have hlatched : mpllLatch y.pll (0 : BitVec tagBits).toNat 1 =
      { x.pll with tagRef := r.toNat, tagOut := 0 } := by
    simp [← hy, mpllLatch, hidRef, hidOut]
  rw [hlatched] at hdone hturn
  -- no shift, and no rebase: the output adder stays zero
  have hrest : mpllShiftStep { x.pll with tagRef := (r.toNat : Int), tagOut := 0 } = 0 := by
    simp [mpllShiftStep, htarget, hcurrent]
  have hsteady : ¬ (mpllUnwrap { x.pll with tagRef := (r.toNat : Int), tagOut := 0 }).Rebases := by
    have hkeep : ¬ 0 < x.pll.tagOutD := by omega
    simp [SpllMainState.Rebases, mpllUnwrap, hout, hkeep, mpllTagWraparound]
  have hrefAdder := hdone.adderRef
  have houtAdder := hdone.adderOut
  simp only [hrest, mpllRebase_eq, hsteady, if_true, if_false] at hrefAdder houtAdder
  have hidRef' : (y.step (.tag 0 1)).pll.idRef = y.pll.idRef := (mpllUpdate_config _ _ _).1
  have hidOut' : (y.step (.tag 0 1)).pll.idOut = y.pll.idOut := (mpllUpdate_config _ _ _).2.1
  have hyTurns : y.refTurns - y.outTurns = n := by
    rw [← hy]
    exact hturns
  refine ⟨⟨?_, ?_⟩, ⟨hdone.tagRef, hdone.tagOut⟩, hdone.tagRefD, ?_, ⟨?_, ?_⟩, ?_, ?_, ?_⟩
  · rw [hidRef', ← hy]
    exact hidRef
  · rw [hidOut', ← hy]
    exact hidOut
  · rw [hdone.tagOutD]
  · rw [hdone.phaseShiftTarget]
    exact htarget
  · rw [hdone.phaseShiftCurrent, hrest, add_zero]
    exact hcurrent
  · rw [hrefAdder]
    simp only [mpllUnwrap]
    split_ifs
    · exact i32_inI32 _
    · exact href
  · rw [houtAdder]
    have hkeep : ¬ 0 < x.pll.tagOutD := by omega
    simp [mpllUnwrap, hkeep, hout]
  · have hkeep : ¬ 0 < x.pll.tagOutD := by omega
    rw [hturn, hyTurns]
    simp [pairTurns, SpllMainState.RefWraps, SpllMainState.OutWraps, htagRefD, hkeep]

/-- `2 ^ 9` turns of the reference bring its adder to `2 ^ 31`, which an `int` does
not hold: the account is exact only modulo `2 ^ 32`. -/
theorem adders_overflow :
    ¬ (run MpllRun.step (MpllRun.start { idRef := 0, idOut := 1 }) (refTurning 512)).Exact := by
  have hstart : ∃ d ≤ 0, RefTurned d (0 : Nat) (MpllRun.start { idRef := 0, idOut := 1 }) :=
    ⟨-1, by decide, ⟨rfl, rfl⟩, ⟨rfl, rfl⟩, rfl, by decide, ⟨rfl, rfl⟩, by decide, rfl, rfl⟩
  obtain ⟨d, -, hturned⟩ := run_blocks MpllRun.step (fun n x => ∃ d ≤ 0, RefTurned d (n : Nat) x)
    (fun _ => [.tag 1 0, .tag 0 1, .tag 0 0, .tag 0 1]) 512 (fun n _ x hstage => by
      obtain ⟨d, hd, hx⟩ := hstage
      have hfirst := refTurned_pair hx 1
      have hsecond := refTurned_pair hfirst 0
      rw [if_neg (by simp; omega), add_zero] at hsecond
      exact ⟨0, le_refl 0, by exact_mod_cast hsecond⟩) hstart
  intro hexact
  unfold MpllRun.Exact MpllRun.accounted at hexact
  have hrange := hturned.adderRef
  rw [show refTurning 512 = (List.range 512).flatMap
      (fun _ => [.tag 1 0, .tag 0 1, .tag 0 0, .tag 0 1]) from rfl] at hexact
  rw [hturned.turns, hturned.adderOut, hturned.shift.2] at hexact
  unfold InI32 at hrange
  simp only [tagBits] at hexact
  omega

end Softpll
end WrpcSw
