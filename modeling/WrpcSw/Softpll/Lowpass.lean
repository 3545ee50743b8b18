import WrpcSw.Lib.Rounding
import WrpcSw.Softpll.ExternalPhase
import WrpcSw.Softpll.Regulator

/-!
# The low-pass filters of the external PLL

A filter moves its output by a fraction of the distance to the input, rounded by two
shifts.  In exact integers it never leaves the interval of its inputs, whatever the
sign of the distance and for every fraction up to one.

The two filters of the external PLL get the clamped output of its regulator.  That
interval is small enough for every product, holds no value that reads as an empty
filter, and fits the DAC.

* `lowpassUpdateExact_mem` — one sample of the exact filter.
* `filtersHold_step` — both filters stay in the range of the regulator.
* `lowpass_hull` — the exact filter over every run, and what it means for
  `external_update`.
-/

namespace WrpcSw
namespace Softpll

open CInt Run Rounding

/-! ## The filter -/

/-- `scaled` in exact integers. -/
def lowpassScaled (lp : SpllLowpass) (x : Int) : Int := (lp.alpha * (x - lp.yD)) >>> (15 : Nat)

/-- The output of a filter that is not empty, in exact integers. -/
def lowpassOutput (lp : SpllLowpass) (x : Int) : Int :=
  lp.yD + lowpassScaled lp x >>> (1 : Nat) + lowpassScaled lp x % 2

/-- `lowpass_update` in exact integers. -/
def lowpassUpdateExact (lp : SpllLowpass) (x : Int) : SpllLowpass × Int :=
  if lp.yD = lowpassEmpty then ({ lp with yD := x }, x)
  else ({ lp with yD := lowpassOutput lp x }, lowpassOutput lp x)

/-- The exact results of the operations of one sample. -/
def lowpassSums (lp : SpllLowpass) (x : Int) : List Int :=
  [x - lp.yD,
    lp.alpha * (x - lp.yD),
    lp.yD + lowpassScaled lp x >>> (1 : Nat),
    lowpassOutput lp x]

/-- Where no operation overflows, the wrapping filter is the exact one. -/
theorem lowpassUpdate_eq_exact {lp : SpllLowpass} {x : Int}
    (hfits : lp.yD ≠ lowpassEmpty → ∀ v ∈ lowpassSums lp x, InI32 v) :
    lowpassUpdate lp x = lowpassUpdateExact lp x := by
  unfold lowpassUpdate lowpassUpdateExact
  by_cases hempty : lp.yD = lowpassEmpty
  · rw [if_pos hempty, if_pos hempty]
  · have hsums := hfits hempty
    simp only [lowpassSums, List.forall_mem_cons] at hsums
    obtain ⟨hdistance, hproduct, hhalf, houtput, -⟩ := hsums
    unfold lowpassOutput lowpassScaled at houtput
    unfold lowpassScaled at hhalf
    rw [if_neg hempty, if_neg hempty, i32_eq_self hdistance, i32_eq_self hproduct]
    dsimp only
    rw [i32_eq_self hhalf, i32_eq_self houtput]
    rfl

/-- The two shifts move the output by a rounded part of the distance. -/
theorem lowpassOutput_eq (lp : SpllLowpass) (x : Int) :
    lowpassOutput lp x = lp.yD + roundedPart lp.alpha 15 (x - lp.yD) := by
  unfold lowpassOutput lowpassScaled roundedPart
  rw [add_assoc, half_add_low, Int.shiftRight_eq_div_pow]
  rfl

/-- A filter with the weight `alpha` that is empty, or whose output is in an interval. -/
structure SpllLowpass.Holds (alpha lo hi : Int) (lp : SpllLowpass) : Prop where
  alpha : lp.alpha = alpha
  inside : lp.yD = lowpassEmpty ∨ lp.yD ∈ Set.Icc lo hi

section Filter

variable {alpha lo hi : Int} {lp : SpllLowpass} {x : Int}

theorem lowpassInit_holds (alpha lo hi : Int) : (lowpassInit alpha).Holds alpha lo hi :=
  ⟨rfl, Or.inl rfl⟩

/-- The exact filter stays between its inputs. -/
theorem lowpassUpdateExact_mem (halpha : 0 ≤ alpha) (halpha' : alpha ≤ 2 ^ 16)
    (h : lp.Holds alpha lo hi) (hx : x ∈ Set.Icc lo hi) :
    (lowpassUpdateExact lp x).2 ∈ Set.Icc lo hi ∧
      (lowpassUpdateExact lp x).1 = { lp with yD := (lowpassUpdateExact lp x).2 } := by
  unfold lowpassUpdateExact
  by_cases hempty : lp.yD = lowpassEmpty
  · rw [if_pos hempty]
    exact ⟨hx, rfl⟩
  · have hinside := h.inside.resolve_left hempty
    rw [if_neg hempty]
    refine ⟨?_, rfl⟩
    dsimp only
    rw [lowpassOutput_eq, h.alpha]
    exact add_roundedPart_mem_Icc halpha halpha' hx hinside

/-- It is not empty after its first sample. -/
theorem lowpassUpdateExact_holds (halpha : 0 ≤ alpha) (halpha' : alpha ≤ 2 ^ 16)
    (h : lp.Holds alpha lo hi) (hx : x ∈ Set.Icc lo hi) :
    (lowpassUpdateExact lp x).1.Holds alpha lo hi ∧
      (lowpassUpdateExact lp x).1.yD ∈ Set.Icc lo hi := by
  obtain ⟨hout, hnext⟩ := lowpassUpdateExact_mem halpha halpha' h hx
  rw [hnext]
  exact ⟨⟨h.alpha, Or.inr hout⟩, hout⟩

end Filter

/-- One sample in exact integers, the state alone. -/
def lowpassStepExact (lp : SpllLowpass) (x : Int) : SpllLowpass := (lowpassUpdateExact lp x).1

/-! ## The filters of the external PLL -/

/-- The range of the regulator of the external PLL. -/
def externalRange : Set Int := Set.Icc 5 65531

/-- In that range, a filter of the external PLL overflows nowhere. -/
theorem lowpassSums_inI32 {alpha : Int} (halpha : 0 ≤ alpha) (halpha' : alpha ≤ 4000)
    {lp : SpllLowpass} (h : lp.Holds alpha 5 65531) {x : Int} (hx : x ∈ externalRange)
    (hempty : lp.yD ≠ lowpassEmpty) : ∀ v ∈ lowpassSums lp x, InI32 v := by
  have hinside := h.inside.resolve_left hempty
  have hout : lowpassOutput lp x ∈ Set.Icc 5 65531 := by
    rw [lowpassOutput_eq, h.alpha]
    exact add_roundedPart_mem_Icc halpha (by omega) hx hinside
  obtain ⟨hlow, hhigh⟩ := hx
  obtain ⟨hlow', hhigh'⟩ := hinside
  obtain ⟨houtLow, houtHigh⟩ := hout
  have hproduct : |alpha * (x - lp.yD)| ≤ 4000 * 65526 := by
    rw [abs_mul, abs_of_nonneg halpha]
    exact mul_le_mul halpha' (abs_le.mpr ⟨by omega, by omega⟩) (abs_nonneg _) (by decide)
  have hproduct' := abs_le.mp hproduct
  simp only [lowpassSums, List.forall_mem_cons, h.alpha, InI32]
  unfold lowpassOutput at houtLow houtHigh ⊢
  refine ⟨?_, ?_, ?_, ?_, by simp⟩ <;> omega

/-- The external PLL with its regulator and its filters in range. -/
structure FiltersHold (s : SpllExternalState) : Prop where
  yMin : s.pi.yMin = 5
  yMax : s.pi.yMax = 65531
  short : s.lpShort.Holds 4000 5 65531
  long : s.lpLong.Holds 300 5 65531

theorem externalInit_filtersHold (s : SpllExternalState) (extRef : Int) (realignClocks : Bool) :
    FiltersHold (externalInit s extRef realignClocks) :=
  ⟨rfl, rfl, lowpassInit_holds .., lowpassInit_holds ..⟩

/-- The calls on an external PLL between two initialisations. -/
inductive ExternalEvent
  | update (call : ExternalCall)
  | start (regs : ExternalRegs)

def externalStep (board : Board) (s : SpllExternalState) : ExternalEvent → SpllExternalState
  | .update call => (externalUpdate board call.hw s call.regs call.tag call.source).1
  | .start regs => (externalStart s regs).1

/-- What a tag of the detector makes of the filters: their input is in the range of the
regulator, the products fit, the filters are the exact ones, none of them is left empty, and
the word for the DAC is the output of the short one, or the stand-in without a reference. -/
structure FiltersExact (board : Board) (s : SpllExternalState) (call : ExternalCall) : Prop where
  input : (externalPi s call.tag).2 ∈ externalRange
  product : ∀ lp ∈ [s.lpShort, s.lpLong], lp.yD ≠ lowpassEmpty →
    InI32 (lp.alpha * ((externalPi s call.tag).2 - lp.yD))
  exact : ∀ lp ∈ [s.lpShort, s.lpLong], lowpassUpdate lp (externalPi s call.tag).2 =
    lowpassUpdateExact lp (externalPi s call.tag).2
  filled : (externalStep board s (.update call)).lpShort.yD ≠ lowpassEmpty ∧
    (externalStep board s (.update call)).lpLong.yD ≠ lowpassEmpty
  dac : ∃ word, (externalUpdate board call.hw s call.regs call.tag call.source).2.2.1 = some word ∧
    word.dacSel = 0 ∧
    (word.value.toNat : Int) =
      if call.hw.extRefPresent then (lowpassUpdate s.lpShort (externalPi s call.tag).2).2
      else 32000

/-- A word of the range reaches the DAC as it is. -/
theorem dacMainW_value {y : Int} (hlow : 0 ≤ y) (hhigh : y < 65536) :
    ((dacMainW y 0).value.toNat : Int) = y := by
  unfold dacMainW
  rw [BitVec.toNat_ofInt]
  omega

section Step

variable (board : Board) {s : SpllExternalState} (h : FiltersHold s)

include h

theorem externalPi_mem (tag : Int) : (externalPi s tag).2 ∈ externalRange := by
  have hrange : s.pi.yMin ≤ s.pi.yMax := by
    rw [h.yMin, h.yMax]
    decide
  have hout := piUpdate_output hrange (i32 (externalPhase s tag - s.phErrD0))
  rwa [h.yMin, h.yMax] at hout

/-- Both filters are the exact ones, and take their input. -/
theorem lowpassUpdate_external (tag : Int) :
    (lowpassUpdate s.lpShort (externalPi s tag).2 =
        lowpassUpdateExact s.lpShort (externalPi s tag).2 ∧
      lowpassUpdate s.lpLong (externalPi s tag).2 =
        lowpassUpdateExact s.lpLong (externalPi s tag).2) := by
  have hinput := externalPi_mem h tag
  constructor
  · exact lowpassUpdate_eq_exact (lowpassSums_inI32 (by decide) (by decide) h.short hinput)
  · exact lowpassUpdate_eq_exact (lowpassSums_inI32 (by decide) (by decide) h.long hinput)

/-- Whatever the call, regulator and filters stay in range. -/
theorem filtersHold_step (e : ExternalEvent) : FiltersHold (externalStep board s e) := by
  cases e with
  | start regs => exact ⟨h.yMin, h.yMax, h.short, h.long⟩
  | update call =>
      unfold externalStep
      dsimp only
      by_cases hsource : call.source = s.refSrc
      · rw [hsource]
        have hinput := externalPi_mem h call.tag
        obtain ⟨hshort, hlong⟩ := lowpassUpdate_external h call.tag
        have hdone := (externalUpdate_done board call.hw s call.regs call.tag).1
        obtain ⟨hmin, hmax⟩ := piUpdate_limits s.pi (i32 (externalPhase s call.tag - s.phErrD0))
        refine ⟨?_, ?_, ?_, ?_⟩
        · rw [hdone.pi]
          exact hmin.trans h.yMin
        · rw [hdone.pi]
          exact hmax.trans h.yMax
        · rw [hdone.lpShort, hshort]
          exact (lowpassUpdateExact_holds (by decide) (by decide) h.short hinput).1
        · rw [hdone.lpLong, hlong]
          exact (lowpassUpdateExact_holds (by decide) (by decide) h.long hinput).1
      · rw [externalUpdate_other board call.hw s call.regs hsource]
        exact h

theorem filtersExact_of_hold (call : ExternalCall) (hsource : call.source = s.refSrc) :
    FiltersExact board s call := by
  have hinput := externalPi_mem h call.tag
  obtain ⟨hshort, hlong⟩ := lowpassUpdate_external h call.tag
  obtain ⟨hdone, hword⟩ := externalUpdate_done board call.hw s call.regs call.tag
  have hshortIn := lowpassUpdateExact_mem (by decide) (by decide) h.short hinput
  have hnonempty : ∀ y ∈ externalRange, y ≠ lowpassEmpty := by
    rintro y ⟨hlow, -⟩ rfl
    exact absurd hlow (by decide)
  refine ⟨hinput, ?_, ?_, ⟨?_, ?_⟩, ?_⟩
  · simp only [List.forall_mem_cons]
    refine ⟨fun hempty => ?_, fun hempty => ?_, by simp⟩
    · exact lowpassSums_inI32 (by decide) (by decide) h.short hinput hempty _
        (by simp [lowpassSums])
    · exact lowpassSums_inI32 (by decide) (by decide) h.long hinput hempty _
        (by simp [lowpassSums])
  · simp only [List.forall_mem_cons]
    exact ⟨hshort, hlong, by simp⟩
  · simp only [externalStep, hsource, hdone.lpShort, hshort]
    exact hnonempty _ (lowpassUpdateExact_holds (by decide) (by decide) h.short hinput).2
  · simp only [externalStep, hsource, hdone.lpLong, hlong]
    exact hnonempty _ (lowpassUpdateExact_holds (by decide) (by decide) h.long hinput).2
  · refine ⟨dacMainW (externalOutput call.hw s call.tag) 0, ?_, rfl, ?_⟩
    · rw [hsource, hword]
    · unfold externalOutput
      rw [hshort]
      obtain ⟨hlow, hhigh⟩ := hshortIn.1
      split_ifs
      · exact dacMainW_value (by omega) (by omega)
      · exact dacMainW_value (by decide) (by decide)

end Step

/-- The tag of an event gives both filters what they are made for. -/
def ExternalFilters (board : Board) (s : SpllExternalState) (e : ExternalEvent) : Prop :=
  ∀ call, e = .update call → call.source = s.refSrc → FiltersExact board s call

/-- The word for the DAC is the output of the short filter. -/
def DacIsFilterOutput (board : Board) (s : SpllExternalState) (e : ExternalEvent) : Prop :=
  ∀ call, e = .update call → call.source = s.refSrc →
    ∀ word ∈ (externalUpdate board call.hw s call.regs call.tag call.source).2.2.1,
      (word.value.toNat : Int) = (lowpassUpdate s.lpShort (externalPi s call.tag).2).2

/-- From an empty filter on, every output of the exact filter is in the interval of the
inputs, and none leaves the filter empty.  So, from its initialisation on, the filters of the
external PLL are the exact ones, and with a reference the DAC gets the output of the short
one. -/
theorem lowpass_hull {alpha lo hi : Int} (halpha : 0 ≤ alpha) (halpha' : alpha ≤ 2 ^ 16)
    (hlo : -2147483648 < lo) (xs : List Int) (hxs : ∀ x ∈ xs, x ∈ Set.Icc lo hi) (board : Board)
    (s : SpllExternalState) (extRef : Int) (realignClocks : Bool) (es : List ExternalEvent) :
    Along lowpassStepExact (fun lp x => (lowpassUpdateExact lp x).2 ∈ Set.Icc lo hi ∧
        (lowpassStepExact lp x).yD ≠ lowpassEmpty) (lowpassInit alpha) xs ∧
      Along (externalStep board) (ExternalFilters board)
        (externalInit s extRef realignClocks) es := by
  constructor
  · refine along_of_invariant_on (SpllLowpass.Holds alpha lo hi) (· ∈ Set.Icc lo hi)
      (fun lp x h hx => (lowpassUpdateExact_holds halpha halpha' h hx).1) ?_
      (lowpassInit_holds alpha lo hi) xs hxs
    intro lp x h hx
    have hinside := (lowpassUpdateExact_holds halpha halpha' h hx).2
    refine ⟨(lowpassUpdateExact_mem halpha halpha' h hx).1, fun hempty => ?_⟩
    unfold lowpassStepExact at hempty
    rw [hempty] at hinside
    exact absurd hinside.1 (not_le.mpr hlo)
  · exact along_of_invariant FiltersHold (fun s e h => filtersHold_step board h e)
      (fun s e h call _ hsource => filtersExact_of_hold board h call hsource)
      (externalInit_filtersHold s extRef realignClocks) es

/-- Both signs of the distance, odd halves and the largest weight. -/
theorem lowpass_hull_odd :
    Along lowpassStepExact (fun lp x => (lowpassUpdateExact lp x).2 ∈ Set.Icc (-7) 12 ∧
        (lowpassStepExact lp x).yD ≠ lowpassEmpty) (lowpassInit 40001) [-7, 12, -6, 5] ∧
      Along (externalStep Board.wrc) (ExternalFilters Board.wrc) (externalInit {} 2 true)
        [.start ⟨{}, {}⟩, .update ⟨{}, ⟨{}, {}⟩, 77, 2⟩] :=
  lowpass_hull (by decide) (by decide) (by decide) [-7, 12, -6, 5] (by simp) Board.wrc {} 2 true
    [.start ⟨{}, {}⟩, .update ⟨{}, ⟨{}, {}⟩, 77, 2⟩]

/-- Without a reference, the DAC gets the stand-in instead of the output of the filter. -/
theorem dac_without_reference :
    ¬ ∀ (board : Board) (s : SpllExternalState) (extRef : Int) (realignClocks : Bool)
      (es : List ExternalEvent), Along (externalStep board) (DacIsFilterOutput board)
        (externalInit s extRef realignClocks) es := by
  intro h
  have hfirst := h Board.wrc {} 2 false [.update ⟨{}, ⟨{}, {}⟩, 0, 2⟩]
  have hvalue := hfirst.1 _ rfl rfl ⟨32000, 0⟩ (by decide)
  exact absurd hvalue (by decide)

end Softpll
end WrpcSw
