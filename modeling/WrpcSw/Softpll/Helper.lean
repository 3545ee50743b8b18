import WrpcSw.Softpll.Common

/-!
# The helper PLL (`softpll/spll_helper.c`)

The helper PLL compares the tags of its reference channel with a setpoint that
advances by `2 ^ hpllN` per tag.  Tags wrap at `2 ^ tagBits`, and the two
accumulators are rebased by `helperTagWraparound` whenever both have passed it.

The ideal loop has neither: its input is an unbounded nondecreasing sequence
`T`, and its error at tag `n + 1` is `T (n + 1) - T 0 - n * 2 ^ hpllN`.  The
invariant `HelperTracks` says that the accumulators are those of the ideal loop
less one common offset, and that one of the two is small; the exactness of the
error and all the 32-bit bounds follow from it, for runs of any length.
-/

namespace WrpcSw
namespace Softpll

open CInt

def helperTagWraparound : Int := 100000000

/-- Maximum absolute value of the phase error. -/
def helperErrorClamp : Int := 150000

/-- State of the helper PLL (`struct spll_helper_state`). -/
structure SpllHelperState where
  pAdder : Int := 0
  pSetpoint : Int := 0
  tagD0 : Int := 0
  refSrc : Int := 0
  pi : SpllPi := {}
  ld : SpllLockDet := {}
deriving DecidableEq, Repr

def helperInit (s : SpllHelperState) (refChannel : Int) : SpllHelperState :=
  { s with
    pi := { s.pi with
      yMin := 5
      yMax := 2 ^ dacBits - 5
      kp := 150
      ki := 2
      antiWindup := true }
    ld := { s.ld with threshold := 200, lockSamples := 10000, delockSamples := 100 }
    refSrc := refChannel }

/-- The tag wrap detector: a tag below its predecessor adds one turn. -/
def helperUnwrap (s : SpllHelperState) (tag : Int) : SpllHelperState :=
  if s.tagD0 > tag then { s with pAdder := i32 (s.pAdder + 2 ^ tagBits) } else s

/-- The error before clamping. -/
def helperError (s : SpllHelperState) (tag : Int) : Int :=
  i32 (i32 (tag + s.pAdder) - s.pSetpoint)

def helperClamp (err : Int) : Int :=
  let err := if err < -helperErrorClamp then -helperErrorClamp else err
  if err > helperErrorClamp then helperErrorClamp else err

/-- The rebase of both accumulators. -/
def helperRebase (s : SpllHelperState) (tag : Int) : SpllHelperState :=
  if i32 (tag + s.pAdder) > helperTagWraparound ∧ s.pSetpoint > helperTagWraparound then
    { s with
      pAdder := i32 (s.pAdder - helperTagWraparound)
      pSetpoint := i32 (s.pSetpoint - helperTagWraparound) }
  else s

/-- One tag: the new state, the value written to `DAC_HPLL`, if any, and the
return value. -/
def helperUpdate (s : SpllHelperState) (tag source : Int) :
    SpllHelperState × Option Int × Int :=
  if source = s.refSrc then
    if s.tagD0 < 0 then
      ({ s with pSetpoint := tag, tagD0 := tag }, none, spllLocking)
    else
      let unwrapped := helperUnwrap s tag
      let err := helperClamp (helperError unwrapped tag)
      let rebased := helperRebase unwrapped tag
      let pi := piUpdate s.pi err
      let ld := ldUpdate s.ld err
      ({ rebased with
          pSetpoint := i32 (rebased.pSetpoint + 2 ^ hpllN)
          tagD0 := tag
          pi := pi.1
          ld := ld.1 }, some pi.2, if ld.2 ≠ 0 then spllLocked else spllLocking)
  else (s, none, spllLocking)

def helperStart (nChanRef : Nat) (s : SpllHelperState) (regs : SpllWB) :
    SpllHelperState × SpllWB :=
  ({ s with
      pi := piInit { s.pi with bias := s.pi.yMax }
      ld := ldInit s.ld
      pSetpoint := 0
      pAdder := 0
      tagD0 := -1 }, spllEnableTagger nChanRef regs s.refSrc true)

/-! ## Frame lemmas -/

@[simp] theorem helperUnwrap_tagD0 (s : SpllHelperState) (tag : Int) :
    (helperUnwrap s tag).tagD0 = s.tagD0 := by
  unfold helperUnwrap
  split <;> rfl

@[simp] theorem helperUnwrap_pSetpoint (s : SpllHelperState) (tag : Int) :
    (helperUnwrap s tag).pSetpoint = s.pSetpoint := by
  unfold helperUnwrap
  split <;> rfl

theorem helperUpdate_refSrc (s : SpllHelperState) (tag source : Int) :
    (helperUpdate s tag source).1.refSrc = s.refSrc := by
  unfold helperUpdate helperRebase helperUnwrap
  dsimp only
  split_ifs <;> rfl

/-- A tag of another channel is ignored. -/
theorem helperUpdate_other {s : SpllHelperState} {tag source : Int}
    (h : source ≠ s.refSrc) : helperUpdate s tag source = (s, none, spllLocking) := by
  simp [helperUpdate, h]

/-- The first tag after a start only latches. -/
theorem helperUpdate_first {s : SpllHelperState} {tag : Int} (h : s.tagD0 < 0) :
    (helperUpdate s tag s.refSrc).1 = { s with pSetpoint := tag, tagD0 := tag } := by
  simp [helperUpdate, h]

/-- The lock detector sees the clamped error of every later tag. -/
theorem helperUpdate_ld {s : SpllHelperState} {tag : Int} (h : 0 ≤ s.tagD0) :
    (helperUpdate s tag s.refSrc).1.ld =
      (ldUpdate s.ld (helperClamp (helperError (helperUnwrap s tag) tag))).1 := by
  simp [helperUpdate, Int.not_lt.mpr h]

/-- Whatever the tag, the regulator and the lock detector stay or take one sample. -/
theorem helperUpdate_sample (s : SpllHelperState) (tag source : Int) :
    ((helperUpdate s tag source).1.pi = s.pi ∧ (helperUpdate s tag source).1.ld = s.ld) ∨
      ∃ err, (helperUpdate s tag source).1.pi = (piUpdate s.pi err).1 ∧
        (helperUpdate s tag source).1.ld = (ldUpdate s.ld err).1 := by
  unfold helperUpdate
  split
  · split
    · exact Or.inl ⟨rfl, rfl⟩
    · exact Or.inr ⟨_, rfl, rfl⟩
  · exact Or.inl ⟨rfl, rfl⟩

theorem helperUpdate_ld_cases (s : SpllHelperState) (tag source : Int) :
    (helperUpdate s tag source).1.ld = s.ld ∨
      ∃ err, (helperUpdate s tag source).1.ld = (ldUpdate s.ld err).1 := by
  rcases helperUpdate_sample s tag source with ⟨-, hld⟩ | ⟨err, -, hld⟩
  · exact Or.inl hld
  · exact Or.inr ⟨err, hld⟩

/-! ## The wrapping loop follows the ideal one -/

/-- A tag sequence as the hardware sees it before wrapping: it starts inside the
first turn and advances by less than a turn per tag. -/
structure TagSequence (T : Nat → Int) : Prop where
  start_nonneg : 0 ≤ T 0
  start_lt : T 0 < 2 ^ tagBits
  mono : ∀ i, T i ≤ T (i + 1)
  step_lt : ∀ i, T (i + 1) - T i < 2 ^ tagBits

/-- The tag counter output for `T i`. -/
def tagOf (T : Nat → Int) (i : Nat) : Int := T i % 2 ^ tagBits

/-- The error of the ideal loop at tag `n + 1`. -/
def idealError (T : Nat → Int) (n : Nat) : Int :=
  T (n + 1) - T 0 - n * 2 ^ hpllN

/-- After the tags `0 .. n`, the accumulators are those of the ideal loop less
a common offset, they are nonnegative, and one of them is near the rebase
threshold or below. -/
def HelperTracks (T : Nat → Int) (n : Nat) (s : SpllHelperState) : Prop :=
  ∃ offset : Int,
    s.tagD0 = tagOf T n ∧
    s.pAdder + s.tagD0 = T n - offset ∧
    s.pSetpoint = T 0 + n * 2 ^ hpllN - offset ∧
    0 ≤ T n - offset ∧ 0 ≤ s.pSetpoint ∧
    (T n - offset ≤ helperTagWraparound + 2 ^ hpllN ∨
      s.pSetpoint ≤ helperTagWraparound + 2 ^ hpllN)

/-- Every exact sum that an update forms from the accumulators is a signed
32-bit integer: the unwrapped adder, the tag plus the adder, the error, and the
adder and setpoint left behind, with and without a rebase. -/
structure HelperFits (s : SpllHelperState) (tag : Int) : Prop where
  adder : InI32 (s.pAdder + if s.tagD0 > tag then 2 ^ tagBits else 0)
  tagged : InI32 (tag + (helperUnwrap s tag).pAdder)
  error : InI32 (tag + (helperUnwrap s tag).pAdder - s.pSetpoint)
  rebased_adder : InI32 ((helperUnwrap s tag).pAdder - helperTagWraparound)
  rebased_setpoint : InI32 (s.pSetpoint - helperTagWraparound)
  setpoint : InI32 (s.pSetpoint + 2 ^ hpllN)
  rebased_next : InI32 (s.pSetpoint - helperTagWraparound + 2 ^ hpllN)

section Tracking

variable {T : Nat → Int}

/-- A wrap is seen exactly when the counter has turned. -/
theorem tagOf_succ (hT : TagSequence T) (n : Nat) :
    tagOf T (n + 1) - tagOf T n + (if tagOf T n > tagOf T (n + 1) then 2 ^ tagBits else 0) =
      T (n + 1) - T n := by
  have hmono := hT.mono n
  have hstep := hT.step_lt n
  simp only [tagOf, tagBits] at *
  split_ifs <;> omega

theorem tagOf_nonneg (T : Nat → Int) (n : Nat) : 0 ≤ tagOf T n :=
  Int.emod_nonneg _ (by decide)

/-- The first tag puts the loop on the track. -/
theorem helperTracks_first (hT : TagSequence T) {s : SpllHelperState}
    (hadder : s.pAdder = 0) (hfirst : s.tagD0 < 0) :
    HelperTracks T 0 (helperUpdate s (tagOf T 0) s.refSrc).1 := by
  have hpos := hT.start_nonneg
  have hlt := hT.start_lt
  have htag : tagOf T 0 = T 0 := by
    simp only [tagOf, tagBits] at *
    omega
  rw [helperUpdate_first hfirst, htag]
  refine ⟨0, htag.symm, ?_, ?_, ?_, ?_, ?_⟩ <;>
    simp only [hadder, hpllN, tagBits, helperTagWraparound] at * <;> omega

/-- On the track, the next update has the ideal error and overflows nowhere. -/
theorem helperTracks_fits (hT : TagSequence T) {n : Nat} {s : SpllHelperState}
    (h : HelperTracks T n s) (herr : |idealError T n| ≤ 1000000000) :
    HelperFits s (tagOf T (n + 1)) ∧
      (helperUnwrap s (tagOf T (n + 1))).pAdder + tagOf T (n + 1) - s.pSetpoint =
        idealError T n := by
  obtain ⟨offset, htag, hadder, hset, hpos, hsetpos, hsmall⟩ := h
  have hwrap := tagOf_succ hT n
  have hmono := hT.mono n
  have hstep := hT.step_lt n
  have hrange := abs_le.mp herr
  have hnew : 0 ≤ tagOf T (n + 1) ∧ tagOf T (n + 1) < 2 ^ tagBits :=
    ⟨tagOf_nonneg T _, Int.emod_lt_of_pos _ (by decide)⟩
  have hold : 0 ≤ tagOf T n ∧ tagOf T n < 2 ^ tagBits :=
    ⟨tagOf_nonneg T _, Int.emod_lt_of_pos _ (by decide)⟩
  rw [← htag] at hwrap hold
  -- the unwrapped tag is the true time behind the offset of the track
  have hexact : s.pAdder + (if s.tagD0 > tagOf T (n + 1) then 2 ^ tagBits else 0) =
      T (n + 1) - offset - tagOf T (n + 1) := by
    omega
  simp only [idealError, tagBits, hpllN, helperTagWraparound] at *
  have hfitsAdder :
      InI32 (s.pAdder + (if s.tagD0 > tagOf T (n + 1) then 2 ^ 22 else 0)) := by
    rw [hexact]
    unfold InI32
    omega
  have hunwrap : (helperUnwrap s (tagOf T (n + 1))).pAdder =
      T (n + 1) - offset - tagOf T (n + 1) := by
    rw [← hexact]
    unfold helperUnwrap
    split
    · next hgt =>
        simp only [hgt, if_true] at hfitsAdder
        simpa only [tagBits, hgt, if_true] using i32_eq_self hfitsAdder
    · next hle => simp
  refine ⟨⟨?_, ?_, ?_, ?_, ?_, ?_, ?_⟩, ?_⟩
  · simpa only [tagBits] using hfitsAdder
  all_goals
    simp only [hunwrap, InI32, helperTagWraparound, hpllN]
    omega

/-- Where nothing overflows, the rebase either moves both accumulators down by
one step or leaves them. -/
theorem helperRebase_cases {s : SpllHelperState} {tag : Int} (hfits : HelperFits s tag) :
    (helperTagWraparound < s.pSetpoint ∧
        (helperRebase (helperUnwrap s tag) tag).pAdder =
          (helperUnwrap s tag).pAdder - helperTagWraparound ∧
        (helperRebase (helperUnwrap s tag) tag).pSetpoint =
          s.pSetpoint - helperTagWraparound ∧
        helperTagWraparound < tag + (helperUnwrap s tag).pAdder) ∨
      ((helperRebase (helperUnwrap s tag) tag).pAdder = (helperUnwrap s tag).pAdder ∧
        (helperRebase (helperUnwrap s tag) tag).pSetpoint = s.pSetpoint ∧
        (tag + (helperUnwrap s tag).pAdder ≤ helperTagWraparound ∨
          s.pSetpoint ≤ helperTagWraparound)) := by
  have htagged := i32_eq_self hfits.tagged
  have hadder := i32_eq_self hfits.rebased_adder
  have hset := i32_eq_self hfits.rebased_setpoint
  by_cases hboth : tag + (helperUnwrap s tag).pAdder > helperTagWraparound ∧
      s.pSetpoint > helperTagWraparound
  · left
    simp [helperRebase, htagged, hboth.1, hboth.2, hadder, hset]
  · right
    have hkeep : helperRebase (helperUnwrap s tag) tag = helperUnwrap s tag := by
      simp [helperRebase, htagged, hboth]
    rw [hkeep]
    refine ⟨rfl, helperUnwrap_pSetpoint s tag, ?_⟩
    omega

/-- One tag keeps the loop on the track; the lock detector sees the clamped
ideal error. -/
theorem helperTracks_step (hT : TagSequence T) {n : Nat} {s : SpllHelperState}
    (h : HelperTracks T n s) (herr : |idealError T n| ≤ 1000000000) :
    HelperTracks T (n + 1) (helperUpdate s (tagOf T (n + 1)) s.refSrc).1 ∧
      (helperUpdate s (tagOf T (n + 1)) s.refSrc).1.ld =
        (ldUpdate s.ld (helperClamp (idealError T n))).1 := by
  obtain ⟨hfits, hideal⟩ := helperTracks_fits hT h herr
  obtain ⟨offset, htag, hadder, hset, hpos, hsetpos, hsmall⟩ := h
  have herror : helperError (helperUnwrap s (tagOf T (n + 1))) (tagOf T (n + 1)) =
      idealError T n := by
    unfold helperError
    rw [i32_eq_self hfits.tagged, helperUnwrap_pSetpoint, i32_eq_self hfits.error]
    omega
  have hnonneg : 0 ≤ s.tagD0 := htag ▸ tagOf_nonneg T n
  refine ⟨?_, by rw [helperUpdate_ld hnonneg, herror]⟩
  have hmono := hT.mono n
  have hstep := hT.step_lt n
  have hsetFits := hfits.setpoint
  have hrebase := helperRebase_cases hfits
  simp only [helperUpdate, if_true, Int.not_lt.mpr hnonneg, if_false]
  generalize helperRebase (helperUnwrap s (tagOf T (n + 1))) (tagOf T (n + 1)) = rebased
    at hrebase ⊢
  generalize (helperUnwrap s (tagOf T (n + 1))).pAdder = adder at hrebase hideal
  simp only [InI32, idealError, hpllN, tagBits, helperTagWraparound] at *
  have hexact : i32 (rebased.pSetpoint + 2 ^ 14) = rebased.pSetpoint + 2 ^ 14 :=
    i32_eq_self (by unfold InI32; omega)
  rcases hrebase with ⟨hlarge, hadder', hset', hlarge'⟩ | ⟨hadder', hset', hsmall'⟩
  · -- both accumulators lose one rebase step, which joins the offset
    refine ⟨offset + 100000000, rfl, ?_⟩
    simp only [hpllN, helperTagWraparound, hexact, Nat.cast_add, Nat.cast_one]
    omega
  · refine ⟨offset, rfl, ?_⟩
    simp only [hpllN, helperTagWraparound, hexact, Nat.cast_add, Nat.cast_one]
    omega

end Tracking

/-- The state after the first `n` tags of a sequence on the reference channel. -/
def helperFeed (s : SpllHelperState) (tags : Nat → Int) : Nat → SpllHelperState
  | 0 => s
  | n + 1 => (helperUpdate (helperFeed s tags n) (tags n) s.refSrc).1

theorem helperFeed_refSrc (s : SpllHelperState) (tags : Nat → Int) (n : Nat) :
    (helperFeed s tags n).refSrc = s.refSrc := by
  induction n with
  | zero => rfl
  | succ n ih => rw [helperFeed, helperUpdate_refSrc, ih]

/-- From the start on, the loop stays on the track for runs of any length. -/
theorem helperFeed_tracks {T : Nat → Int} (hT : TagSequence T) (nChanRef : Nat)
    (s : SpllHelperState) (regs : SpllWB) (n : Nat)
    (herr : ∀ m, m < n → |idealError T m| ≤ 1000000000) :
    HelperTracks T n (helperFeed (helperStart nChanRef s regs).1 (tagOf T) (n + 1)) := by
  induction n with
  | zero =>
      exact helperTracks_first hT rfl (show (-1 : Int) < 0 by decide)
  | succ n ih =>
      have hprev := ih (fun m hm => herr m (by omega))
      rw [helperFeed, ← helperFeed_refSrc _ (tagOf T) (n + 1)]
      exact (helperTracks_step hT hprev (herr n (by omega))).1

/-- The wrapping helper loop is the ideal loop: as long as the ideal error stays
within `10 ^ 9`, the error before clamping is the ideal one at every tag, and no
sum formed on the way leaves the signed 32-bit range. -/
theorem helperUpdate_refines_ideal {T : Nat → Int} (hT : TagSequence T)
    (herr : ∀ n, 1 ≤ n → |T n - T 0 - ((n : Int) - 1) * 2 ^ hpllN| ≤ 1000000000)
    (nChanRef : Nat) (s : SpllHelperState) (regs : SpllWB) (n : Nat) (hn : 1 ≤ n) :
    let before := helperFeed (helperStart nChanRef s regs).1 (tagOf T) n
    helperError (helperUnwrap before (tagOf T n)) (tagOf T n) =
        T n - T 0 - ((n : Int) - 1) * 2 ^ hpllN ∧
      HelperFits before (tagOf T n) := by
  obtain ⟨m, rfl⟩ : ∃ m, n = m + 1 := ⟨n - 1, by omega⟩
  have hideal : ∀ k, |idealError T k| ≤ 1000000000 := fun k => by
    simpa [idealError] using herr (k + 1) (by omega)
  have htracks := helperFeed_tracks hT nChanRef s regs m (fun k _ => hideal k)
  obtain ⟨hfits, herror⟩ := helperTracks_fits hT htracks (hideal m)
  refine ⟨?_, hfits⟩
  unfold helperError
  rw [i32_eq_self hfits.tagged, helperUnwrap_pSetpoint, i32_eq_self hfits.error]
  simp only [idealError, hpllN] at herror ⊢
  push_cast
  omega

/-- A reference that follows the ideal loop without error. -/
def rampTags (n : Nat) : Int := ((n - 1 : Nat) : Int) * 2 ^ hpllN

theorem rampTags_sequence : TagSequence rampTags where
  start_nonneg := by simp [rampTags]
  start_lt := by simp [rampTags, tagBits]
  mono i := by
    simp only [rampTags, hpllN]
    omega
  step_lt i := by
    simp only [rampTags, hpllN, tagBits]
    omega

theorem rampTags_error {n : Nat} (hn : 1 ≤ n) :
    rampTags n - rampTags 0 - ((n : Int) - 1) * 2 ^ hpllN = 0 := by
  simp only [rampTags, hpllN]
  omega

/-- At tag 300, the counter has wrapped once and the error is still zero. -/
theorem helperUpdate_refines_ideal_ramp :
    helperError
        (helperUnwrap (helperFeed (helperStart 1 {} {}).1 (tagOf rampTags) 300)
          (tagOf rampTags 300))
        (tagOf rampTags 300) = rampTags 300 - rampTags 0 - (((300 : Nat) : Int) - 1) * 2 ^ hpllN ∧
      HelperFits (helperFeed (helperStart 1 {} {}).1 (tagOf rampTags) 300)
        (tagOf rampTags 300) :=
  helperUpdate_refines_ideal rampTags_sequence
    (fun n hn => by rw [rampTags_error hn, abs_zero]; decide) 1 {} {} 300 (by decide)

end Softpll
end WrpcSw
