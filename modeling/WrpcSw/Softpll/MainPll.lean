import WrpcSw.Softpll.Common

/-!
# The main DDMTD PLL (`softpll/spll_main.c`)

One main PLL locks one output channel to a reference channel.  Tags of the two
channels arrive in any order; an update that completes a pair unwraps both
tags, computes the error, drives the DAC selected by `dacIndex`, moves the
phase shifter one step towards its target and feeds the lock detector.
`WITH_SEQUENCING` is undefined in the source, so the tag sequencing fields are
not part of the state.
-/

namespace WrpcSw
namespace Softpll

open CInt

def mpllTagWraparound : Int := 100000000

/-- State of a main PLL (`struct spll_main_state`). -/
structure SpllMainState where
  pi : SpllPi := {}
  ld : SpllLockDet := {}
  adderRef : Int := 0
  adderOut : Int := 0
  tagRef : Int := 0
  tagOut : Int := 0
  tagRefD : Int := 0
  tagOutD : Int := 0
  phaseShiftTarget : Int := 0
  phaseShiftCurrent : Int := 0
  idRef : Int := 0
  idOut : Int := 0
  dacIndex : Int := 0
deriving DecidableEq, Repr

def mpllInit (board : Board) (nChanRef : Nat) (s : SpllMainState) (idRef idOut : Int) :
    SpllMainState :=
  { s with
    pi := piInit { s.pi with
      yMin := 5
      yMax := 65530
      antiWindup := true
      bias := 65000
      kp := board.mpllKp
      ki := board.mpllKi }
    ld := ldInit { s.ld with threshold := 1200, lockSamples := 1000, delockSamples := 100 }
    idRef := idRef
    idOut := idOut
    dacIndex := idOut - nChanRef }

/-- The state left by `mpll_start`. -/
def mpllRestart (s : SpllMainState) : SpllMainState :=
  { s with
    adderRef := 0
    adderOut := 0
    tagRef := -1
    tagOut := -1
    tagRefD := -1
    tagOutD := -1
    phaseShiftTarget := 0
    phaseShiftCurrent := 0
    pi := piInit s.pi
    ld := ldInit s.ld }

def mpllStart (nChanRef : Nat) (s : SpllMainState) (regs : SpllWB) :
    SpllMainState × SpllWB :=
  (mpllRestart s,
    spllEnableTagger nChanRef (spllEnableTagger nChanRef regs s.idRef true) s.idOut true)

def mpllStop (nChanRef : Nat) (s : SpllMainState) (regs : SpllWB) : SpllWB :=
  spllEnableTagger nChanRef regs s.idOut false

/-- Store the tag with the channel it came from. -/
def mpllLatch (s : SpllMainState) (tag source : Int) : SpllMainState :=
  { s with
    tagRef := if source = s.idRef then tag else s.tagRef
    tagOut := if source = s.idOut then tag else s.tagOut }

/-- Both tags of a pair are present. -/
def SpllMainState.Paired (s : SpllMainState) : Prop := 0 ≤ s.tagRef ∧ 0 ≤ s.tagOut

instance (s : SpllMainState) : Decidable s.Paired :=
  inferInstanceAs (Decidable (_ ∧ _))

/-- The two tag wrap detectors. -/
def mpllUnwrap (s : SpllMainState) : SpllMainState :=
  { s with
    adderRef := if s.tagRefD ≥ 0 ∧ s.tagRefD > s.tagRef then i32 (s.adderRef + 2 ^ tagBits)
      else s.adderRef
    adderOut := if s.tagOutD ≥ 0 ∧ s.tagOutD > s.tagOut then i32 (s.adderOut + 2 ^ tagBits)
      else s.adderOut
    tagRefD := s.tagRef
    tagOutD := s.tagOut }

/-- The phase error, with everything above `2 ^ hpllN` masked out when locked. -/
def mpllError (s : SpllMainState) : Int :=
  let err := i32 (i32 (i32 (s.adderRef + s.tagRef) - s.adderOut) - s.tagOut)
  if s.ld.locked then signedLow (hpllN - 1) err else err

/-- The joint rebase of the two adders. -/
def mpllRebase (s : SpllMainState) : SpllMainState :=
  if s.adderRef > 2 * mpllTagWraparound ∧ s.adderOut > 2 * mpllTagWraparound then
    { s with
      adderRef := i32 (s.adderRef - mpllTagWraparound)
      adderOut := i32 (s.adderOut - mpllTagWraparound) }
  else s

/-- One step of the phase shifter, taken only while locked. -/
def mpllShift (s : SpllMainState) : SpllMainState :=
  if s.ld.locked then
    if s.phaseShiftCurrent < s.phaseShiftTarget then
      { s with
        phaseShiftCurrent := s.phaseShiftCurrent + 1
        adderRef := i32 (s.adderRef + 1) }
    else if s.phaseShiftCurrent > s.phaseShiftTarget then
      { s with
        phaseShiftCurrent := s.phaseShiftCurrent - 1
        adderRef := i32 (s.adderRef - 1) }
    else s
  else s

/-- The update of a complete pair. -/
def mpllPairUpdate (s : SpllMainState) : SpllMainState × Option DacMain × Int :=
  let unwrapped := mpllUnwrap s
  let err := mpllError unwrapped
  let pi := piUpdate unwrapped.pi err
  let ld := ldUpdate unwrapped.ld err
  ({ mpllShift (mpllRebase { unwrapped with pi := pi.1, tagOut := -1, tagRef := -1 }) with
      ld := ld.1 },
    some (dacMainW pi.2 s.dacIndex),
    if ld.2 ≠ 0 then spllLocked else spllLocking)

/-- One tag: the new state, the word written to `DAC_MAIN`, if any, and the
return value. -/
def mpllUpdate (s : SpllMainState) (tag source : Int) :
    SpllMainState × Option DacMain × Int :=
  let latched := mpllLatch s tag source
  if latched.Paired then mpllPairUpdate latched else (latched, none, spllLocking)

def mpllSetPhaseShift (s : SpllMainState) (desiredShift : Int) : SpllMainState :=
  { s with phaseShiftTarget := desiredShift }

def mpllShifterBusy (s : SpllMainState) : Bool :=
  s.phaseShiftTarget ≠ s.phaseShiftCurrent

/-! ## Frame lemmas -/

/-- The fields of a main PLL that only `mpll_init` and the phase setpoint calls
write. -/
def SpllMainState.SameConfig (a b : SpllMainState) : Prop :=
  a.idRef = b.idRef ∧ a.idOut = b.idOut ∧ a.dacIndex = b.dacIndex ∧
    a.phaseShiftTarget = b.phaseShiftTarget

theorem mpllRebase_config (s : SpllMainState) : (mpllRebase s).SameConfig s := by
  unfold mpllRebase SpllMainState.SameConfig
  split <;> exact ⟨rfl, rfl, rfl, rfl⟩

theorem mpllShift_config (s : SpllMainState) : (mpllShift s).SameConfig s := by
  unfold mpllShift SpllMainState.SameConfig
  split_ifs <;> exact ⟨rfl, rfl, rfl, rfl⟩

/-- No tag changes the channels, the DAC number or the phase setpoint. -/
theorem mpllUpdate_config (s : SpllMainState) (tag source : Int) :
    (mpllUpdate s tag source).1.SameConfig s := by
  unfold mpllUpdate
  dsimp only
  split
  · have hshift := mpllShift_config (mpllRebase { mpllUnwrap (mpllLatch s tag source) with
      pi := (piUpdate (mpllUnwrap (mpllLatch s tag source)).pi
        (mpllError (mpllUnwrap (mpllLatch s tag source)))).1
      tagOut := -1
      tagRef := -1 })
    have hrebase := mpllRebase_config { mpllUnwrap (mpllLatch s tag source) with
      pi := (piUpdate (mpllUnwrap (mpllLatch s tag source)).pi
        (mpllError (mpllUnwrap (mpllLatch s tag source)))).1
      tagOut := -1
      tagRef := -1 }
    exact ⟨hshift.1.trans hrebase.1, hshift.2.1.trans hrebase.2.1,
      hshift.2.2.1.trans hrebase.2.2.1, hshift.2.2.2.trans hrebase.2.2.2⟩
  · exact ⟨rfl, rfl, rfl, rfl⟩

theorem mpllUpdate_phaseShiftTarget (s : SpllMainState) (tag source : Int) :
    (mpllUpdate s tag source).1.phaseShiftTarget = s.phaseShiftTarget :=
  (mpllUpdate_config s tag source).2.2.2

theorem mpllUpdate_dacIndex (s : SpllMainState) (tag source : Int) :
    (mpllUpdate s tag source).1.dacIndex = s.dacIndex :=
  (mpllUpdate_config s tag source).2.2.1

theorem mpllShift_mpllRebase_pi (s : SpllMainState) :
    (mpllShift (mpllRebase s)).pi = s.pi := by
  unfold mpllShift mpllRebase
  split_ifs <;> rfl

/-- Whatever the tag, the regulator and the lock detector stay or take one sample. -/
theorem mpllUpdate_sample (s : SpllMainState) (tag source : Int) :
    ((mpllUpdate s tag source).1.pi = s.pi ∧ (mpllUpdate s tag source).1.ld = s.ld) ∨
      ∃ err, (mpllUpdate s tag source).1.pi = (piUpdate s.pi err).1 ∧
        (mpllUpdate s tag source).1.ld = (ldUpdate s.ld err).1 := by
  unfold mpllUpdate
  dsimp only
  split
  · exact Or.inr ⟨_, mpllShift_mpllRebase_pi _, rfl⟩
  · exact Or.inl ⟨rfl, rfl⟩

/-- The limits of the regulator are configuration as well. -/
theorem mpllUpdate_limits (s : SpllMainState) (tag source : Int) :
    (mpllUpdate s tag source).1.pi.yMin = s.pi.yMin ∧
      (mpllUpdate s tag source).1.pi.yMax = s.pi.yMax := by
  rcases mpllUpdate_sample s tag source with ⟨hpi, -⟩ | ⟨err, hpi, -⟩
  · rw [hpi]
    exact ⟨rfl, rfl⟩
  · rw [hpi]
    exact piUpdate_limits s.pi err

/-- A word is written exactly when the tag completes a pair, and it goes to the
DAC of this PLL. -/
theorem mpllUpdate_dac (s : SpllMainState) (tag source : Int) :
    ((mpllUpdate s tag source).2.1.isSome ↔ (mpllLatch s tag source).Paired) ∧
      ∀ word ∈ (mpllUpdate s tag source).2.1, word.dacSel = BitVec.ofInt 4 s.dacIndex := by
  unfold mpllUpdate
  dsimp only
  split
  · next hpair =>
      refine ⟨by simp [hpair, mpllPairUpdate], ?_⟩
      rintro word hword
      obtain rfl := Option.some.inj hword
      rfl
  · next hpair => simp [hpair]

/-- An update that does not complete a pair only latches its tag. -/
theorem mpllUpdate_unpaired {s : SpllMainState} {tag source : Int}
    (h : ¬ (mpllLatch s tag source).Paired) :
    mpllUpdate s tag source = (mpllLatch s tag source, none, spllLocking) := by
  simp [mpllUpdate, h]

theorem mpllUpdate_ld_cases (s : SpllMainState) (tag source : Int) :
    (mpllUpdate s tag source).1.ld = s.ld ∨
      ∃ err, (mpllUpdate s tag source).1.ld = (ldUpdate s.ld err).1 := by
  rcases mpllUpdate_sample s tag source with ⟨-, hld⟩ | ⟨err, -, hld⟩
  · exact Or.inl hld
  · exact Or.inr ⟨err, hld⟩

end Softpll
end WrpcSw
