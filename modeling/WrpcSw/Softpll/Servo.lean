import WrpcSw.Softpll.AuxActivity
import WrpcSw.Softpll.Ready

/-!
# One servo for the main oscillator

The DAC with number 0 steers the main oscillator.  The external PLL and the main
PLL both write it, and which of the two runs is decided by the mode and the
state of the sequencer together.

* `servoInv_step` — while tags are taken, the main PLL is awaited in slave mode
  only, and the PLLs drive the DACs of their own channels.
* `one_servo` — in every run, a tag lets at most one loop write the DAC: the
  external PLL in grandmaster mode, the main PLL in slave mode.  Apart from them
  only the sequencer writes it, with the midscale preset, and then no loop runs.
-/

namespace WrpcSw
namespace Softpll

open CInt Run

/-! ## The words of the main oscillator -/

/-- The words for the DAC of the main oscillator among the actions of a step. -/
def mainWords (acts : List Action) : List DacMain :=
  acts.filterMap fun act =>
    match act with
    | .dacMain word => if word.dacSel = 0 then some word else none
    | _ => none

@[simp] theorem mainWords_nil : mainWords [] = [] := rfl

@[simp] theorem mainWords_append (acts more : List Action) :
    mainWords (acts ++ more) = mainWords acts ++ mainWords more :=
  List.filterMap_append

/-- No action of the list writes the DAC of the main oscillator. -/
theorem mainWords_eq_nil {acts : List Action}
    (h : ∀ word, .dacMain word ∈ acts → word.dacSel ≠ 0) : mainWords acts = [] := by
  apply List.filterMap_eq_nil_iff.mpr
  intro act hact
  cases act with
  | dacMain word => exact if_neg (h word hact)
  | dacHpll | mpllStart | mpllStop | auxSeqState | auxStatus => rfl

/-- A loop that writes at most one word writes at most one to the main DAC. -/
theorem length_mainWords_option (word : Option DacMain) :
    (mainWords (word.toList.map .dacMain)).length ≤ 1 := by
  cases word with
  | none => exact Nat.zero_le 1
  | some word =>
      show ([_].filterMap _).length ≤ 1
      exact List.length_filterMap_le _ _

section Loops

variable (board : Board) (hw : HwStatus) (s : SoftpllState) (tag : Tag)

/-- The words of the external PLL. -/
def externalWords : List Action :=
  if s.RunsExternal then
    (externalUpdate board hw s.ext ⟨s.spll, s.ppsg⟩ tag.value.toNat
      tag.chanId.toNat).2.2.1.toList.map .dacMain
  else []

/-- The words of the helper PLL. -/
def helperWords : List Action :=
  if s.seqState.runsHelper then
    (helperUpdate s.helper tag.value.toNat tag.chanId.toNat).2.1.toList.map .dacHpll
  else []

/-- The words of the main PLL. -/
def mainPllWords : List Action := if s.RunsMpll then mpllWords tag s.mpll else []

/-- The words of the PLLs of the aux channels. -/
def auxWords : List Action :=
  if s.RunsAuxs then
    (List.range (s.nChanOut - 1)).flatMap fun i => mpllWords tag (s.aux i).dmtd
  else []

theorem loopWords_eq :
    loopWords board hw s tag =
      externalWords board hw s tag ++ helperWords s tag ++ mainPllWords s tag ++
        auxWords s tag := rfl

/-- The helper drives the other oscillator. -/
theorem mainWords_helperWords : mainWords (helperWords s tag) = [] := by
  apply mainWords_eq_nil
  intro word hword
  unfold helperWords at hword
  split_ifs at hword <;> simp at hword

/-- The PLLs of the aux channels drive the DACs of their channels. -/
theorem mainWords_auxWords (hconfigured : DacsConfigured s) (hout : s.nChanOut ≤ 7) :
    mainWords (auxWords s tag) = [] := by
  apply mainWords_eq_nil
  intro word hword
  unfold auxWords at hword
  split_ifs at hword with hruns
  · obtain ⟨i, hi, hchannel⟩ := List.mem_flatMap.mp hword
    rw [List.mem_range] at hi
    rw [mpllWords_dac hchannel, hconfigured.auxDac i hi]
    intro hzero
    have hval := congrArg BitVec.toNat hzero
    simp at hval
    omega
  · simp at hword

theorem length_externalWords : (mainWords (externalWords board hw s tag)).length ≤ 1 := by
  unfold externalWords
  split_ifs
  · exact length_mainWords_option _
  · exact Nat.zero_le 1

theorem length_mainPllWords : (mainWords (mainPllWords s tag)).length ≤ 1 := by
  unfold mainPllWords
  split_ifs
  · exact length_mainWords_option _
  · exact Nat.zero_le 1

theorem externalWords_mode (hmode : s.mode ≠ .grandMaster) : externalWords board hw s tag = [] :=
  if_neg (fun hruns => hmode hruns.1)

/-- The main PLL is silent outside slave mode, where it is not awaited either. -/
theorem mainPllWords_mode (hmain : s.seqState = .waitMain → s.mode = .slave)
    (hmode : s.mode ≠ .slave) : mainPllWords s tag = [] := by
  apply if_neg
  rintro (hwaits | ⟨-, hslave⟩)
  · exact hmode (hmain hwaits)
  · exact hmode hslave

end Loops

/-! ## The invariant -/

/-- What every step keeps. -/
structure ServoInv (s : SoftpllState) : Prop where
  mainOnlyInSlave : MainOnlyInSlave s
  nChanOut : s.nChanOut ≤ 7
  configured : s.irqEnabled = true → DacsConfigured s

theorem servoInv_powerUp : ServoInv powerUp where
  mainOnlyInSlave := mainOnlyInSlave_powerUp
  nChanOut := Nat.zero_le 7
  configured h := absurd h Bool.false_ne_true

/-- The calls on the channels leave the DACs where they are. -/
theorem dacsConfigured_channelCall (board : Board) (s : SoftpllState) (e : Event)
    (he : e.isChannelCall = true) (h : DacsConfigured s) :
    DacsConfigured (step board s e) := by
  obtain ⟨hmin, hmax, hmain, haux⟩ := h
  cases e with
  | init | shutdown | tag => simp [Event.isChannelCall] at he
  | startChannel channel =>
      simp only [step, spllStartChannel]
      split_ifs
      · exact ⟨hmin, hmax, hmain, haux⟩
      -- a start restarts the PLL of the channel, whose DAC stays its own
      · refine ⟨hmin, hmax, hmain, ?_⟩
        intro i hi
        by_cases hi' : i = channel - 1
        · subst hi'
          simpa [setDmtd, mpllStart, mpllRestart] using haux _ hi
        · simpa [setDmtd, Function.update_of_ne hi'] using haux i hi
  | stopChannel channel =>
      simp only [step, spllStopChannel]
      split_ifs <;> exact ⟨hmin, hmax, hmain, haux⟩
  | setPhaseShift channel value =>
      cases channel with
      | all =>
          simp only [step, spllSetPhaseShift_all]
          refine ⟨hmin, hmax, hmain, ?_⟩
          intro i hi
          have hi' : i < s.nChanOut - 1 := hi
          dsimp only
          rw [processed_lt _ _ hi', auxSetpoint]
          split_ifs <;> exact haux i hi'
      | one channel =>
          simp only [step, spllSetPhaseShift, setPhaseShift]
          split_ifs
          · exact ⟨hmin, hmax, hmain, haux⟩
          · refine ⟨hmin, hmax, hmain, ?_⟩
            intro i hi
            by_cases hi' : i = channel - 1
            · subst hi'
              simpa [setDmtd, mpllSetPhaseShift] using haux _ hi
            · simpa [setDmtd, Function.update_of_ne hi'] using haux i hi
  | enablePtracker refChannel enable =>
      simp only [step, spllEnablePtracker]
      split_ifs <;> exact ⟨hmin, hmax, hmain, haux⟩
  | updateAuxClocks enable =>
      obtain ⟨regs, -, heq⟩ := spllUpdateAuxClocks_eq board enable { s with log := [] }
      simp only [step, heq]
      refine ⟨hmin, hmax, hmain, ?_⟩
      intro i hi
      have hi' : i < s.nChanOut - 1 := hi
      dsimp only
      rw [processed_lt _ _ hi']
      exact (auxNext_dacIndex _ _ _ _ _).trans (haux i hi')

theorem servoInv_step (board : Board) (s : SoftpllState) (e : Event) (h : ServoInv s) :
    ServoInv (step board s e) := by
  have hframe := step_channelCall board s e
  refine ⟨mainOnlyInSlave_step board s e h.mainOnlyInSlave, ?_, ?_⟩
  -- the number of outputs: only an initialisation sets it, to a field of three bits
  · cases e with
    | init mode slaveRef alignPps hw =>
        simp only [step, spllInit]
        split_ifs <;> exact initStatus_nOut_le hw
    | tag tag hw =>
        rw [(step_tag_session board s tag hw).nChanOut]
        exact h.nChanOut
    | shutdown => exact h.nChanOut
    | startChannel | stopChannel | setPhaseShift | enablePtracker | updateAuxClocks =>
        rw [(hframe rfl).nChanOut]
        exact h.nChanOut
  -- the DACs, while tags are taken
  · intro henabled
    cases e with
    | init mode slaveRef alignPps hw =>
        exact dacsConfigured_init board _ mode slaveRef alignPps hw henabled
    | tag tag hw =>
        rw [(step_tag_session board s tag hw).irqEnabled] at henabled
        obtain ⟨hmin, hmax, hmain, haux⟩ := h.configured henabled
        simp only [step]
        split_ifs
        · exact dacsConfigured_tagStep board hw tag ⟨hmin, hmax, hmain, haux⟩
        · exact ⟨hmin, hmax, hmain, haux⟩
    | shutdown => exact absurd henabled Bool.false_ne_true
    | startChannel | stopChannel | setPhaseShift | enablePtracker | updateAuxClocks =>
        rw [(hframe rfl).irqEnabled] at henabled
        exact dacsConfigured_channelCall board s _ rfl (h.configured henabled)

/-! ## One tag -/

/-- What a processed tag lets the SoftPLL write to the DAC of the main oscillator:
the words of the sequencer, of the external PLL and of the main PLL, of which at
most one loop writes, in its own mode, and none beside the sequencer. -/
def OneServo (board : Board) (s : SoftpllState) (e : Event) : Prop :=
  ∀ tag hw, e = .tag tag hw → s.takesTags = true →
    let t := sequencingFsm board hw { s with log := [] }
    mainWords (step board s e).log =
        mainWords (sequencerActions s) ++ mainWords (externalWords board hw t tag) ++
          mainWords (mainPllWords t tag) ∧
      (mainWords (externalWords board hw t tag)).length +
        (mainWords (mainPllWords t tag)).length ≤ 1 ∧
      (mainWords (externalWords board hw t tag) ≠ [] → t.mode = .grandMaster) ∧
      (mainWords (mainPllWords t tag) ≠ [] → t.mode = .slave) ∧
      (mainWords (sequencerActions s) ≠ [] → s.seqState = .clearDacs ∧
        mainWords (sequencerActions s) =
          [dacMainOfInt ((s.mpll.pi.yMax + s.mpll.pi.yMin).tdiv 2)] ∧
        loopWords board hw t tag = [])

/-- The sequencer writes the DAC in `clearDacs` only, and then no loop runs. -/
theorem mainWords_sequencer (board : Board) (hw : HwStatus) (s : SoftpllState) (tag : Tag)
    (h : mainWords (sequencerActions s) ≠ []) : s.seqState = .clearDacs ∧
      loopWords board hw (sequencingFsm board hw s) tag = [] := by
  have hstate : s.seqState = .clearDacs := by
    by_contra hne
    apply h
    unfold sequencerActions
    cases hstate : s.seqState with
    | clearDacs => exact absurd hstate hne
    | _ => rfl
  refine ⟨hstate, ?_⟩
  -- the state after it runs no loop
  have hnext : (sequencingFsm board hw s).seqState = .waitClearDacs := by
    simp [sequencingFsm, hstate]
  simp [loopWords, hnext, SeqState.runsExternal, SeqState.runsHelper, SoftpllState.RunsMpll,
    SoftpllState.RunsAuxs]

theorem oneServo_of_inv (board : Board) (s : SoftpllState) (e : Event) (h : ServoInv s) :
    OneServo board s e := by
  rintro tag hw rfl htakes t
  have henabled : s.irqEnabled = true := by
    simp only [SoftpllState.takesTags, Bool.and_eq_true] at htakes
    exact htakes.1
  have hconfigured : DacsConfigured { s with log := [] } := by
    obtain ⟨hmin, hmax, hmain, haux⟩ := h.configured henabled
    exact ⟨hmin, hmax, hmain, haux⟩
  have hsession := sequencingFsm_session board hw { s with log := [] }
  have hdacs := dacsConfigured_sequencingFsm board hw hconfigured
  have hmain : t.seqState = .waitMain → t.mode = .slave := by
    intro hwaits
    rw [hsession.mode]
    exact sequencingFsm_main board hw { s with log := [] } (h.mainOnlyInSlave henabled)
      (Or.inr hwaits)
  have hext : mainWords (externalWords board hw t tag) ≠ [] → t.mode = .grandMaster := by
    intro hwords
    by_contra hmode
    exact hwords (congrArg mainWords (externalWords_mode board hw t tag hmode))
  have hmpll : mainWords (mainPllWords t tag) ≠ [] → t.mode = .slave := by
    intro hwords
    by_contra hmode
    exact hwords (congrArg mainWords (mainPllWords_mode t tag hmain hmode))
  refine ⟨?_, ?_, hext, hmpll, ?_⟩
  · have hlog : (step board s (.tag tag hw)).log =
        [] ++ (sequencerActions { s with log := [] } ++ loopWords board hw t tag) := by
      have htaken : ({ s with log := [] } : SoftpllState).takesTags = true := htakes
      simp only [step, htaken, if_true]
      exact tagStep_log board hw { s with log := [] } tag
    have hsame : sequencerActions { s with log := [] } = sequencerActions s := rfl
    rw [hlog, List.nil_append, hsame, loopWords_eq]
    simp only [mainWords_append, mainWords_helperWords]
    rw [mainWords_auxWords t tag hdacs (hsession.nChanOut ▸ h.nChanOut)]
    simp only [List.append_nil, List.append_assoc]
  · have hextLength := length_externalWords board hw t tag
    have hmpllLength := length_mainPllWords t tag
    by_cases hslave : t.mode = .slave
    · have hnone := externalWords_mode board hw t tag (by rw [hslave]; decide)
      rw [hnone, mainWords_nil, List.length_nil]
      omega
    · rw [mainPllWords_mode t tag hmain hslave, mainWords_nil, List.length_nil]
      omega
  · intro hwords
    obtain ⟨hstate, hidle⟩ := mainWords_sequencer board hw { s with log := [] } tag hwords
    refine ⟨hstate, ?_, hidle⟩
    have hstate' : s.seqState = .clearDacs := hstate
    obtain ⟨hmin, hmax, -⟩ := hconfigured
    have hmin' : s.mpll.pi.yMin = 5 := hmin
    have hmax' : s.mpll.pi.yMax = 65530 := hmax
    have hmid : (s.mpll.pi.yMax + s.mpll.pi.yMin).tdiv 2 = 32767 := by
      rw [hmin', hmax']
      decide
    have hsel : (dacMainOfInt 32767).dacSel = 0 := by decide
    have hactions : sequencerActions s =
        [.dacHpll s.helper.pi.yMax, .dacMain (dacMainOfInt 32767)] := by
      simp only [sequencerActions, hstate', hmid]
    rw [hactions, hmid]
    simp [mainWords, hsel]

/-- In every run of initialisations, tags and other calls, no tag lets two loops
steer the main oscillator. -/
theorem one_servo (board : Board) (es : List Event) :
    Along (step board) (OneServo board) powerUp es :=
  along_of_invariant ServoInv (servoInv_step board) (oneServo_of_inv board) servoInv_powerUp es

end Softpll
end WrpcSw
