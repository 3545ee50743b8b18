import WrpcSw.Softpll.Locking

/-!
# The PPS of a grandmaster that fails to realign

A grandmaster aligns its PPS to the external one each time the external PLL is
started.  The two wait states of `realignFsm` give up after a timeout and enter
`ppsInvalid`; the second one clears the valid flags of the PPS on its way, the
first one leaves them as they are.

* `error_state_invalid_iff` — the flags are clear in the error state in exactly
  the runs that never give up the first wait with a flag set.
* `error_state_valid` — a grandmaster that loses its reference after a
  successful alignment gets there.
-/

namespace WrpcSw
namespace Softpll

open CInt Run

/-- `PPSG_ESCR_PPS_VALID | PPSG_ESCR_TM_VALID`. -/
def validFlags : BitVec 32 := ppsgEscrPpsValid ||| ppsgEscrTmValid

/-- In the error state the PPS is flagged invalid. -/
def SoftpllState.ErrorIsInvalid (s : SoftpllState) : Prop :=
  s.ext.realignState = .ppsInvalid → s.ppsg.escr &&& validFlags = 0

/-- The external PLL sees its tag, waits for the end of the first alignment stage,
and has waited for too long. -/
def SoftpllState.GivesUp (s : SoftpllState) (hw : HwStatus) (tag : Tag) : Prop :=
  s.RunsExternal ∧ (tag.chanId.toNat : Int) = s.ext.refSrc ∧
    s.ext.realignState = .stage1Wait ∧ hw.alignDone = false ∧
    timeAfter hw.tics.toNat s.ext.realignTimer = true

/-- The alignment is given up in its first stage while a valid flag is set. -/
def GivesUpValid (board : Board) (s : SoftpllState) (e : Event) : Prop :=
  ∃ tag hw, e = .tag tag hw ∧ s.takesTags = true ∧
    (sequencingFsm board hw { s with log := [] }).GivesUp hw tag ∧
    s.ppsg.escr &&& validFlags ≠ 0

/-- The event is one of a grandmaster: every initialisation is of that mode. -/
def Event.OfGrandMaster (e : Event) : Prop :=
  ∀ mode slaveRef alignPps hw, e = .init mode slaveRef alignPps hw → mode = .grandMaster

/-! ## One tag of the external PLL -/

section Realign

variable (board : Board) (hw : HwStatus) (s : SpllExternalState) (regs : ExternalRegs)

/-- The realignment comes to the error state from one of the two waits, and only
the second one clears the flags. -/
theorem realignFsm_invalid (hvalid : s.realignState = .ppsInvalid →
      regs.ppsg.escr &&& validFlags = 0) :
    ((realignFsm board hw s regs).1.realignState = .ppsInvalid →
        (realignFsm board hw s regs).2.ppsg.escr &&& validFlags = 0) ↔
      ¬ (s.realignState = .stage1Wait ∧ hw.alignDone = false ∧
        timeAfter hw.tics.toNat s.realignTimer = true ∧ regs.ppsg.escr &&& validFlags ≠ 0) := by
  cases hstate : s.realignState with
  | none | disabled | done => simp [realignFsm, hstate]
  | ppsInvalid => simp [realignFsm, hstate, hvalid hstate]
  | stage1 => simp [realignFsm, hstate]
  | stage1Wait =>
      cases hdone : hw.alignDone <;> cases htime : timeAfter hw.tics.toNat s.realignTimer <;>
        simp [realignFsm, hstate, hdone, htime]
  | stage2 => cases hlock : s.ld.locked <;> simp [realignFsm, hstate, hlock]
  | stage2Wait =>
      cases hsync : hw.ppsSync <;> cases htime : timeAfter hw.tics.toNat s.realignTimer <;>
        simp [realignFsm, hstate, hsync, htime]

/-- A tag of the reference runs the realignment, any other tag nothing. -/
theorem externalUpdate_realign (tag source : Int) :
    (externalUpdate board hw s regs tag source).1.realignState =
        (if source = s.refSrc then (realignFsm board hw s regs).1.realignState
          else s.realignState) ∧
      (externalUpdate board hw s regs tag source).2.1.ppsg =
        (if source = s.refSrc then (realignFsm board hw s regs).2.ppsg else regs.ppsg) := by
  unfold externalUpdate
  split_ifs <;> exact ⟨rfl, rfl⟩

end Realign

/-! ## Runs -/

section Steps

variable (board : Board) (s : SoftpllState)

/-- A start of the external PLL leaves the error state, or finds it off. -/
theorem sequencingFsm_errorIsInvalid (hw : HwStatus) (h : s.ErrorIsInvalid) :
    (sequencingFsm board hw s).ErrorIsInvalid := by
  obtain ⟨hext, hppsg⟩ := sequencingFsm_external board hw s
  unfold SoftpllState.ErrorIsInvalid
  rw [hext, hppsg]
  split_ifs with hstart
  · unfold externalStart
    dsimp only
    split_ifs <;> simp
  · exact h

/-- One processed tag. -/
theorem tagStep_errorIsInvalid (hw : HwStatus) (tag : Tag) (h : s.ErrorIsInvalid) :
    (tagStep board hw s tag).ErrorIsInvalid ↔
      ¬ ((sequencingFsm board hw s).GivesUp hw tag ∧ s.ppsg.escr &&& validFlags ≠ 0) := by
  have hsequenced := sequencingFsm_errorIsInvalid board s hw h
  obtain ⟨-, hppsg⟩ := sequencingFsm_external board hw s
  rw [← hppsg, tagStep]
  generalize sequencingFsm board hw s = t at hsequenced ⊢
  obtain ⟨hext, hppsg, -⟩ := updateLoops_external board hw t tag
  unfold SoftpllState.ErrorIsInvalid SoftpllState.GivesUp
  rw [hext, hppsg]
  by_cases hruns : t.RunsExternal
  · rw [if_pos hruns, if_pos hruns]
    obtain ⟨hstate, hregs⟩ := externalUpdate_realign board hw t.ext ⟨t.spll, t.ppsg⟩
      tag.value.toNat tag.chanId.toNat
    rw [hstate, hregs]
    by_cases hsource : (tag.chanId.toNat : Int) = t.ext.refSrc
    · rw [if_pos hsource, if_pos hsource,
        realignFsm_invalid board hw t.ext ⟨t.spll, t.ppsg⟩ hsequenced]
      simp [hruns, hsource, and_assoc]
    · rw [if_neg hsource, if_neg hsource]
      exact iff_of_true hsequenced (fun hgives => hsource hgives.1.2.1)
  · rw [if_neg hruns, if_neg hruns]
    exact iff_of_true hsequenced (fun hgives => hruns hgives.1.1)

/-- One event of a grandmaster. -/
theorem step_errorIsInvalid (e : Event) (h : s.ErrorIsInvalid) (he : e.OfGrandMaster) :
    (step board s e).ErrorIsInvalid ↔ ¬ GivesUpValid board s e := by
  have hother : (∀ tag hw, e ≠ .tag tag hw) → ¬ GivesUpValid board s e := by
    rintro hne ⟨tag, hw, rfl, -⟩
    exact hne tag hw rfl
  cases e with
  | tag tag hw =>
      by_cases htakes : s.takesTags = true
      · have htaken : ({ s with log := [] } : SoftpllState).takesTags = true := htakes
        simp only [step, htaken, if_true]
        rw [tagStep_errorIsInvalid board { s with log := [] } hw tag h]
        simp [GivesUpValid, htakes]
      · have hidle : ¬ ({ s with log := [] } : SoftpllState).takesTags = true := htakes
        simp only [step, hidle, Bool.false_eq_true, if_false]
        exact iff_of_true h (by simp [GivesUpValid, htakes])
  | init mode slaveRef alignPps hw =>
      refine iff_of_true ?_ (hother (by simp))
      obtain rfl := he mode slaveRef alignPps hw rfl
      cases hrefused : initRefused hw .grandMaster with
      | true =>
          rw [step, spllInit_refused board _ slaveRef alignPps hrefused]
          intro _
          exact BitVec.zero_and
      | false =>
          rw [step, spllInit_accepted board _ slaveRef alignPps hrefused]
          intro _
          exact BitVec.zero_and
  | shutdown => exact iff_of_true h (hother (by simp))
  | startChannel | stopChannel | setPhaseShift | enablePtracker | updateAuxClocks =>
      refine iff_of_true ?_ (hother (by simp))
      unfold SoftpllState.ErrorIsInvalid
      rw [(step_channelCall board s _ rfl).ext, step_channelCall_ppsg board s _ rfl]
      exact h

end Steps

/-- Over every run of a grandmaster, whatever came before it, the error state has
its flags clear if and only if the first stage is never given up with a flag set. -/
theorem error_state_invalid_iff (board : Board) (s : SoftpllState) (slaveRef : Int)
    (alignPps : Bool) (hw : InitStatus) (es : List Event) (hes : ∀ e ∈ es, e.OfGrandMaster) :
    Along (step board) (fun t e => (step board t e).ErrorIsInvalid)
        (step board s (.init .grandMaster slaveRef alignPps hw)) es ↔
      Along (step board) (fun t e => ¬ GivesUpValid board t e)
        (step board s (.init .grandMaster slaveRef alignPps hw)) es := by
  have hstart : (step board s (.init .grandMaster slaveRef alignPps hw)).ErrorIsInvalid := by
    intro _
    simp only [step, spllInit]
    split_ifs <;> exact BitVec.zero_and
  exact along_iff_of_invariant_on SoftpllState.ErrorIsInvalid Event.OfGrandMaster
    (fun t e h he hkeep => (step_errorIsInvalid board t e h he).mpr hkeep)
    (fun t e h he => step_errorIsInvalid board t e h he) hstart es hes

/-- The run of a grandmaster up to the start of its external PLL. -/
theorem error_state_invalid_iff_start :
    Along (step Board.wrc) (fun t e => (step Board.wrc t e).ErrorIsInvalid)
        (step Board.wrc powerUp (.init .grandMaster 0 true ⟨0x20100, true⟩))
        [tick 0, tick 100, tick 100] ↔
      Along (step Board.wrc) (fun t e => ¬ GivesUpValid Board.wrc t e)
        (step Board.wrc powerUp (.init .grandMaster 0 true ⟨0x20100, true⟩))
        [tick 0, tick 100, tick 100] :=
  error_state_invalid_iff Board.wrc powerUp 0 true ⟨0x20100, true⟩ [tick 0, tick 100, tick 100]
    (by simp [Event.OfGrandMaster, tick])

/-! ## A grandmaster that loses its reference -/

/-- The tag of the external reference. -/
def extTag (hw : HwStatus) : Event := .tag ⟨0, 3⟩ hw

/-- The reference is there. -/
def referenceOn : HwStatus := { extRefPresent := true }

/-- A node initialised as a grandmaster, with one reference, one main and one aux
output. -/
def grandMaster : SoftpllState :=
  step Board.wrc powerUp (.init .grandMaster 0 true ⟨0x20100, true⟩)

/-- The grandmaster up to the second alignment stage of its first session. -/
def toStage2 : List Event :=
  [tick 0, tick 100, tick 100, extTag referenceOn, extTag { referenceOn with alignDone := true }]

/-- The lock detector of the external PLL after `n` accepted samples. -/
def countingLd (n : Nat) : SpllLockDet where
  lockCnt := n
  lockSamples := 10000
  delockSamples := 9990
  threshold := 400
  locked := decide (n = 10000)
  lockChanged := decide (n = 10000)

/-- The external PLL on a reference that stands still. -/
def steadyExt (state : RealignState) (ld : SpllLockDet) : SpllExternalState where
  refSrc := 3
  realignClocks := true
  realignState := state
  realignTimer := 2000
  pi := {
    ki := 1
    kp := 300
    bias := 32768
    antiWindup := true
    yMin := 5
    yMax := 65531
    y := 32768 }
  lpShort := ⟨4000, 32768⟩
  lpLong := ⟨300, 32768⟩
  ld := ld

/-- A zero sample is accepted. -/
theorem ldUpdate_counting {n : Nat} (hn : n < 10000) :
    (ldUpdate (countingLd n) 0).1 = countingLd (n + 1) := by
  have haccepts : (countingLd n).accepts 0 := by
    show i32 |0| ≤ 400
    decide
  have hroom : (countingLd n).lockCnt < (countingLd n).lockSamples := by
    show (n : Int) < 10000
    omega
  unfold ldUpdate
  rw [if_pos haccepts, if_pos hroom]
  by_cases hlast : n + 1 = 10000
  · obtain rfl : n = 9999 := by omega
    rfl
  · have hcount : (countingLd n).lockCnt + 1 ≠ (countingLd n).lockSamples := by
      show (n : Int) + 1 ≠ 10000
      omega
    dsimp only
    rw [if_neg hcount]
    simp [countingLd, hlast, show n ≠ 10000 by omega]

/-- On a reference that stands still the loop only counts: its error is zero and
its output is the bias. -/
theorem externalUpdate_steady (hw : HwStatus) (state state' : RealignState) (ld : SpllLockDet)
    (regs regs' : ExternalRegs) (href : hw.extRefPresent = true)
    (hrealign : realignFsm Board.wrc hw (steadyExt state ld) regs =
      (steadyExt state' ld, regs')) :
    (externalUpdate Board.wrc hw (steadyExt state ld) regs 0 3).1 =
        steadyExt state' (ldUpdate ld 0).1 ∧
      (externalUpdate Board.wrc hw (steadyExt state ld) regs 0 3).2.1 = regs' := by
  have hsource : (3 : Int) = (steadyExt state ld).refSrc := rfl
  simp only [externalUpdate, if_pos hsource, hrealign, href, if_true, and_true]
  rfl

section GrandMaster

variable (board : Board) (s : SoftpllState) (tag : Tag) (hw : HwStatus)

/-- A processed tag of another channel reaches the external PLL as a start at most. -/
theorem tag_other_ext (htakes : s.view.takesTags = true)
    (hsource : (tag.chanId.toNat : Int) ≠ s.ext.refSrc) :
    (step board s (.tag tag hw)).ext =
        (if s.seqState = .startExt then (externalStart s.ext ⟨s.spll, s.ppsg⟩).1 else s.ext) ∧
      (step board s (.tag tag hw)).ppsg = s.ppsg := by
  have htaken : ({ s with log := [] } : SoftpllState).takesTags = true := htakes
  simp only [step, htaken, if_true, tagStep]
  obtain ⟨hext, hppsg⟩ := sequencingFsm_external board hw { s with log := [] }
  generalize sequencingFsm board hw { s with log := [] } = t at hext hppsg ⊢
  obtain ⟨hext', hppsg', -⟩ := updateLoops_external board hw t tag
  have hother : (tag.chanId.toNat : Int) ≠ t.ext.refSrc := by
    rw [hext]
    split_ifs <;> exact hsource
  rw [hext', hppsg', externalUpdate, if_neg hother, ite_self, ite_self]
  exact ⟨hext, hppsg⟩

/-- A processed tag of the reference, when the sequencer stays in a state in which
the external PLL runs. -/
theorem tag_ref_ext (htakes : s.view.takesTags = true) (hmode : s.view.mode = .grandMaster)
    (hstays : sequencingFsm board hw { s with log := [] } = { s with log := [] })
    (hruns : s.view.seqState.runsExternal = true) :
    (step board s (.tag tag hw)).ext =
        (externalUpdate board hw s.ext ⟨s.spll, s.ppsg⟩ tag.value.toNat tag.chanId.toNat).1 ∧
      (step board s (.tag tag hw)).ppsg =
        (externalUpdate board hw s.ext ⟨s.spll, s.ppsg⟩ tag.value.toNat
          tag.chanId.toNat).2.1.ppsg := by
  have htaken : ({ s with log := [] } : SoftpllState).takesTags = true := htakes
  simp only [step, htaken, if_true, tagStep, hstays]
  have hrunning : ({ s with log := [] } : SoftpllState).RunsExternal := ⟨hmode, hruns⟩
  obtain ⟨hext, hppsg, -⟩ := updateLoops_external board hw { s with log := [] } tag
  rw [if_pos hrunning] at hext hppsg
  exact ⟨hext, hppsg⟩

/-- The sequencer waits for the external PLL. -/
theorem sequencingFsm_waitExt (hstate : s.seqState = .waitExt)
    (hlock : externalLocked s.ext = false) : sequencingFsm board hw s = s := by
  simp [sequencingFsm, hstate, hlock]

/-- A grandmaster with both loops locked stays in `ready`. -/
theorem sequencingFsm_ready_grandMaster (hstate : s.view.seqState = .ready)
    (hmode : s.view.mode = .grandMaster) (hhelper : s.view.helper.ld.locked = true)
    (hlock : externalLocked s.ext = true) :
    sequencingFsm board hw { s with log := [] } = { s with log := [] } := by
  have hmode' : s.mode = .grandMaster := hmode
  have hhelper' : s.helper.ld.locked = true := hhelper
  rw [sequencingFsm_ready board hw { s with log := [] } hstate]
  simp [hmode', hhelper', hlock]

theorem view_externalLocked (hstate : s.view.seqState = .waitExt)
    (hlock : externalLocked s.ext = true) :
    (sequencingFsm board hw { s with log := [] }).view =
      { s.view with seqState := .startHelper } := by
  have hstate' : s.seqState = .waitExt := hstate
  simp only [sequencingFsm, hstate', hlock, if_true]
  rfl

/-- The state `helper_start` leaves. -/
def helperRestart (h : SpllHelperState) : SpllHelperState := (helperStart 0 h {}).1

theorem view_startHelper (hstate : s.view.seqState = .startHelper) :
    (sequencingFsm board hw { s with log := [] }).view =
      { s.view with seqState := .waitHelper, helper := helperRestart s.view.helper } := by
  have hstate' : s.seqState = .startHelper := hstate
  simp only [sequencingFsm, hstate']
  simp [startHelper, helperStart, helperRestart, SoftpllState.view, SoftpllState.takesTags]

/-- A grandmaster that has lost its reference starts the external PLL anew. -/
theorem view_externalLost (hstate : s.view.seqState = .ready)
    (hmode : s.view.mode = .grandMaster) (hhelper : s.view.helper.ld.locked = true)
    (hlock : externalLocked s.ext = false) :
    (sequencingFsm board hw { s with log := [] }).view = { s.view with seqState := .startExt } := by
  have hmode' : s.mode = .grandMaster := hmode
  have hhelper' : s.helper.ld.locked = true := hhelper
  rw [sequencingFsm_ready board hw { s with log := [] } hstate]
  simp [hmode', hhelper', hlock, SoftpllState.view, SoftpllState.takesTags]

theorem view_startExt (hstate : s.view.seqState = .startExt) :
    (sequencingFsm board hw { s with log := [] }).view = { s.view with seqState := .waitExt } := by
  have hstate' : s.seqState = .startExt := hstate
  simp only [sequencingFsm, hstate']
  simp [startExternal, externalStart, SoftpllState.view, SoftpllState.takesTags]

end GrandMaster

/-- In the states before the helper runs, no loop of the view sees the tag. -/
theorem afterLoops_waiting {v : LoopView} (tag : Tag) (h : v.seqState.runsHelper = false) :
    v.afterLoops tag = v := by
  obtain ⟨mode, state, takesTags, nChanOut, shiftPs, helper, mpll, aux⟩ := v
  cases state with
  | waitHelper | startMain | waitMain | ready => simp [SeqState.runsHelper] at h
  | none | startExt | waitExt | startHelper | disabled | clearDacs | waitClearDacs => rfl

/-- What the run of the grandmaster is followed on. -/
structure GrandMasterAt (v : LoopView) (ext : SpllExternalState) (escr : BitVec 32)
    (s : SoftpllState) : Prop where
  view : s.view = v
  ext : s.ext = ext
  escr : s.ppsg.escr = escr

section Session

variable {v : LoopView} {ext ext' : SpllExternalState} {escr escr' : BitVec 32}
  {s : SoftpllState}

/-- A tag of the reference that leaves the sequencer and the other loops alone. -/
theorem grandMasterAt_ref (h : GrandMasterAt v ext escr s) (hw : HwStatus)
    (htakes : v.takesTags = true) (hmode : v.mode = .grandMaster)
    (hstays : sequencingFsm Board.wrc hw { s with log := [] } = { s with log := [] })
    (hruns : v.seqState.runsExternal = true) (hidle : v.afterLoops ⟨0, 3⟩ = v)
    (hupdate : ∀ regs : ExternalRegs, regs.ppsg.escr = escr →
      (externalUpdate Board.wrc hw ext regs 0 3).1 = ext' ∧
        (externalUpdate Board.wrc hw ext regs 0 3).2.1.ppsg.escr = escr') :
    GrandMasterAt v ext' escr' (step Board.wrc s (extTag hw)) := by
  obtain ⟨rfl, rfl, rfl⟩ := h
  obtain ⟨hext, hppsg⟩ := tag_ref_ext Board.wrc s ⟨0, 3⟩ hw htakes hmode hstays hruns
  obtain ⟨hnext, hescr⟩ := hupdate ⟨s.spll, s.ppsg⟩ rfl
  refine ⟨?_, hext.trans hnext, (congrArg PpsgWB.escr hppsg).trans hescr⟩
  rw [extTag, view_tag _ _ _ _ htakes, hstays]
  exact hidle

/-- A tag of the reference while the sequencer waits for the external PLL. -/
theorem grandMasterAt_waitExt (h : GrandMasterAt v ext escr s) (hw : HwStatus)
    (htakes : v.takesTags = true) (hmode : v.mode = .grandMaster)
    (hstate : v.seqState = .waitExt) (hlock : externalLocked ext = false)
    (hupdate : ∀ regs : ExternalRegs, regs.ppsg.escr = escr →
      (externalUpdate Board.wrc hw ext regs 0 3).1 = ext' ∧
        (externalUpdate Board.wrc hw ext regs 0 3).2.1.ppsg.escr = escr') :
    GrandMasterAt v ext' escr' (step Board.wrc s (extTag hw)) := by
  have hwaits : s.seqState = .waitExt := (congrArg LoopView.seqState h.view).trans hstate
  have hunlocked : externalLocked s.ext = false := (congrArg externalLocked h.ext).trans hlock
  exact grandMasterAt_ref h hw htakes hmode
    (sequencingFsm_waitExt Board.wrc { s with log := [] } hw hwaits hunlocked)
    (by rw [hstate]; rfl) (afterLoops_waiting _ (by rw [hstate]; rfl)) hupdate

/-- A tag of a channel without a loop. -/
theorem grandMasterAt_idle (h : GrandMasterAt v ext escr s) (htakes : v.takesTags = true)
    (href : ext.refSrc = 3) {w : LoopView}
    (hsequenced : (sequencingFsm Board.wrc {} { s with log := [] }).view = w) :
    GrandMasterAt (w.afterLoops ⟨0, 127⟩)
      (if v.seqState = .startExt then (externalStart ext ⟨s.spll, s.ppsg⟩).1 else ext) escr
      (step Board.wrc s (tagOn 127 0)) := by
  obtain ⟨rfl, rfl, rfl⟩ := h
  obtain ⟨hext, hppsg⟩ := tag_other_ext Board.wrc s ⟨0, 127⟩ {} htakes (by rw [href]; decide)
  refine ⟨?_, hext, congrArg PpsgWB.escr hppsg⟩
  rw [tagOn, view_tag _ _ _ _ htakes, hsequenced]
  rfl

end Session

/-- The reference tags that lock the external PLL. -/
def lockRun (n : Nat) : List Event := (List.range n).flatMap fun _ => [extTag referenceOn]

/-- The view of the grandmaster while its external PLL locks. -/
def waitingView : LoopView := (run (step Board.wrc) grandMaster toStage2).view

theorem waitingView_spec : waitingView.mode = .grandMaster ∧ waitingView.takesTags = true ∧
    waitingView.seqState = .waitExt ∧
    HelperConfigured (helperRestart waitingView.helper) (1 : Nat) :=
  ⟨rfl, rfl, rfl, rfl, rfl, rfl, rfl⟩

theorem grandMasterAt_stage2 :
    GrandMasterAt waitingView (steadyExt .stage2 (countingLd 2)) 0
      (run (step Board.wrc) grandMaster toStage2) :=
  ⟨rfl, by decide +kernel, rfl⟩

/-- The external PLL locks. -/
theorem grandMasterAt_locked :
    GrandMasterAt waitingView (steadyExt .stage2 (countingLd 10000)) 0
      (run (step Board.wrc) grandMaster (toStage2 ++ lockRun 9998)) := by
  obtain ⟨hmode, htakes, hstate, -⟩ := waitingView_spec
  rw [run_append]
  refine run_blocks (step Board.wrc)
    (fun k => GrandMasterAt waitingView (steadyExt .stage2 (countingLd (k + 2))) 0)
    (fun _ => [extTag referenceOn]) 9998 ?_ grandMasterAt_stage2
  intro k hk t ht
  refine grandMasterAt_waitExt ht referenceOn htakes hmode hstate ?_ ?_
  · simp [externalLocked, steadyExt]
  · intro regs hescr
    have hlocked : (steadyExt .stage2 (countingLd (k + 2))).ld.locked = false :=
      decide_eq_false (by omega)
    obtain ⟨hext, hregs⟩ := externalUpdate_steady referenceOn .stage2 .stage2
      (countingLd (k + 2)) regs regs rfl (by simp [realignFsm, steadyExt, countingLd]; omega)
    rw [hext, hregs, ldUpdate_counting (by omega)]
    exact ⟨rfl, hescr⟩

/-- The grandmaster up to the end of its first alignment. -/
def toDone : List Event :=
  toStage2 ++ lockRun 9998 ++ [extTag referenceOn, extTag { referenceOn with ppsSync := true }]

/-- The PPS is aligned and valid. -/
theorem grandMasterAt_done :
    GrandMasterAt waitingView (steadyExt .done (countingLd 10000)) validFlags
      (run (step Board.wrc) grandMaster toDone) := by
  obtain ⟨hmode, htakes, hstate, -⟩ := waitingView_spec
  have hlocked := grandMasterAt_locked
  rw [toDone, run_append, run_cons, run_cons, run_nil]
  generalize run (step Board.wrc) grandMaster (toStage2 ++ lockRun 9998) = t at hlocked ⊢
  have hsyncs : GrandMasterAt waitingView (steadyExt .stage2Wait (countingLd 10000)) ppsgEscrSync
      (step Board.wrc t (extTag referenceOn)) := by
    apply grandMasterAt_waitExt hlocked _ htakes hmode hstate rfl
    intro regs hescr
    have htimer : i32 ((referenceOn.tics.toNat : Int) + 2 * Board.wrc.ticsPerSecond) = 2000 := by
      decide
    obtain ⟨hext, hregs⟩ := externalUpdate_steady referenceOn .stage2 .stage2Wait
      (countingLd 10000) regs _ rfl (by simp [realignFsm, steadyExt, countingLd, htimer]; rfl)
    rw [hext, hregs]
    exact ⟨rfl, rfl⟩
  apply grandMasterAt_waitExt hsyncs _ htakes hmode hstate rfl
  intro regs hescr
  obtain ⟨hext, hregs⟩ := externalUpdate_steady { referenceOn with ppsSync := true } .stage2Wait
    .done (countingLd 10000) regs _ rfl rfl
  rw [hext, hregs]
  exact ⟨rfl, rfl⟩

/-- The aligned grandmaster up to the start of its helper. -/
theorem grandMasterAt_helper :
    GrandMasterAt { waitingView with
        seqState := .waitHelper
        helper := helperRestart waitingView.helper } (steadyExt .done (countingLd 10000)) validFlags
      (run (step Board.wrc) grandMaster (toDone ++ [tagOn 127 0, tagOn 127 0])) := by
  obtain ⟨-, htakes, hstate, hconfigured⟩ := waitingView_spec
  have hdone := grandMasterAt_done
  rw [run_append, run_cons, run_cons, run_nil]
  generalize run (step Board.wrc) grandMaster toDone = t at hdone ⊢
  have hstarts : GrandMasterAt { waitingView with seqState := .startHelper }
      (steadyExt .done (countingLd 10000)) validFlags (step Board.wrc t (tagOn 127 0)) := by
    have hnext := grandMasterAt_idle hdone htakes rfl
      (view_externalLocked Board.wrc t {} (by rw [hdone.view]; exact hstate)
        (by rw [hdone.ext]; rfl))
    rw [hdone.view, if_neg (by rw [hstate]; decide), afterLoops_waiting _ rfl] at hnext
    exact hnext
  generalize step Board.wrc t (tagOn 127 0) = u at hstarts ⊢
  have hnext := grandMasterAt_idle hstarts htakes rfl
    (view_startHelper Board.wrc u {} (by rw [hstarts.view]))
  have hidle := hconfigured.idle (by decide : (127 : Int) ≠ _) 0
  rw [hstarts.view] at hnext
  simpa [LoopView.afterLoops, SeqState.runsHelper, hidle] using hnext

/-- The grandmaster up to `ready`. -/
def grandMasterToReady : List Event :=
  toDone ++ [tagOn 127 0, tagOn 127 0] ++ tagRun steadyTags 1 0 10001 ++ [tagOn 127 0]

theorem grandMasterAt_ready : ∃ h : SpllHelperState,
    GrandMasterAt { waitingView with seqState := .ready, helper := h }
      (steadyExt .done (countingLd 10000)) validFlags
      (run (step Board.wrc) grandMaster grandMasterToReady) ∧
    h.refSrc = 1 ∧ h.ld.locked = true := by
  obtain ⟨hmode, htakes, hstate, hconfigured⟩ := waitingView_spec
  have hstarted := grandMasterAt_helper
  rw [grandMasterToReady, run_append, run_append, run_cons, run_nil]
  generalize run (step Board.wrc) grandMaster (toDone ++ [tagOn 127 0, tagOn 127 0]) = t
    at hstarted ⊢
  generalize waitingView = v at hmode htakes hstate hconfigured hstarted ⊢
  -- the tags of the helper leave the aligned external PLL alone
  have hframe : ∀ (u : SoftpllState) (value : Nat), u.view.takesTags = true →
      u.view.seqState = .waitHelper →
      u.ext = steadyExt .done (countingLd 10000) ∧ u.ppsg.escr = validFlags →
      (step Board.wrc u (tagOn 1 value)).ext = steadyExt .done (countingLd 10000) ∧
        (step Board.wrc u (tagOn 1 value)).ppsg.escr = validFlags := by
    rintro u value hu hwait ⟨huExt, huEscr⟩
    have hsource : (((1 : BitVec 7).toNat : Nat) : Int) ≠ u.ext.refSrc := by
      rw [huExt]
      show (1 : Int) ≠ 3
      decide
    obtain ⟨hext, hppsg⟩ := tag_other_ext Board.wrc u ⟨BitVec.ofNat 24 value, 1⟩ {} hu hsource
    have hwait' : u.seqState = .waitHelper := hwait
    rw [if_neg (by simp [hwait'])] at hext
    exact ⟨hext.trans huExt, (congrArg PpsgWB.escr hppsg).trans huEscr⟩
  obtain ⟨h, hview, hfollows, hext, hescr⟩ := helper_locks_frame steadyTags_sequence
    (fun n hn => steadyTags_inside hn) hstarted.view (by decide) htakes rfl
    hconfigured rfl (by show (-1 : Int) < 0; decide) rfl rfl _ hframe
    ⟨hstarted.ext, hstarted.escr⟩
  generalize run (step Board.wrc) t (tagRun steadyTags 1 0 10001) = u at hview hext hescr ⊢
  have hlocked := hfollows.isLocked
  have hidle := hfollows.configured.idle (by decide : (127 : Int) ≠ _) 0
  have hnext := grandMasterAt_idle ⟨hview, hext, hescr⟩ htakes rfl
    (view_helperLocked_master Board.wrc u {} (by rw [hview]) (by rw [hview]; simp [hmode])
      (by rw [hview]; exact hlocked) (by rw [hview]; exact hfollows.changed rfl))
  refine ⟨h, ?_, hfollows.configured.refSrc, hlocked⟩
  rw [hview] at hnext
  simpa [LoopView.afterLoops, SeqState.runsHelper, hidle, hmode] using hnext

/-- The external PLL after a tag without its reference. -/
def lostExt : SpllExternalState :=
  (externalUpdate Board.wrc {} (steadyExt .done (countingLd 10000)) ⟨{}, {}⟩ 0 3).1

/-- The external PLL after the first tag of its next session. -/
def waitingExt : SpllExternalState :=
  (externalUpdate Board.wrc referenceOn { lostExt with realignState := .stage1 } ⟨{}, {}⟩ 0 3).1

/-- The grandmaster loses its reference, starts over, and gives the alignment up. -/
def referenceLost : List Event :=
  grandMasterToReady ++ [extTag {}, tagOn 127 0, tagOn 127 0, extTag referenceOn,
    extTag { tics := 3000 }]

theorem lostExt_spec : lostExt.realignState = .done ∧ externalLocked lostExt = false ∧
    lostExt.refSrc = 3 ∧ lostExt.realignClocks = true ∧ waitingExt.realignState = .stage1Wait ∧
    waitingExt.realignTimer = 2000 ∧ waitingExt.refSrc = 3 ∧ externalLocked waitingExt = false := by
  decide +kernel

/-- The error state of the second session, with the flags of the first one. -/
theorem grandMasterAt_lost : ∃ v ext, ext.realignState = .ppsInvalid ∧
    GrandMasterAt v ext validFlags (run (step Board.wrc) grandMaster referenceLost) := by
  obtain ⟨hmode, htakes, -⟩ := waitingView_spec
  obtain ⟨-, hunlocked, href, hclocks, hstage, htimer, hwaitRef, hwaitLock⟩ := lostExt_spec
  obtain ⟨h, hready, hhelper, hlocked⟩ := grandMasterAt_ready
  rw [referenceLost, run_append]
  generalize run (step Board.wrc) grandMaster grandMasterToReady = t at hready ⊢
  generalize waitingView = v at hmode htakes hready
  rw [run_cons, run_cons, run_cons, run_cons, run_cons, run_nil]
  have hidle : (helperUpdate h 0 3).1 = h := by
    rw [helperUpdate_other (by rw [hhelper]; decide)]
  -- the reference is gone: the external PLL notices, the sequencer does not yet
  have hlost : GrandMasterAt { v with seqState := .ready, helper := h } lostExt validFlags
      (step Board.wrc t (extTag {})) := by
    have hstate : t.view.seqState = .ready := by rw [hready.view]
    have hmode' : t.view.mode = .grandMaster := by
      rw [hready.view]
      exact hmode
    have hhelper' : t.view.helper.ld.locked = true := by
      rw [hready.view]
      exact hlocked
    have hlock : externalLocked t.ext = true := by
      rw [hready.ext]
      rfl
    have hstays : sequencingFsm Board.wrc {} { t with log := [] } = { t with log := [] } :=
      sequencingFsm_ready_grandMaster Board.wrc t {} hstate hmode' hhelper' hlock
    refine grandMasterAt_ref hready {} htakes hmode hstays rfl ?_ ?_
    · simp [LoopView.afterLoops, SeqState.runsHelper, hidle, hmode]
    · intro regs hescr
      refine ⟨(externalUpdate_regs _ _ _ _ _ _ _).1, ?_⟩
      rw [(externalUpdate_realign _ _ _ _ _ _).2]
      simpa [realignFsm, steadyExt] using hescr
  generalize step Board.wrc t (extTag {}) = u at hlost ⊢
  -- it starts over at the next tag, and restarts the alignment with the one after it
  have hstart : GrandMasterAt { v with seqState := .startExt, helper := h } lostExt validFlags
      (step Board.wrc u (tagOn 127 0)) := by
    have hnext := grandMasterAt_idle hlost htakes href
      (view_externalLost Board.wrc u {} (by rw [hlost.view]) (by rw [hlost.view]; exact hmode)
        (by rw [hlost.view]; exact hlocked) (by rw [hlost.ext]; exact hunlocked))
    rw [hlost.view, if_neg (by simp), afterLoops_waiting _ rfl] at hnext
    exact hnext
  generalize step Board.wrc u (tagOn 127 0) = w at hstart ⊢
  have hrestart : GrandMasterAt { v with seqState := .waitExt, helper := h }
      { lostExt with realignState := .stage1 } validFlags (step Board.wrc w (tagOn 127 0)) := by
    have hnext := grandMasterAt_idle hstart htakes href
      (view_startExt Board.wrc w {} (by rw [hstart.view]))
    rw [hstart.view, if_pos rfl, afterLoops_waiting _ rfl, externalStart, hclocks] at hnext
    exact hnext
  generalize step Board.wrc w (tagOn 127 0) = x at hrestart ⊢
  -- the alignment waits for the pulse of the reference
  have hwaits : GrandMasterAt { v with seqState := .waitExt, helper := h } waitingExt validFlags
      (step Board.wrc x (extTag referenceOn)) := by
    refine grandMasterAt_waitExt hrestart _ htakes hmode rfl ?_ ?_
    · simp [externalLocked, hclocks]
    · intro regs hescr
      refine ⟨(externalUpdate_regs _ _ _ _ _ _ _).1, ?_⟩
      rw [(externalUpdate_realign _ _ _ _ _ _).2]
      simpa [href, realignFsm] using hescr
  generalize step Board.wrc x (extTag referenceOn) = y at hwaits ⊢
  -- which is too late
  have hlate : timeAfter ((3000 : BitVec 32).toNat : Int) 2000 = true := by decide
  refine ⟨_, (externalUpdate Board.wrc { tics := 3000 } waitingExt ⟨{}, {}⟩ 0 3).1, ?_,
    grandMasterAt_waitExt hwaits { tics := 3000 } htakes hmode rfl hwaitLock ?_⟩
  · rw [(externalUpdate_realign _ _ _ _ _ _).1, if_pos hwaitRef.symm]
    simp only [realignFsm, hstage, htimer]
    rw [if_neg (by simp), if_pos hlate]
  · intro regs hescr
    refine ⟨(externalUpdate_regs _ _ _ _ _ _ _).1, ?_⟩
    rw [(externalUpdate_realign _ _ _ _ _ _).2, if_pos hwaitRef.symm]
    simp only [realignFsm, hstage, htimer]
    rw [if_neg (by simp), if_pos hlate]
    exact hescr

/-- The alignment of the second session is given up, and the PPS stays flagged as
valid. -/
theorem error_state_valid :
    ¬ Along (step Board.wrc) (fun t e => (step Board.wrc t e).ErrorIsInvalid)
      (step Board.wrc powerUp (.init .grandMaster 0 true ⟨0x20100, true⟩)) referenceLost := by
  intro halong
  obtain ⟨v, ext, hstate, hlost⟩ := grandMasterAt_lost
  have hsplit : referenceLost = (grandMasterToReady ++ [extTag {}, tagOn 127 0, tagOn 127 0,
      extTag referenceOn]) ++ [extTag { tics := 3000 }] := by
    rw [referenceLost, List.append_assoc]
    rfl
  rw [← grandMaster, hsplit] at halong
  rw [hsplit, run_append, run_cons, run_nil] at hlost
  have hlast := along_last halong
  generalize step Board.wrc (run (step Board.wrc) grandMaster (grandMasterToReady ++
    [extTag {}, tagOn 127 0, tagOn 127 0, extTag referenceOn])) (extTag { tics := 3000 }) = t
    at hlost hlast
  have hclear := hlast (by rw [hlost.ext, hstate])
  rw [hlost.escr] at hclear
  exact absurd hclear (by decide)

end Softpll
end WrpcSw
