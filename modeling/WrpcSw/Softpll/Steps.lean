import Mathlib.Tactic
import WrpcSw.Softpll.SoftpllNg

/-!
# What the steps of the SoftPLL can do

One lemma for each function of `SoftpllNg`: which fields it leaves alone, and
what it leaves in the others.  The loops over the channels are resolved here
once; the invariants of the later modules are case analyses over these lemmas
and never unfold the functions again.

* `sequencingFsm_to_ready` — the two ways into `ready`.
* `tagStep_*` — the fields no tag changes.
* `auxNext` — a poll of one channel as a function of the data it reads, and
  `spllUpdateAuxClocks_eq`, the whole poll.
-/

namespace WrpcSw
namespace Softpll

open CInt Run

/-! ## Tag enable registers -/

@[simp] theorem spllEnableTagger_eicTag (n : Nat) (regs : SpllWB) (channel : Int)
    (enable : Bool) : (spllEnableTagger n regs channel enable).eicTag = regs.eicTag := by
  unfold spllEnableTagger
  split <;> rfl

/-! ## The sequencer -/

/-- Restarting the phase trackers touches the trackers and the tag enables. -/
theorem startPtrackers_eq (s : SoftpllState) :
    ∃ trackers regs, startPtrackers s = { s with ptrackers := trackers, spll := regs } ∧
      regs.eicTag = s.spll.eicTag := by
  unfold startPtrackers
  refine loop_induction (fun _ t => ∃ trackers regs,
    t = { s with ptrackers := trackers, spll := regs } ∧ regs.eicTag = s.spll.eicTag)
    startPtracker s.nChanRef ?_ ⟨s.ptrackers, s.spll, rfl, rfl⟩
  rintro i - t ⟨trackers, regs, rfl, hregs⟩
  unfold startPtracker
  split
  · refine ⟨_, _, rfl, ?_⟩
    simpa [ptrackerStart] using hregs
  · exact ⟨trackers, regs, rfl, hregs⟩

/-- The fields that the sequencer and the loops never assign. -/
structure SameSession (s t : SoftpllState) : Prop where
  mode : t.mode = s.mode
  nChanRef : t.nChanRef = s.nChanRef
  nChanOut : t.nChanOut = s.nChanOut
  mpllShiftPs : t.mpllShiftPs = s.mpllShiftPs
  irqEnabled : t.irqEnabled = s.irqEnabled
  eicTag : t.spll.eicTag = s.spll.eicTag
  auxSeqState : ∀ i, (t.aux i).seqState = (s.aux i).seqState

theorem SameSession.refl (s : SoftpllState) : SameSession s s :=
  ⟨rfl, rfl, rfl, rfl, rfl, rfl, fun _ => rfl⟩

theorem SameSession.trans {s t u : SoftpllState} (h : SameSession s t)
    (k : SameSession t u) : SameSession s u where
  mode := k.mode.trans h.mode
  nChanRef := k.nChanRef.trans h.nChanRef
  nChanOut := k.nChanOut.trans h.nChanOut
  mpllShiftPs := k.mpllShiftPs.trans h.mpllShiftPs
  irqEnabled := k.irqEnabled.trans h.irqEnabled
  eicTag := k.eicTag.trans h.eicTag
  auxSeqState i := (k.auxSeqState i).trans (h.auxSeqState i)

theorem SameSession.takesTags {s t : SoftpllState} (h : SameSession s t) :
    t.takesTags = s.takesTags := by
  simp [SoftpllState.takesTags, h.irqEnabled, h.eicTag]

section Sequencer

variable (board : Board) (hw : HwStatus) (s : SoftpllState)

theorem sequencingFsm_session : SameSession s (sequencingFsm board hw s) := by
  obtain ⟨trackers, regs, hstart, hregs⟩ := startPtrackers_eq s
  unfold sequencingFsm
  cases s.seqState with
  | none | disabled => exact SameSession.refl s
  | clearDacs => exact ⟨rfl, rfl, rfl, rfl, rfl, by simp, fun _ => rfl⟩
  | startExt =>
      exact ⟨rfl, rfl, rfl, rfl, rfl, by simp [startExternal, externalStart], fun _ => rfl⟩
  | startHelper => exact ⟨rfl, rfl, rfl, rfl, rfl, by simp [startHelper, helperStart], fun _ => rfl⟩
  | startMain => exact ⟨rfl, rfl, rfl, rfl, rfl, by simp [startMain, mpllStart], fun _ => rfl⟩
  | waitClearDacs | waitExt | ready =>
      dsimp only
      split_ifs <;> exact ⟨rfl, rfl, rfl, rfl, rfl, rfl, fun _ => rfl⟩
  | waitHelper | waitMain =>
      dsimp only
      rw [hstart]
      split_ifs <;> exact ⟨rfl, rfl, rfl, rfl, rfl, by first | exact hregs | rfl, fun _ => rfl⟩

/-- The sequencer never assigns an aux channel. -/
theorem sequencingFsm_aux : (sequencingFsm board hw s).aux = s.aux := by
  obtain ⟨trackers, regs, hstart, -⟩ := startPtrackers_eq s
  unfold sequencingFsm
  cases s.seqState <;> dsimp only <;> (try rw [hstart]) <;> (try split_ifs) <;> rfl

/-- The sequencer restarts the external PLL in `startExt` and touches it nowhere
else; it never touches the PPS generator. -/
theorem sequencingFsm_external :
    (sequencingFsm board hw s).ext =
        (if s.seqState = .startExt then (externalStart s.ext ⟨s.spll, s.ppsg⟩).1 else s.ext) ∧
      (sequencingFsm board hw s).ppsg = s.ppsg := by
  obtain ⟨trackers, regs, hstart, -⟩ := startPtrackers_eq s
  unfold sequencingFsm
  cases hstate : s.seqState with
  | none | disabled | clearDacs | startExt | startHelper | startMain => exact ⟨rfl, rfl⟩
  | waitClearDacs | waitExt | ready =>
      simp only [reduceCtorEq, if_false]
      split_ifs <;> exact ⟨rfl, rfl⟩
  | waitHelper | waitMain =>
      simp only [reduceCtorEq, if_false]
      rw [hstart]
      split_ifs <;> exact ⟨rfl, rfl⟩

theorem sequencingFsm_waitHelper (hstate : s.seqState = .waitHelper) :
    sequencingFsm board hw s =
      if s.helper.ld.locked && s.helper.ld.lockChanged then
        if s.mode = .slave then { s with seqState := .startMain }
        else { startPtrackers s with seqState := .ready }
      else s := by
  simp only [sequencingFsm, hstate]

theorem sequencingFsm_startMain (hstate : s.seqState = .startMain) :
    sequencingFsm board hw s = startMain s := by
  simp only [sequencingFsm, hstate]

/-- The sequencer restarts the main PLL in `startMain` and touches it nowhere
else. -/
theorem sequencingFsm_mpll :
    (sequencingFsm board hw s).mpll =
      if s.seqState = .startMain then mpllRestart s.mpll else s.mpll := by
  by_cases hmain : s.seqState = .startMain
  · rw [if_pos hmain, sequencingFsm_startMain board hw s hmain]
    rfl
  · rw [if_neg hmain]
    obtain ⟨trackers, regs, hstart, -⟩ := startPtrackers_eq s
    unfold sequencingFsm
    cases hstate : s.seqState with
    | startMain => exact absurd hstate hmain
    | none | startExt | startHelper | disabled | clearDacs => rfl
    | waitExt | ready | waitClearDacs =>
        dsimp only
        split_ifs <;> rfl
    | waitHelper | waitMain =>
        dsimp only
        rw [hstart]
        split_ifs <;> rfl

/-- The sequencer enters `startExt` in grandmaster mode only. -/
theorem sequencingFsm_startExt (h : (sequencingFsm board hw s).seqState = .startExt) :
    s.mode = .grandMaster := by
  cases hstate : s.seqState with
  | none | disabled | clearDacs | startExt | startHelper | startMain =>
      simp [sequencingFsm, hstate, startExternal, startHelper, startMain] at h
  | waitClearDacs =>
      simp only [sequencingFsm, hstate] at h
      split_ifs at h with htime hmode
      · exact hmode
      · simp [hstate] at h
  | waitExt | waitHelper | waitMain =>
      simp only [sequencingFsm, hstate] at h
      split_ifs at h
      simp [hstate] at h
  | ready =>
      simp only [sequencingFsm, hstate] at h
      split_ifs at h with hhelper hmode hmain
      · exact hmode.1
      · simp [hstate] at h

/-- The states in which the helper runs are entered from `startHelper` only. -/
theorem sequencingFsm_runsHelper (h : (sequencingFsm board hw s).seqState.runsHelper = true) :
    s.seqState = .startHelper ∨ s.seqState.runsHelper = true := by
  cases hstate : s.seqState with
  | startHelper => exact Or.inl rfl
  | waitHelper | startMain | waitMain | ready => exact Or.inr rfl
  | none | disabled | clearDacs | startExt =>
      simp [sequencingFsm, hstate, startExternal, SeqState.runsHelper] at h
  | waitClearDacs | waitExt =>
      simp only [sequencingFsm, hstate] at h
      split_ifs at h <;> simp [hstate, SeqState.runsHelper] at h

/-- The sequencer restarts the helper in `startHelper` and touches it nowhere else. -/
theorem sequencingFsm_helper :
    (sequencingFsm board hw s).helper =
      if s.seqState = .startHelper then (helperStart s.nChanRef s.helper s.spll).1
      else s.helper := by
  obtain ⟨trackers, regs, hstart, -⟩ := startPtrackers_eq s
  unfold sequencingFsm
  cases hstate : s.seqState with
  | none | disabled | clearDacs | startExt | startHelper | startMain => rfl
  | waitClearDacs | waitExt | ready =>
      simp only [reduceCtorEq, if_false]
      split_ifs <;> rfl
  | waitHelper | waitMain =>
      simp only [reduceCtorEq, if_false]
      rw [hstart]
      split_ifs <;> rfl

/-- The sequencer never gives the helper another reference. -/
theorem sequencingFsm_refSrc : (sequencingFsm board hw s).helper.refSrc = s.helper.refSrc := by
  rw [sequencingFsm_helper]
  split_ifs <;> rfl

/-- The main PLL runs in the states entered from `startMain` only. -/
theorem sequencingFsm_runsMpll
    (h : (sequencingFsm board hw s).seqState = .waitMain ∨
      ((sequencingFsm board hw s).seqState = .ready ∧ s.mode = .slave)) :
    s.seqState = .startMain ∨ s.seqState = .waitMain ∨
      (s.seqState = .ready ∧ s.mode = .slave) := by
  cases hstate : s.seqState with
  | startMain => exact Or.inl rfl
  | waitMain => exact Or.inr (Or.inl rfl)
  | none | disabled | clearDacs | startExt | startHelper =>
      simp [sequencingFsm, hstate, startExternal, startHelper] at h
  | waitClearDacs | waitExt =>
      simp only [sequencingFsm, hstate] at h
      split_ifs at h <;> simp [hstate] at h
  | waitHelper =>
      simp only [sequencingFsm, hstate] at h
      split_ifs at h with hlock hmode
      · simp at h
      · simp [hmode] at h
      · simp [hstate] at h
  | ready =>
      refine Or.inr (Or.inr ⟨rfl, ?_⟩)
      simp only [sequencingFsm, hstate] at h
      split_ifs at h <;> simp_all

theorem sequencingFsm_waitMain (hstate : s.seqState = .waitMain) :
    sequencingFsm board hw s =
      if s.mpll.ld.locked then { startPtrackers s with seqState := .ready } else s := by
  simp only [sequencingFsm, hstate]

theorem sequencingFsm_ready (hstate : s.seqState = .ready) :
    sequencingFsm board hw s =
      if !s.helper.ld.locked then
        { s with delockCount := s.delockCount + 1, seqState := .clearDacs }
      else if s.mode = .grandMaster ∧ !externalLocked s.ext then
        { s with delockCount := s.delockCount + 1, seqState := .startExt }
      else if s.mode = .slave ∧ !s.mpll.ld.locked then
        { s with delockCount := s.delockCount + 1, seqState := .clearDacs }
      else s := by
  simp only [sequencingFsm, hstate]

/-- The guards of the two ways into `ready`. -/
def SoftpllState.EntersReady (s : SoftpllState) : Prop :=
  (s.seqState = .waitHelper ∧ s.mode ≠ .slave ∧ s.helper.ld.locked = true ∧
      s.helper.ld.lockChanged = true) ∨
    (s.seqState = .waitMain ∧ s.mpll.ld.locked = true)

/-- Every other assignment of the sequencer is to a state other than `ready`;
on the way into it the three loops are left alone. -/
theorem sequencingFsm_to_ready (hne : s.seqState ≠ .ready) :
    (sequencingFsm board hw s).seqState = .ready ↔ s.EntersReady := by
  cases hstate : s.seqState with
  | none | disabled => simp [sequencingFsm, SoftpllState.EntersReady, hstate]
  | clearDacs | startExt | startHelper | startMain =>
      simp [sequencingFsm, SoftpllState.EntersReady, hstate, startExternal, startHelper,
        startMain]
  | waitClearDacs | waitExt =>
      simp only [sequencingFsm, SoftpllState.EntersReady, hstate]
      split_ifs <;> simp [hstate]
  | ready => exact absurd hstate hne
  | waitHelper =>
      rw [sequencingFsm_waitHelper board hw s hstate]
      by_cases hmode : s.mode = .slave <;>
        by_cases hlock : s.helper.ld.locked <;> by_cases hchanged : s.helper.ld.lockChanged <;>
        simp [SoftpllState.EntersReady, hstate, hmode, hlock, hchanged]
  | waitMain =>
      rw [sequencingFsm_waitMain board hw s hstate]
      by_cases hlock : s.mpll.ld.locked <;>
        simp [SoftpllState.EntersReady, hstate, hlock]

theorem sequencingFsm_entersReady (h : s.EntersReady) :
    ∃ trackers regs, sequencingFsm board hw s =
        { s with ptrackers := trackers, spll := regs, seqState := .ready } ∧
      regs.eicTag = s.spll.eicTag := by
  obtain ⟨trackers, regs, hstart, hregs⟩ := startPtrackers_eq s
  refine ⟨trackers, regs, ?_, hregs⟩
  rcases h with ⟨hstate, hmode, hlock, hchanged⟩ | ⟨hstate, hlock⟩
  · rw [sequencingFsm_waitHelper board hw s hstate, hstart]
    simp [hlock, hchanged, hmode]
  · rw [sequencingFsm_waitMain board hw s hstate, hstart]
    simp [hlock]

/-- What the sequencer does to the outside. -/
def sequencerActions (s : SoftpllState) : List Action :=
  match s.seqState with
  | .clearDacs => [.dacHpll s.helper.pi.yMax,
      .dacMain (dacMainOfInt ((s.mpll.pi.yMax + s.mpll.pi.yMin).tdiv 2))]
  | .startMain => [.mpllStart 0]
  | _ => []

theorem sequencingFsm_log :
    (sequencingFsm board hw s).log = s.log ++ sequencerActions s := by
  obtain ⟨trackers, regs, hstart, -⟩ := startPtrackers_eq s
  unfold sequencingFsm sequencerActions
  cases s.seqState with
  | clearDacs | startMain => rfl
  | none | startExt | startHelper | disabled => exact (List.append_nil _).symm
  | waitExt | ready | waitClearDacs =>
      dsimp only
      split_ifs <;> exact (List.append_nil _).symm
  | waitHelper | waitMain =>
      dsimp only
      rw [hstart]
      split_ifs <;> exact (List.append_nil _).symm

end Sequencer

/-! ## The loops -/

/-- The PLL of an aux channel after a tag. -/
def auxAfterTag (tag : Tag) (a : SpllAuxState) : SpllAuxState :=
  { a with dmtd := (mpllUpdate a.dmtd tag.value.toNat tag.chanId.toNat).1 }

/-- The word a main PLL writes for a tag. -/
def mpllWords (tag : Tag) (s : SpllMainState) : List Action :=
  (mpllUpdate s tag.value.toNat tag.chanId.toNat).2.1.toList.map .dacMain

theorem processed_auxAfterTag_seqState (tag : Tag) (aux : Nat → SpllAuxState) (k i : Nat) :
    (processed (fun _ => auxAfterTag tag) aux k i).seqState = (aux i).seqState := by
  unfold processed
  split <;> rfl

/-- Every channel's PLL sees the tag, in the order of the channels. -/
theorem updateAuxs_eq (tag : Tag) (s : SoftpllState) :
    updateAuxs tag s =
      { s with
        aux := processed (fun _ => auxAfterTag tag) s.aux (s.nChanOut - 1)
        log := s.log ++
          (List.range (s.nChanOut - 1)).flatMap fun i => mpllWords tag (s.aux i).dmtd } := by
  unfold updateAuxs
  refine loop_induction (fun k t => t = { s with
      aux := processed (fun _ => auxAfterTag tag) s.aux k
      log := s.log ++ (List.range k).flatMap fun i => mpllWords tag (s.aux i).dmtd })
    (updateAux tag) (s.nChanOut - 1) ?_ (s := s) (by simp)
  rintro k - t rfl
  simp only [updateAux, setDmtd, processed_ge _ _ (le_refl k), ← update_processed,
    List.range_succ, List.flatMap_append, List.flatMap_singleton, List.append_assoc]
  rfl

/-- The main PLL sees the tag. -/
def SoftpllState.RunsMpll (s : SoftpllState) : Prop :=
  s.seqState = .waitMain ∨ (s.seqState = .ready ∧ s.mode = .slave)

/-- The PLLs of the aux channels see the tag. -/
def SoftpllState.RunsAuxs (s : SoftpllState) : Prop := s.seqState = .ready ∧ s.mode = .slave

instance (s : SoftpllState) : Decidable s.RunsMpll := inferInstanceAs (Decidable (_ ∨ _))
instance (s : SoftpllState) : Decidable s.RunsAuxs := inferInstanceAs (Decidable (_ ∧ _))

section Loops

variable (board : Board) (hw : HwStatus) (s : SoftpllState) (tag : Tag)

/-- The words one pass over the loops writes to the DACs. -/
def loopWords : List Action :=
  (if s.mode = .grandMaster ∧ s.seqState.runsExternal then
      (externalUpdate board hw s.ext ⟨s.spll, s.ppsg⟩ tag.value.toNat
        tag.chanId.toNat).2.2.1.toList.map .dacMain
    else []) ++
  (if s.seqState.runsHelper then
      (helperUpdate s.helper tag.value.toNat tag.chanId.toNat).2.1.toList.map .dacHpll
    else []) ++
  (if s.RunsMpll then mpllWords tag s.mpll else []) ++
  (if s.RunsAuxs then
      (List.range (s.nChanOut - 1)).flatMap fun i => mpllWords tag (s.aux i).dmtd
    else [])

/-- What one pass over the loops leaves in each field but those of the external
PLL and the phase trackers. -/
structure LoopsDone (t : SoftpllState) : Prop where
  session : SameSession s t
  seqState : t.seqState = s.seqState
  helper : t.helper = if s.seqState.runsHelper then
    (helperUpdate s.helper tag.value.toNat tag.chanId.toNat).1 else s.helper
  mpll : t.mpll = if s.RunsMpll then
    (mpllUpdate s.mpll tag.value.toNat tag.chanId.toNat).1 else s.mpll
  aux : t.aux = if s.RunsAuxs then
    processed (fun _ => auxAfterTag tag) s.aux (s.nChanOut - 1) else s.aux
  log : t.log = s.log ++ loopWords board hw s tag

/-- A tag touches the trackers and their reference tag. -/
theorem updatePtrackers_eq :
    updatePtrackers s tag =
      { s with
        ptrackers := (updatePtrackers s tag).ptrackers
        ptrackerTagRef := (updatePtrackers s tag).ptrackerTagRef } := by
  unfold updatePtrackers
  split <;> rfl

/-- A guarded update of the external PLL, as one assignment. -/
theorem ite_updateExternal (c : Prop) [Decidable c] :
    ∃ ext spll ppsg, spll.eicTag = s.spll.eicTag ∧
      (if c then updateExternal board hw s tag else s) =
        { s with
          ext := ext
          spll := spll
          ppsg := ppsg
          log := s.log ++ if c then (externalUpdate board hw s.ext ⟨s.spll, s.ppsg⟩
            tag.value.toNat tag.chanId.toNat).2.2.1.toList.map .dacMain else [] } := by
  split
  · exact ⟨_, _, _, externalUpdate_eicTag board hw s.ext ⟨s.spll, s.ppsg⟩ _ _, rfl⟩
  · exact ⟨s.ext, s.spll, s.ppsg, rfl, by simp⟩

/-- A guarded update of the helper PLL, as one assignment. -/
theorem ite_updateHelper (c : Prop) [Decidable c] :
    (if c then updateHelper s tag else s) =
      { s with
        helper := if c then (helperUpdate s.helper tag.value.toNat tag.chanId.toNat).1
          else s.helper
        log := s.log ++ if c then (helperUpdate s.helper tag.value.toNat
          tag.chanId.toNat).2.1.toList.map .dacHpll else [] } := by
  split
  · rfl
  · simp

/-- A guarded update of the main PLL, as one assignment. -/
theorem ite_updateMpll (c : Prop) [Decidable c] :
    (if c then updateMpll s tag else s) =
      { s with
        mpll := if c then (mpllUpdate s.mpll tag.value.toNat tag.chanId.toNat).1 else s.mpll
        log := s.log ++ if c then mpllWords tag s.mpll else [] } := by
  split
  · rfl
  · simp

theorem updateLoops_done : LoopsDone board hw s tag (updateLoops board hw s tag) := by
  obtain ⟨ext, spll, ppsg, heic, hext⟩ := ite_updateExternal board hw s tag
    (s.mode = .grandMaster ∧ s.seqState.runsExternal)
  unfold updateLoops
  rw [hext]
  simp only [ite_updateHelper, ite_updateMpll]
  by_cases hready : s.seqState = .ready
  · rw [if_pos hready, updatePtrackers_eq]
    by_cases hslave : s.mode = .slave
    · rw [if_pos hslave, updateAuxs_eq]
      refine ⟨⟨rfl, rfl, rfl, rfl, rfl, heic, ?_⟩, rfl, rfl, ?_, ?_, ?_⟩
      · exact processed_auxAfterTag_seqState tag s.aux _
      all_goals
        simp [SoftpllState.RunsMpll, SoftpllState.RunsAuxs, loopWords, hready, hslave,
          updateMpll, mpllWords]
    · rw [if_neg hslave]
      refine ⟨⟨rfl, rfl, rfl, rfl, rfl, heic, fun _ => rfl⟩, rfl, rfl, ?_, ?_, ?_⟩ <;>
        simp [SoftpllState.RunsMpll, SoftpllState.RunsAuxs, loopWords, hready, hslave]
  · simp only [hready, if_false]
    refine ⟨⟨rfl, rfl, rfl, rfl, rfl, heic, fun _ => rfl⟩, rfl, rfl, ?_, ?_, ?_⟩ <;>
      simp [SoftpllState.RunsMpll, SoftpllState.RunsAuxs, loopWords, hready]

/-- The external PLL sees the tag. -/
def SoftpllState.RunsExternal (s : SoftpllState) : Prop :=
  s.mode = .grandMaster ∧ s.seqState.runsExternal = true

instance : Decidable s.RunsExternal := inferInstanceAs (Decidable (_ ∧ _))

/-- The pass behind the external PLL leaves its state and the registers alone. -/
theorem updateLoops_external :
    (updateLoops board hw s tag).ext =
        (if s.RunsExternal then (externalUpdate board hw s.ext ⟨s.spll, s.ppsg⟩
          tag.value.toNat tag.chanId.toNat).1 else s.ext) ∧
      (updateLoops board hw s tag).ppsg =
        (if s.RunsExternal then (externalUpdate board hw s.ext ⟨s.spll, s.ppsg⟩
          tag.value.toNat tag.chanId.toNat).2.1.ppsg else s.ppsg) ∧
      (updateLoops board hw s tag).spll =
        (if s.RunsExternal then (externalUpdate board hw s.ext ⟨s.spll, s.ppsg⟩
          tag.value.toNat tag.chanId.toNat).2.1.spll else s.spll) := by
  have hguard : (if s.RunsExternal then (externalUpdate board hw s.ext ⟨s.spll, s.ppsg⟩
        tag.value.toNat tag.chanId.toNat).1 else s.ext) =
        (if s.RunsExternal then updateExternal board hw s tag else s).ext ∧
      (if s.RunsExternal then (externalUpdate board hw s.ext ⟨s.spll, s.ppsg⟩
        tag.value.toNat tag.chanId.toNat).2.1.ppsg else s.ppsg) =
        (if s.RunsExternal then updateExternal board hw s tag else s).ppsg ∧
      (if s.RunsExternal then (externalUpdate board hw s.ext ⟨s.spll, s.ppsg⟩
        tag.value.toNat tag.chanId.toNat).2.1.spll else s.spll) =
        (if s.RunsExternal then updateExternal board hw s tag else s).spll := by
    split_ifs <;> exact ⟨rfl, rfl, rfl⟩
  rw [hguard.1, hguard.2.1, hguard.2.2]
  unfold updateLoops
  -- behind the external PLL, only the helper, the main PLLs and the trackers are assigned
  have hcond : (if s.RunsExternal then updateExternal board hw s tag else s) =
    if s.mode = .grandMaster ∧ s.seqState.runsExternal = true then
      updateExternal board hw s tag else s := rfl
  rw [hcond]
  generalize (if s.mode = .grandMaster ∧ s.seqState.runsExternal = true then
    updateExternal board hw s tag else s) = t
  simp only [ite_updateHelper, ite_updateMpll]
  by_cases hready : t.seqState = .ready
  · rw [if_pos hready, updatePtrackers_eq]
    by_cases hslave : t.mode = .slave
    · rw [if_pos hslave, updateAuxs_eq]
      exact ⟨rfl, rfl, rfl⟩
    · rw [if_neg hslave]
      exact ⟨rfl, rfl, rfl⟩
  · rw [if_neg hready]
    exact ⟨rfl, rfl, rfl⟩

/-! ## One tag -/

theorem tagStep_session : SameSession s (tagStep board hw s tag) :=
  (sequencingFsm_session board hw s).trans
    (updateLoops_done board hw (sequencingFsm board hw s) tag).session

/-- The loops never move the sequencer. -/
theorem tagStep_seqState :
    (tagStep board hw s tag).seqState = (sequencingFsm board hw s).seqState :=
  (updateLoops_done board hw (sequencingFsm board hw s) tag).seqState

end Loops

/-- All a tag does to the outside. -/
theorem tagStep_log (board : Board) (hw : HwStatus) (s : SoftpllState) (tag : Tag) :
    (tagStep board hw s tag).log = s.log ++
      (sequencerActions s ++ loopWords board hw (sequencingFsm board hw s) tag) := by
  rw [tagStep, (updateLoops_done board hw (sequencingFsm board hw s) tag).log,
    sequencingFsm_log, List.append_assoc]

/-- In slave mode the sequencer goes on to `ready`, or stays there, and the PLLs
of the aux channels see the tag. -/
def SoftpllState.ServesAuxs (s : SoftpllState) : Prop :=
  s.mode = .slave ∧ s.mpll.ld.locked = true ∧
    (s.seqState = .waitMain ∨ (s.seqState = .ready ∧ s.helper.ld.locked = true))

theorem runsAuxs_iff_servesAuxs (board : Board) (hw : HwStatus) (s : SoftpllState) :
    (sequencingFsm board hw s).RunsAuxs ↔ s.ServesAuxs := by
  rw [SoftpllState.RunsAuxs, (sequencingFsm_session board hw s).mode,
    SoftpllState.ServesAuxs]
  by_cases hready : s.seqState = .ready
  · rw [sequencingFsm_ready board hw s hready]
    cases hmode : s.mode <;> cases hmain : s.mpll.ld.locked <;>
      cases hhelper : s.helper.ld.locked <;> simp [hready]
  · rw [sequencingFsm_to_ready board hw s hready]
    cases hmode : s.mode <;> simp [SoftpllState.EntersReady, hready, hmode, and_comm]

/-! ## A poll of the aux channels -/

/-- One channel after the check of its enable bit, with what the check does. -/
def auxChecked (enable : AuxEnable) (i : Nat) (a : SpllAuxState) :
    SpllAuxState × List Action :=
  if a.seqState ≠ .disabled ∧ !enable.first (i + 1) then
    ({ a with seqState := .disabled },
      [.mpllStop (i + 1), .auxStatus (i + 1) false, .auxSeqState (i + 1) .disabled])
  else (a, [])

/-- One channel after its state machine.  Of the rest of the SoftPLL it reads
the lock of the main PLL, whether the sequencer is ready, and the setpoint. -/
def auxAdvanced (board : Board) (enable : AuxEnable) (s : SoftpllState) (i : Nat)
    (a : SpllAuxState) : SpllAuxState × List Action :=
  match a.seqState with
  | .disabled =>
      if s.mpll.ld.locked && enable.second (i + 1) then
        if s.seqState = .ready then
          ({ seqState := .lockPll, dmtd := mpllRestart a.dmtd },
            [.mpllStart (i + 1), .auxSeqState (i + 1) .lockPll])
        else ({ a with seqState := .lockPll }, [.auxSeqState (i + 1) .lockPll])
      else (a, [])
  | .lockPll =>
      if a.dmtd.ld.locked then
        ({ seqState := .alignPhase,
           dmtd := mpllSetPhaseShift a.dmtd (shiftUnits board s.mpllShiftPs) },
          [.auxSeqState (i + 1) .alignPhase])
      else (a, [])
  | .alignPhase =>
      if !mpllShifterBusy a.dmtd then
        ({ a with seqState := .ready },
          [.auxStatus (i + 1) true, .auxSeqState (i + 1) .ready])
      else (a, [])
  | .ready =>
      if !s.mpll.ld.locked || !a.dmtd.ld.locked then
        ({ a with seqState := .disabled },
          [.auxStatus (i + 1) false, .auxSeqState (i + 1) .disabled])
      else (a, [])
  | .none => (a, [])

/-- One channel after a poll. -/
def auxNext (board : Board) (enable : AuxEnable) (s : SoftpllState) (i : Nat)
    (a : SpllAuxState) : SpllAuxState × List Action :=
  let checked := auxChecked enable i a
  let advanced := auxAdvanced board enable s i checked.1
  (advanced.1, checked.2 ++ advanced.2)

section Poll

variable (board : Board) (enable : AuxEnable) (s : SoftpllState)

theorem auxCheckEnabled_eq (i : Nat) :
    ∃ regs, regs.eicTag = s.spll.eicTag ∧
      auxCheckEnabled enable s (i + 1) =
        { s with
          aux := Function.update s.aux i (auxChecked enable i (s.aux i)).1
          spll := regs
          log := s.log ++ (auxChecked enable i (s.aux i)).2 } := by
  unfold auxCheckEnabled auxChecked
  simp only [Nat.add_sub_cancel]
  split
  · refine ⟨_, ?_, by simp [setAuxSeqState, auxSetChannelStatus, spllStopChannel]; rfl⟩
    simp [mpllStop]
  · exact ⟨s.spll, rfl, by simp⟩

theorem auxFsm_eq (i : Nat) :
    ∃ regs, regs.eicTag = s.spll.eicTag ∧
      auxFsm board enable s (i + 1) =
        { s with
          aux := Function.update s.aux i (auxAdvanced board enable s i (s.aux i)).1
          spll := regs
          log := s.log ++ (auxAdvanced board enable s i (s.aux i)).2 } := by
  unfold auxFsm auxAdvanced
  simp only [Nat.add_sub_cancel]
  cases (s.aux i).seqState with
  | none => exact ⟨s.spll, rfl, by simp⟩
  | disabled =>
      dsimp only
      split_ifs with henable hready
      · refine ⟨(mpllStart s.nChanRef (s.aux i).dmtd s.spll).2, by simp [mpllStart], ?_⟩
        simp [setAuxSeqState, spllStartChannel, setDmtd, mpllStart, hready]
      · exact ⟨s.spll, rfl, by simp [setAuxSeqState, spllStartChannel, hready]⟩
      · exact ⟨s.spll, rfl, by simp⟩
  | lockPll =>
      dsimp only
      split_ifs
      · exact ⟨s.spll, rfl, by simp [setAuxSeqState, setPhaseShift, setDmtd]⟩
      · exact ⟨s.spll, rfl, by simp⟩
  | alignPhase | ready =>
      dsimp only
      split_ifs
      · refine ⟨_, ?_, by simp [setAuxSeqState, auxSetChannelStatus]; rfl⟩
        rfl
      · exact ⟨s.spll, rfl, by simp⟩

theorem auxPoll_eq (i : Nat) :
    ∃ regs, regs.eicTag = s.spll.eicTag ∧
      auxPoll board enable s (i + 1) =
        { s with
          aux := Function.update s.aux i (auxNext board enable s i (s.aux i)).1
          spll := regs
          log := s.log ++ (auxNext board enable s i (s.aux i)).2 } := by
  obtain ⟨regs, heic, hchecked⟩ := auxCheckEnabled_eq enable s i
  obtain ⟨regs', heic', hfsm⟩ := auxFsm_eq board enable (auxCheckEnabled enable s (i + 1)) i
  refine ⟨regs', by rw [heic', hchecked]; exact heic, ?_⟩
  rw [auxPoll, hfsm, hchecked]
  simp only [Function.update_self, Function.update_idem, List.append_assoc]
  rfl

/-- A poll treats every channel by itself: none of them changes what the others
read. -/
theorem spllUpdateAuxClocks_eq :
    ∃ regs, regs.eicTag = s.spll.eicTag ∧
      spllUpdateAuxClocks board enable s =
        { s with
          aux := processed (fun i a => (auxNext board enable s i a).1) s.aux (s.nChanOut - 1)
          spll := regs
          log := s.log ++ (List.range (s.nChanOut - 1)).flatMap fun i =>
            (auxNext board enable s i (s.aux i)).2 } := by
  unfold spllUpdateAuxClocks
  refine loop_induction (fun k t => ∃ regs, regs.eicTag = s.spll.eicTag ∧
    t = { s with
      aux := processed (fun i a => (auxNext board enable s i a).1) s.aux k
      spll := regs
      log := s.log ++ (List.range k).flatMap fun i =>
        (auxNext board enable s i (s.aux i)).2 })
    _ (s.nChanOut - 1) ?_ (s := s) ⟨s.spll, rfl, by simp⟩
  rintro k - t ⟨regs, heic, rfl⟩
  obtain ⟨regs', heic', hpoll⟩ := auxPoll_eq board enable
    { s with
      aux := processed (fun i a => (auxNext board enable s i a).1) s.aux k
      spll := regs
      log := s.log ++ (List.range k).flatMap fun i =>
        (auxNext board enable s i (s.aux i)).2 } k
  refine ⟨regs', heic'.trans heic, ?_⟩
  rw [hpoll, ← update_processed]
  simp only [processed_ge _ _ (le_refl k), List.range_succ, List.flatMap_append,
    List.flatMap_singleton, List.append_assoc]
  rfl

end Poll

/-! ## The other calls -/

/-- A channel after the call for all channels: only in `ready` does it get the
setpoint. -/
def auxSetpoint (units : Int) (a : SpllAuxState) : SpllAuxState :=
  if a.seqState = .ready then { a with dmtd := mpllSetPhaseShift a.dmtd units } else a

/-- `spll_set_phase_shift` for all channels. -/
theorem spllSetPhaseShift_all (board : Board) (s : SoftpllState) (value : Int) :
    spllSetPhaseShift board s .all value =
      { s with
        mpll := mpllSetPhaseShift s.mpll (shiftUnits board value)
        aux := processed (fun _ => auxSetpoint (shiftUnits board value)) s.aux
          (s.nChanOut - 1)
        mpllShiftPs := value } := by
  have hstart : setPhaseShift board s 0 value =
      { s with
        mpll := mpllSetPhaseShift s.mpll (shiftUnits board value)
        mpllShiftPs := value } := by
    simp [setPhaseShift]
  simp only [spllSetPhaseShift, hstart]
  refine loop_induction (fun k t => t = { s with
      mpll := mpllSetPhaseShift s.mpll (shiftUnits board value)
      aux := processed (fun _ => auxSetpoint (shiftUnits board value)) s.aux k
      mpllShiftPs := value })
    _ (s.nChanOut - 1) ?_ (s := { s with
      mpll := mpllSetPhaseShift s.mpll (shiftUnits board value)
      mpllShiftPs := value }) (by simp)
  rintro k - t rfl
  have hentry := processed_ge (fun _ => auxSetpoint (shiftUnits board value)) s.aux (le_refl k)
  rw [← update_processed]
  by_cases hready : (s.aux k).seqState = .ready
  · simp [setPhaseShift, setDmtd, hentry, auxSetpoint, hready]
  · simp only [hentry, auxSetpoint, hready, if_false]
    simp only [SoftpllState.mk.injEq, true_and, and_true]
    rw [← hentry, Function.update_eq_self]

/-- A tag, processed or not, leaves the session alone. -/
theorem step_tag_session (board : Board) (s : SoftpllState) (tag : Tag) (hw : HwStatus) :
    SameSession s (step board s (.tag tag hw)) := by
  have hlog : SameSession s { s with log := [] } := ⟨rfl, rfl, rfl, rfl, rfl, rfl, fun _ => rfl⟩
  simp only [step]
  split_ifs
  · exact hlog.trans (tagStep_session board hw { s with log := [] } tag)
  · exact hlog

/-- The calls of the main loop other than `spll_init` and `spll_shutdown`. -/
def Event.isChannelCall : Event → Bool
  | .startChannel _ | .stopChannel _ | .setPhaseShift _ _ | .enablePtracker _ _
  | .updateAuxClocks _ => true
  | .init _ _ _ _ | .shutdown | .tag _ _ => false

/-- The fields of the sequencer that those calls never assign. -/
structure SameSequencer (s t : SoftpllState) : Prop where
  mode : t.mode = s.mode
  seqState : t.seqState = s.seqState
  nChanRef : t.nChanRef = s.nChanRef
  nChanOut : t.nChanOut = s.nChanOut
  irqEnabled : t.irqEnabled = s.irqEnabled
  eicTag : t.spll.eicTag = s.spll.eicTag
  helper : t.helper = s.helper
  ext : t.ext = s.ext
  mpllLd : t.mpll.ld = s.mpll.ld

/-- No call on the channels touches the sequencer. -/
theorem step_channelCall (board : Board) (s : SoftpllState) (e : Event)
    (he : e.isChannelCall = true) : SameSequencer s (step board s e) := by
  cases e with
  | init | shutdown | tag => simp [Event.isChannelCall] at he
  | startChannel channel =>
      simp only [step, spllStartChannel]
      split_ifs
      · exact ⟨rfl, rfl, rfl, rfl, rfl, rfl, rfl, rfl, rfl⟩
      · exact ⟨rfl, rfl, rfl, rfl, rfl, by simp [mpllStart], rfl, rfl, rfl⟩
  | stopChannel channel =>
      simp only [step, spllStopChannel]
      split_ifs
      · exact ⟨rfl, rfl, rfl, rfl, rfl, rfl, rfl, rfl, rfl⟩
      · exact ⟨rfl, rfl, rfl, rfl, rfl, by simp [mpllStop], rfl, rfl, rfl⟩
  | setPhaseShift channel value =>
      cases channel with
      | all =>
          simp only [step, spllSetPhaseShift_all]
          exact ⟨rfl, rfl, rfl, rfl, rfl, rfl, rfl, rfl, rfl⟩
      | one channel =>
          simp only [step, spllSetPhaseShift, setPhaseShift]
          split_ifs <;> exact ⟨rfl, rfl, rfl, rfl, rfl, rfl, rfl, rfl, rfl⟩
  | enablePtracker refChannel enable =>
      simp only [step, spllEnablePtracker]
      split_ifs
      · exact ⟨rfl, rfl, rfl, rfl, rfl, by simp [ptrackerStart], rfl, rfl, rfl⟩
      · exact ⟨rfl, rfl, rfl, rfl, rfl, by simp, rfl, rfl, rfl⟩
      · exact ⟨rfl, rfl, rfl, rfl, rfl, rfl, rfl, rfl, rfl⟩
  | updateAuxClocks enable =>
      obtain ⟨regs, heic, heq⟩ :=
        spllUpdateAuxClocks_eq board enable { s with log := [] }
      simp only [step, heq]
      exact ⟨rfl, rfl, rfl, rfl, rfl, heic, rfl, rfl, rfl⟩

/-- Nor the PPS generator. -/
theorem step_channelCall_ppsg (board : Board) (s : SoftpllState) (e : Event)
    (he : e.isChannelCall = true) : (step board s e).ppsg = s.ppsg := by
  cases e with
  | init | shutdown | tag => simp [Event.isChannelCall] at he
  | startChannel channel =>
      simp only [step, spllStartChannel]
      split_ifs <;> rfl
  | stopChannel channel =>
      simp only [step, spllStopChannel]
      split_ifs <;> rfl
  | setPhaseShift channel value =>
      cases channel with
      | all => simp only [step, spllSetPhaseShift_all]
      | one channel =>
          simp only [step, spllSetPhaseShift, setPhaseShift]
          split_ifs <;> rfl
  | enablePtracker refChannel enable =>
      simp only [step, spllEnablePtracker]
      split_ifs <;> rfl
  | updateAuxClocks enable =>
      obtain ⟨regs, -, heq⟩ := spllUpdateAuxClocks_eq board enable { s with log := [] }
      simp only [step, heq]

/-- A refused initialisation stops after the registers. -/
theorem spllInit_refused (board : Board) {hw : InitStatus} (s : SoftpllState)
    {mode : SpllMode} (slaveRefChannel : Int) (alignPps : Bool)
    (h : initRefused hw mode = true) :
    spllInit board hw s mode slaveRefChannel alignPps = spllInitRegs board hw s mode := by
  simp [spllInit, h]

/-- Every other initialisation goes on with the loops. -/
theorem spllInit_accepted (board : Board) {hw : InitStatus} (s : SoftpllState)
    {mode : SpllMode} (slaveRefChannel : Int) (alignPps : Bool)
    (h : initRefused hw mode = false) :
    spllInit board hw s mode slaveRefChannel alignPps =
      spllInitLoops board (spllInitRegs board hw s mode) slaveRefChannel alignPps := by
  simp [spllInit, h]

end Softpll
end WrpcSw
