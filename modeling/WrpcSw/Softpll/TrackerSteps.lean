import WrpcSw.Softpll.Steps

/-!
# What the steps of the SoftPLL do to the phase trackers

Of all fields, the trackers and the reference tag they share depend on little: on the
guards of the sequencer, on the mask of the enabled trackers and on the tags that are
handled in `ready`.

* `trackersNext` — the trackers and the reference tag after any event.
* `step_trackers` — that is what `step` leaves.
-/

namespace WrpcSw
namespace Softpll

open CInt Run

/-- The phase trackers and the reference tag they share. -/
abbrev Trackers := (Nat → SpllPtrackerState) × Int

def SoftpllState.trackers (s : SoftpllState) : Trackers := (s.ptrackers, s.ptrackerTagRef)

/-- A tracker after `ptracker_start`. -/
def ptrackerStarted (s : SpllPtrackerState) : SpllPtrackerState :=
  { s with preserveSign := 0, enabled := true, ready := false, acc := 0, avgCount := 0 }

theorem ptrackerStart_eq (nChanRef : Nat) (s : SpllPtrackerState) (regs : SpllWB) :
    (ptrackerStart nChanRef s regs).1 = ptrackerStarted s := rfl

section Sequencer

variable (board : Board) (hw : HwStatus) (s : SoftpllState)

instance : Decidable s.EntersReady := inferInstanceAs (Decidable (_ ∨ _))

/-- The tracker is started as the sequencer enters `ready`. -/
def SoftpllState.Restarts (s : SoftpllState) (c : Nat) : Prop :=
  s.EntersReady ∧ c < s.nChanRef ∧ s.ptrackerMask.getLsbD c = true

instance (c : Nat) : Decidable (s.Restarts c) := inferInstanceAs (Decidable (_ ∧ _))

/-- The trackers after the sequencer has run. -/
def SoftpllState.restarted (s : SoftpllState) (c : Nat) : SpllPtrackerState :=
  if s.Restarts c then ptrackerStarted (s.ptrackers c) else s.ptrackers c

/-- The loop over the trackers starts those of the mask. -/
theorem startPtrackers_trackers :
    (startPtrackers s).trackers =
      (fun c => if c < s.nChanRef ∧ s.ptrackerMask.getLsbD c = true then
        ptrackerStarted (s.ptrackers c) else s.ptrackers c, s.ptrackerTagRef) := by
  have hloop : ∃ regs, startPtrackers s =
      { s with
        ptrackers := processed (fun c t => if s.ptrackerMask.getLsbD c then ptrackerStarted t
          else t) s.ptrackers s.nChanRef
        spll := regs } := by
    unfold startPtrackers
    refine loop_induction (fun k t => ∃ regs, t =
      { s with
        ptrackers := processed (fun c t => if s.ptrackerMask.getLsbD c then ptrackerStarted t
          else t) s.ptrackers k
        spll := regs }) startPtracker s.nChanRef ?_ (s := s) ⟨s.spll, by simp⟩
    rintro k - t ⟨regs, rfl⟩
    rw [← update_processed]
    unfold startPtracker
    dsimp only
    by_cases hmask : s.ptrackerMask.getLsbD k = true
    · rw [if_pos hmask, if_pos hmask]
      exact ⟨_, by rw [ptrackerStart_eq, processed_ge _ _ (le_refl k)]⟩
    · rw [if_neg hmask, if_neg hmask]
      refine ⟨regs, ?_⟩
      rw [← processed_ge _ s.ptrackers (le_refl k), Function.update_eq_self]
  obtain ⟨regs, hregs⟩ := hloop
  rw [hregs]
  unfold SoftpllState.trackers
  refine Prod.ext (funext fun c => ?_) rfl
  dsimp only
  unfold processed
  by_cases hlt : c < s.nChanRef
  · simp only [hlt, if_true, true_and]
  · simp only [hlt, if_false, false_and]

theorem restarted_of_enters (h : s.EntersReady) :
    s.restarted = fun c => if c < s.nChanRef ∧ s.ptrackerMask.getLsbD c = true then
      ptrackerStarted (s.ptrackers c) else s.ptrackers c := by
  funext c
  unfold SoftpllState.restarted SoftpllState.Restarts
  simp only [h, true_and]

theorem restarted_of_not (h : ¬ s.EntersReady) : s.restarted = s.ptrackers := by
  funext c
  unfold SoftpllState.restarted
  exact if_neg fun hrestarts => h hrestarts.1

/-- The sequencer starts the trackers of the mask as it enters `ready`. -/
theorem sequencingFsm_trackers :
    (sequencingFsm board hw s).trackers = (s.restarted, s.ptrackerTagRef) := by
  have hkeep : ¬ s.EntersReady → s.trackers = (s.restarted, s.ptrackerTagRef) := fun h => by
    rw [restarted_of_not s h]
    rfl
  have hstart : s.EntersReady →
      ({ startPtrackers s with seqState := .ready } : SoftpllState).trackers =
        (s.restarted, s.ptrackerTagRef) := fun h => by
    rw [restarted_of_enters s h]
    exact startPtrackers_trackers s
  cases hstate : s.seqState with
  | none | disabled =>
      rw [← hkeep (by simp [SoftpllState.EntersReady, hstate])]
      simp only [sequencingFsm, hstate]
  | clearDacs | startExt | startHelper | startMain =>
      rw [← hkeep (by simp [SoftpllState.EntersReady, hstate])]
      simp only [sequencingFsm, hstate]
      rfl
  | waitClearDacs | waitExt | ready =>
      rw [← hkeep (by simp [SoftpllState.EntersReady, hstate])]
      simp only [sequencingFsm, hstate]
      split_ifs <;> rfl
  | waitHelper =>
      rw [sequencingFsm_waitHelper board hw s hstate]
      by_cases henters : s.EntersReady
      · have hguard := henters
        simp only [SoftpllState.EntersReady, hstate, true_and, reduceCtorEq, false_and,
          or_false] at hguard
        rw [if_pos (by simp [hguard]), if_neg hguard.1]
        exact hstart henters
      · rw [← hkeep henters]
        simp only [SoftpllState.EntersReady, hstate, true_and, reduceCtorEq, false_and,
          or_false] at henters
        split_ifs with hlock hslave
        · rfl
        · exact absurd ⟨hslave, by simpa using hlock⟩ henters
        · rfl
  | waitMain =>
      rw [sequencingFsm_waitMain board hw s hstate]
      by_cases hlock : s.mpll.ld.locked = true
      · rw [if_pos hlock]
        exact hstart (Or.inr ⟨hstate, hlock⟩)
      · rw [if_neg hlock]
        exact hkeep (by simp [SoftpllState.EntersReady, hstate, hlock])

end Sequencer

/-! ## The loops -/

/-- The trackers after a tag that is handled with the trackers `ptrackers`. -/
def trackersHandle (nChanRef : Nat) (x : Trackers) (tag : Tag) : Trackers :=
  if tag.chanId.toNat > nChanRef then x
  else ptrackersUpdate nChanRef x.1 x.2 tag.value.toNat tag.chanId.toNat

theorem updatePtrackers_trackers (s : SoftpllState) (tag : Tag) :
    (updatePtrackers s tag).trackers = trackersHandle s.nChanRef s.trackers tag := by
  unfold updatePtrackers trackersHandle
  split_ifs <;> rfl

/-- The loops reach the trackers in `ready` only. -/
theorem updateLoops_trackers (board : Board) (hw : HwStatus) (s : SoftpllState) (tag : Tag) :
    (updateLoops board hw s tag).trackers =
      if s.seqState = .ready then trackersHandle s.nChanRef s.trackers tag else s.trackers := by
  obtain ⟨ext, spll, ppsg, -, hext⟩ := ite_updateExternal board hw s tag
    (s.mode = .grandMaster ∧ s.seqState.runsExternal)
  unfold updateLoops
  rw [hext]
  simp only [ite_updateHelper, ite_updateMpll]
  by_cases hready : s.seqState = .ready
  · rw [if_pos hready, if_pos hready, updatePtrackers_trackers]
    by_cases hslave : s.mode = .slave
    · rw [if_pos hslave, updateAuxs_eq]
      rfl
    · rw [if_neg hslave]
      rfl
  · rw [if_neg hready, if_neg hready]
    rfl

/-! ## The events -/

/-- A tag is handled by the trackers: it is taken, and the sequencer is in `ready` for it. -/
def SoftpllState.Handles (board : Board) (s : SoftpllState) (hw : HwStatus) : Prop :=
  s.takesTags = true ∧ (sequencingFsm board hw { s with log := [] }).seqState = .ready

instance (board : Board) (s : SoftpllState) (hw : HwStatus) : Decidable (s.Handles board hw) :=
  inferInstanceAs (Decidable (_ ∧ _))

/-- The trackers and their reference tag after an event. -/
def trackersNext (board : Board) (s : SoftpllState) : Event → Trackers
  | .init mode _ _ hw =>
      if initRefused hw mode then s.trackers
      else (fun i => if i < hw.nRef then ptrackerInit (s.ptrackers i) i ptrackerAverageSamples
        else s.ptrackers i, s.ptrackerTagRef)
  | .tag tag hw =>
      if s.takesTags then
        if s.Handles board hw then
          trackersHandle s.nChanRef (s.restarted, s.ptrackerTagRef) tag
        else (s.restarted, s.ptrackerTagRef)
      else s.trackers
  | .enablePtracker refChannel true =>
      (Function.update s.ptrackers refChannel (ptrackerStarted (s.ptrackers refChannel)),
        s.ptrackerTagRef)
  | .enablePtracker _ false | .shutdown | .startChannel _ | .stopChannel _ | .setPhaseShift _ _
  | .updateAuxClocks _ => s.trackers

theorem step_trackers (board : Board) (s : SoftpllState) (e : Event) :
    (step board s e).trackers = trackersNext board s e := by
  cases e with
  | init mode slaveRefChannel alignPps hw =>
      simp only [step, trackersNext]
      cases hrefused : initRefused hw mode with
      | true =>
          rw [spllInit_refused board _ _ _ hrefused, if_pos rfl]
          rfl
      | false =>
          rw [spllInit_accepted board _ _ _ hrefused, if_neg Bool.false_ne_true]
          rfl
  | shutdown => rfl
  | tag tag hw =>
      simp only [step, trackersNext]
      have htakes : SoftpllState.takesTags { s with log := [] } = s.takesTags := rfl
      rw [htakes]
      by_cases hirq : s.takesTags = true
      · rw [if_pos hirq, if_pos hirq, tagStep, updateLoops_trackers,
          sequencingFsm_trackers board hw { s with log := [] },
          (sequencingFsm_session board hw { s with log := [] }).nChanRef]
        unfold SoftpllState.Handles
        simp only [hirq, true_and]
        rfl
      · rw [if_neg hirq, if_neg hirq]
        rfl
  | startChannel channel =>
      simp only [step, trackersNext, spllStartChannel]
      split_ifs <;> rfl
  | stopChannel channel =>
      simp only [step, trackersNext, spllStopChannel]
      split_ifs <;> rfl
  | setPhaseShift channel value =>
      cases channel with
      | all =>
          simp only [step, trackersNext, spllSetPhaseShift_all]
          rfl
      | one channel =>
          simp only [step, trackersNext, spllSetPhaseShift, setPhaseShift]
          split_ifs <;> rfl
  | enablePtracker refChannel enable =>
      cases enable with
      | true => rfl
      | false =>
          simp only [step, trackersNext, spllEnablePtracker, Bool.false_eq_true, if_false]
          rfl
  | updateAuxClocks enable =>
      obtain ⟨regs, -, heq⟩ := spllUpdateAuxClocks_eq board enable { s with log := [] }
      simp only [step, trackersNext, heq]
      rfl

theorem step_ptrackers (board : Board) (s : SoftpllState) (e : Event) :
    (step board s e).ptrackers = (trackersNext board s e).1 :=
  congrArg Prod.fst (step_trackers board s e)

theorem step_ptrackerTagRef (board : Board) (s : SoftpllState) (e : Event) :
    (step board s e).ptrackerTagRef = (trackersNext board s e).2 :=
  congrArg Prod.snd (step_trackers board s e)

end Softpll
end WrpcSw
