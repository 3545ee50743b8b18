import WrpcSw.Softpll.Steps

/-!
# What an initialisation forgets

`spll_init` is meant to start the loops afresh, whatever the earlier sessions
left.  The resets are spread over six functions, and each loop is reset only
when the sequencer starts it.  Two runs after an initialisation are compared
here: `SameLoops` says which fields have to agree in which state.

* `helperUpdate_restarted`, `mpllUpdate_restarted` — a restart forgets every tag.
* `sameLoops_init` — an initialisation puts any two states into the relation, but
  for the fields that it leaves alone: the offset of the external phase and the
  tags of the aux PLLs.
* `init_forgets_history` — with those equal, the same tags give the same words for
  the DACs and the same states of the sequencer.
* `offset_survives` — and without that they do not.
-/

namespace WrpcSw
namespace Softpll

open CInt Run

/-! ## The part of a state that the code reads -/

/-- A loop that reads only the core of its state works the same on two states with
the same core. -/
theorem agree_of_core {α β : Type*} {core : α → α} {f : α → α × β}
    (hf : ∀ a, core (f (core a)).1 = core (f a).1 ∧ (f (core a)).2 = (f a).2) {a b : α}
    (h : core a = core b) : core (f a).1 = core (f b).1 ∧ (f a).2 = (f b).2 := by
  obtain ⟨hstate, hout⟩ := hf a
  rw [h, (hf b).1] at hstate
  rw [h, (hf b).2] at hout
  exact ⟨hstate.symm, hout.symm⟩

/-- The last sample of a regulator is kept for the debugger only. -/
def SpllPi.core (pi : SpllPi) : SpllPi := { pi with x := 0 }

/-- Resetting a regulator forgets every sample, at its old bias or at a new one. -/
theorem piInit_piUpdate (pi : SpllPi) (x : Int) :
    (piInit (piUpdate pi x).1).core = (piInit pi).core ∧
      ∀ bias, (piInit { (piUpdate pi x).1 with bias := bias }).core =
        (piInit { pi with bias := bias }).core := by
  unfold piUpdate
  dsimp only
  split_ifs <;> exact ⟨rfl, fun _ => rfl⟩

/-- Resetting a lock detector forgets every sample. -/
theorem ldInit_ldUpdate (ld : SpllLockDet) (y : Int) : ldInit (ldUpdate ld y).1 = ldInit ld := by
  unfold ldUpdate
  dsimp only
  split_ifs <;> rfl

/-! ## The helper -/

section Helper

variable (s : SpllHelperState) (tag source : Int)

def SpllHelperState.core (s : SpllHelperState) : SpllHelperState := { s with pi := s.pi.core }

/-- The state of the helper after a start: what its configuration is. -/
def SpllHelperState.restarted (s : SpllHelperState) : SpllHelperState :=
  (helperStart 0 s {}).1.core

theorem helperUnwrap_core : helperUnwrap s.core tag = (helperUnwrap s tag).core := by
  show (if s.tagD0 > tag then _ else _) = SpllHelperState.core (if s.tagD0 > tag then _ else _)
  split_ifs <;> rfl

theorem helperRebase_core : helperRebase s.core tag = (helperRebase s tag).core := by
  show (if i32 (tag + s.pAdder) > _ ∧ s.pSetpoint > _ then _ else _) =
    SpllHelperState.core (if i32 (tag + s.pAdder) > _ ∧ s.pSetpoint > _ then _ else _)
  split_ifs <;> rfl

theorem helperUpdate_core :
    (helperUpdate s.core tag source).1.core = (helperUpdate s tag source).1.core ∧
      (helperUpdate s.core tag source).2 = (helperUpdate s tag source).2 := by
  by_cases hsource : source = s.refSrc
  · have hsource' : source = s.core.refSrc := hsource
    by_cases hfirst : s.tagD0 < 0
    · have hfirst' : s.core.tagD0 < 0 := hfirst
      simp only [helperUpdate, if_pos hsource, if_pos hsource', if_pos hfirst, if_pos hfirst']
      exact ⟨rfl, trivial⟩
    · have hfirst' : ¬ s.core.tagD0 < 0 := hfirst
      simp only [helperUpdate, if_pos hsource, if_pos hsource', if_neg hfirst, if_neg hfirst',
        helperUnwrap_core, helperRebase_core]
      exact ⟨rfl, rfl⟩
  · rw [helperUpdate_other hsource, helperUpdate_other (s := s.core) hsource]
    exact ⟨rfl, rfl⟩

/-- A start forgets every tag. -/
theorem helperUpdate_restarted : (helperUpdate s tag source).1.restarted = s.restarted := by
  have hsource := helperUpdate_refSrc s tag source
  have hsample := helperUpdate_sample s tag source
  generalize (helperUpdate s tag source).1 = t at hsource hsample
  unfold SpllHelperState.restarted helperStart SpllHelperState.core
  dsimp only
  rcases hsample with ⟨hpi, hld⟩ | ⟨err, hpi, hld⟩
  · rw [hsource, hpi, hld]
  · rw [hsource, hpi, hld, ldInit_ldUpdate, (piInit_piUpdate s.pi err).2,
      (piUpdate_limits s.pi err).2]

end Helper

/-! ## The main PLLs -/

section Main

variable (s : SpllMainState) (tag source : Int)

def SpllMainState.core (s : SpllMainState) : SpllMainState := { s with pi := s.pi.core }

/-- The state of a main PLL after a start: what its configuration is. -/
def SpllMainState.restarted (s : SpllMainState) : SpllMainState := (mpllRestart s).core

theorem mpllUpdate_core :
    (mpllUpdate s.core tag source).1.core = (mpllUpdate s tag source).1.core ∧
      (mpllUpdate s.core tag source).2 = (mpllUpdate s tag source).2 := by
  by_cases hpair : (mpllLatch s tag source).Paired
  · have hpair' : (mpllLatch s.core tag source).Paired := hpair
    simp only [mpllUpdate, if_pos hpair, if_pos hpair']
    exact ⟨rfl, rfl⟩
  · have hpair' : ¬ (mpllLatch s.core tag source).Paired := hpair
    rw [mpllUpdate_unpaired hpair, mpllUpdate_unpaired hpair']
    exact ⟨rfl, rfl⟩

/-- A start forgets every tag. -/
theorem mpllUpdate_restarted : (mpllUpdate s tag source).1.restarted = s.restarted := by
  obtain ⟨href, hout, hdac, -⟩ := mpllUpdate_config s tag source
  have hsample := mpllUpdate_sample s tag source
  generalize (mpllUpdate s tag source).1 = t at href hout hdac hsample
  unfold SpllMainState.restarted mpllRestart SpllMainState.core
  dsimp only
  rcases hsample with ⟨hpi, hld⟩ | ⟨err, hpi, hld⟩
  · rw [href, hout, hdac, hpi, hld]
  · rw [href, hout, hdac, hpi, hld, ldInit_ldUpdate, (piInit_piUpdate s.pi err).1]

end Main

/-! ## The external PLL -/

section External

variable (board : Board) (hw : HwStatus) (s : SpllExternalState) (regs : ExternalRegs)

/-- The timer is read in the two states that wait for the hardware. -/
def SpllExternalState.core (s : SpllExternalState) : SpllExternalState :=
  { s with
    pi := s.pi.core
    realignTimer := if s.realignState = .stage1Wait ∨ s.realignState = .stage2Wait
      then s.realignTimer else 0 }

theorem SpllExternalState.core_core : s.core.core = s.core := by
  by_cases hwait : s.realignState = .stage1Wait ∨ s.realignState = .stage2Wait
  · simp [SpllExternalState.core, SpllPi.core, hwait]
  · simp [SpllExternalState.core, SpllPi.core, hwait]

theorem realignFsm_core :
    (realignFsm board hw s.core regs).1.core = (realignFsm board hw s regs).1.core := by
  have hstate : s.core.realignState = s.realignState := rfl
  unfold realignFsm
  cases hs : s.realignState with
  | none | stage1 | ppsInvalid | disabled | done =>
      simp [hs, SpllExternalState.core, SpllPi.core]
  | stage1Wait | stage2 | stage2Wait =>
      simp only [hstate, hs]
      split_ifs <;> simp_all [SpllExternalState.core, SpllPi.core]

/-- `external_update` behind `realign_fsm`. -/
def externalSample (hw : HwStatus) (tag : Int) (s : SpllExternalState) :
    SpllExternalState × Option DacMain × Int :=
  let raw := tag % 2 ^ bbErrorBits
  let offset := externalUnwrap s raw (decide (tag / 2 ^ bbErrorBits % 2 = 1))
  let phase := i32 (raw + offset)
  let pi := piUpdate s.pi (i32 (phase - s.phErrD0))
  let short := lowpassUpdate s.lpShort pi.2
  let long := lowpassUpdate s.lpLong pi.2
  let y2 := if hw.extRefPresent then short.2 else 32000
  let ld := ldUpdate (if hw.extRefPresent then s.ld else ldInit s.ld) (i32 (y2 - long.2))
  ({ s with
      phErrOffset := offset
      phRawD0 := raw
      phErrD0 := phase
      pi := pi.1
      lpShort := short.1
      lpLong := long.1
      ld := ld.1 },
    some (dacMainW y2 0), if ld.2 ≠ 0 then spllLocked else spllLocking)

theorem externalUpdate_eq (tag : Int) :
    externalUpdate board hw s regs tag s.refSrc =
      ((externalSample hw tag (realignFsm board hw s regs).1).1, (realignFsm board hw s regs).2,
        (externalSample hw tag (realignFsm board hw s regs).1).2) := by
  unfold externalUpdate
  rw [if_pos rfl]
  rfl

theorem externalSample_core (tag : Int) :
    (externalSample hw tag s.core).1.core = (externalSample hw tag s).1.core ∧
      (externalSample hw tag s.core).2 = (externalSample hw tag s).2 := by
  refine ⟨?_, rfl⟩
  by_cases hwait : s.realignState = .stage1Wait ∨ s.realignState = .stage2Wait
  · simp only [externalSample, SpllExternalState.core, hwait, if_true]
    rfl
  · simp only [externalSample, SpllExternalState.core, hwait, if_false]
    rfl

theorem externalUpdate_core (tag source : Int) :
    (externalUpdate board hw s.core regs tag source).1.core =
        (externalUpdate board hw s regs tag source).1.core ∧
      (externalUpdate board hw s.core regs tag source).2.2 =
        (externalUpdate board hw s regs tag source).2.2 := by
  by_cases h : source = s.refSrc
  · subst h
    have hcore : externalUpdate board hw s.core regs tag s.refSrc = _ :=
      externalUpdate_eq board hw s.core regs tag
    rw [externalUpdate_eq board hw s regs tag, hcore]
    exact agree_of_core (externalSample_core hw · tag) (realignFsm_core board hw s regs)
  · have h' : ¬ source = s.core.refSrc := h
    unfold externalUpdate
    rw [if_neg h, if_neg h']
    exact ⟨s.core_core, rfl⟩

/-- A start keeps two external PLLs together. -/
theorem externalStart_core {t : SpllExternalState} (h : s.core = t.core)
    (regs' : ExternalRegs) : (externalStart s regs).1.core = (externalStart t regs').1.core := by
  have hcore : ∀ (u : SpllExternalState) (r : ExternalRegs),
      (externalStart u r).1.core = (externalStart u.core r).1.core := by
    intro u r
    unfold externalStart SpllExternalState.core
    dsimp only
    split_ifs <;> simp_all [SpllPi.core]
  rw [hcore s, hcore t, h]
  rfl

/-- Beside what it resets, an external PLL keeps the offset of the phase. -/
theorem externalInit_core {t : SpllExternalState} (h : s.phErrOffset = t.phErrOffset)
    (extRef : Int) (realignClocks : Bool) :
    (externalInit s extRef realignClocks).core = (externalInit t extRef realignClocks).core := by
  unfold externalInit SpllExternalState.core
  cases realignClocks with
  | true => simp [h, piInit, SpllPi.core, ldInit]
  | false => simp [h, piInit, SpllPi.core, ldInit]

end External

/-! ## Two SoftPLLs that behave the same -/

/-- What the first word of a main PLL depends on beside its configuration: the tags
and the adders. -/
def SpllMainState.tagged (s : SpllMainState) : SpllMainState :=
  { s with pi := s.pi.core, phaseShiftTarget := 0, phaseShiftCurrent := 0 }

/-- The part of it that `mpll_init` leaves as it was. -/
def SpllMainState.leftover (s : SpllMainState) : SpllMainState :=
  { s.tagged with pi := {}, ld := {}, idRef := 0, idOut := 0, dacIndex := 0 }

theorem mpllInit_tagged {s t : SpllMainState} (h : s.leftover = t.leftover) (board : Board)
    (n : Nat) (idRef idOut : Int) :
    (mpllInit board n s idRef idOut).tagged = (mpllInit board n t idRef idOut).tagged := by
  have htagged : ∀ u : SpllMainState, (mpllInit board n u idRef idOut).tagged =
      (mpllInit board n u.leftover idRef idOut).tagged := fun _ => rfl
  rw [htagged s, htagged t, h]

/-- Two PLLs of an aux channel, the output of which gives no tags: they write the same
word, at most one, and only if the output left a tag. -/
structure SameAux (id : Int) (a b : SpllMainState) : Prop where
  idOut : a.idOut = id ∧ b.idOut = id
  tags : a.tagged = b.tagged ∨ (a.tagOut < 0 ∧ b.tagOut < 0)

/-- A complete pair uses up the tag of the output. -/
theorem mpllPairUpdate_tagOut (s : SpllMainState) : (mpllPairUpdate s).1.tagOut < 0 := by
  unfold mpllPairUpdate mpllShift mpllRebase
  dsimp only
  split_ifs <;> exact Int.negSucc_lt_zero 0

/-- Without a tag of its output, a PLL writes nothing. -/
theorem mpllLatch_idle {s : SpllMainState} {source : Int} (hsource : source ≠ s.idOut)
    (hneg : s.tagOut < 0) (tag : Int) :
    ¬ (mpllLatch s tag source).Paired ∧ (mpllLatch s tag source).tagOut < 0 := by
  have hout : (mpllLatch s tag source).tagOut = s.tagOut := if_neg hsource
  refine ⟨?_, hout.trans_lt hneg⟩
  rintro ⟨-, hnonneg⟩
  omega

theorem SameAux.update {id : Int} {a b : SpllMainState} (h : SameAux id a b) {tag : Tag}
    (hsource : (tag.chanId.toNat : Int) ≠ id) :
    SameAux id (mpllUpdate a tag.value.toNat tag.chanId.toNat).1
        (mpllUpdate b tag.value.toNat tag.chanId.toNat).1 ∧
      mpllWords tag a = mpllWords tag b := by
  have hid := (mpllUpdate_config a tag.value.toNat tag.chanId.toNat).2.1.trans h.idOut.1
  have hid' := (mpllUpdate_config b tag.value.toNat tag.chanId.toNat).2.1.trans h.idOut.2
  rw [← h.idOut.1] at hsource
  suffices hnext : ((mpllUpdate a tag.value.toNat tag.chanId.toNat).1.tagged =
        (mpllUpdate b tag.value.toNat tag.chanId.toNat).1.tagged ∨
      ((mpllUpdate a tag.value.toNat tag.chanId.toNat).1.tagOut < 0 ∧
        (mpllUpdate b tag.value.toNat tag.chanId.toNat).1.tagOut < 0)) ∧
      (mpllUpdate a tag.value.toNat tag.chanId.toNat).2.1 =
        (mpllUpdate b tag.value.toNat tag.chanId.toNat).2.1 by
    refine ⟨⟨⟨hid, hid'⟩, hnext.1⟩, ?_⟩
    unfold mpllWords
    rw [hnext.2]
  rcases h.tags with htags | ⟨hneg, hneg'⟩
  -- the tag fields agree: both complete a pair, or neither does
  · have hlatch : (mpllLatch a tag.value.toNat tag.chanId.toNat).tagged =
        (mpllLatch b tag.value.toNat tag.chanId.toNat).tagged := by
      have hcomm : ∀ u : SpllMainState, (mpllLatch u tag.value.toNat tag.chanId.toNat).tagged =
          mpllLatch u.tagged tag.value.toNat tag.chanId.toNat := fun _ => rfl
      rw [hcomm, hcomm, htags]
    have hpaired : (mpllLatch a tag.value.toNat tag.chanId.toNat).Paired ↔
        (mpllLatch b tag.value.toNat tag.chanId.toNat).Paired := by
      have hcomm : ∀ u : SpllMainState, u.Paired ↔ u.tagged.Paired := fun _ => Iff.rfl
      rw [hcomm, hlatch, ← hcomm]
    by_cases hpair : (mpllLatch a tag.value.toNat tag.chanId.toNat).Paired
    · rw [mpllUpdate, mpllUpdate, if_pos hpair, if_pos (hpaired.mp hpair)]
      have hword : ∀ u : SpllMainState, (mpllPairUpdate u).2.1 = (mpllPairUpdate u.tagged).2.1 :=
        fun _ => rfl
      refine ⟨Or.inr ⟨mpllPairUpdate_tagOut _, mpllPairUpdate_tagOut _⟩, ?_⟩
      rw [hword, hlatch, ← hword]
    · rw [mpllUpdate_unpaired hpair, mpllUpdate_unpaired (mt hpaired.mpr hpair)]
      exact ⟨Or.inl hlatch, rfl⟩
  -- no output tag is latched: without one of their own, neither completes a pair
  · have hsource' : (tag.chanId.toNat : Int) ≠ b.idOut := by
      rw [h.idOut.2, ← h.idOut.1]
      exact hsource
    obtain ⟨hpair, hnext⟩ := mpllLatch_idle hsource hneg tag.value.toNat
    obtain ⟨hpair', hnext'⟩ := mpllLatch_idle hsource' hneg' tag.value.toNat
    rw [mpllUpdate_unpaired hpair, mpllUpdate_unpaired hpair']
    exact ⟨Or.inr ⟨hnext, hnext'⟩, rfl⟩

/-- What has to agree in two SoftPLLs with `nRef` references and `nOut` outputs:
the configuration of the loops always, the state of a loop where it runs. -/
structure SameLoops (nRef nOut : Nat) (s t : SoftpllState) : Prop where
  mode : s.mode = t.mode
  seqState : s.seqState = t.seqState
  nChanOut : s.nChanOut = nOut ∧ t.nChanOut = nOut
  takesTags : s.takesTags = t.takesTags
  dacTimeout : s.seqState = .waitClearDacs → s.dacTimeout = t.dacTimeout
  helperConfig : s.helper.restarted = t.helper.restarted
  helper : s.seqState.runsHelper = true → s.helper.core = t.helper.core
  mainConfig : s.mpll.restarted = t.mpll.restarted
  main : s.RunsMpll → s.mpll.core = t.mpll.core
  external : s.seqState = .startExt ∨ s.seqState = .waitExt → s.mode = .grandMaster
  ext : s.mode = .grandMaster → s.ext.core = t.ext.core
  aux : s.mode = .slave → ∀ i, i < nOut - 1 →
    SameAux (nRef + i + 1) (s.aux i).dmtd (t.aux i).dmtd

/-- The events of the comparison: tags, none of them of an aux output. -/
def Event.OffAux (nRef nOut : Nat) (e : Event) : Prop :=
  match e with
  | .tag word _ => word.chanId.toNat ≤ nRef ∨ nRef + nOut ≤ word.chanId.toNat
  | _ => False

/-- The words for the DACs among the actions of a step. -/
def dacWrites (acts : List Action) : List Action :=
  acts.filter fun act =>
    match act with
    | .dacHpll _ | .dacMain _ => true
    | _ => false

/-- What the world sees of a step: the state of the sequencer and the words for the
DACs, in order. -/
def SoftpllState.observed (s : SoftpllState) : SeqState × List Action :=
  (s.seqState, dacWrites s.log)

section Sequencer

variable (board : Board) (hw : HwStatus) (s : SoftpllState)

/-- The DACs settle until the timeout set when they were cleared. -/
theorem sequencingFsm_waitClearDacs
    (h : (sequencingFsm board hw s).seqState = .waitClearDacs) :
    (s.seqState = .clearDacs ∧ (sequencingFsm board hw s).dacTimeout =
        i32 (hw.tics.toNat + board.ticsPerSecond / 20)) ∨
      (s.seqState = .waitClearDacs ∧ sequencingFsm board hw s = s) := by
  cases hstate : s.seqState with
  | clearDacs =>
      refine Or.inl ⟨rfl, ?_⟩
      simp only [sequencingFsm, hstate]
  | waitClearDacs =>
      refine Or.inr ⟨rfl, ?_⟩
      simp only [sequencingFsm, hstate] at h ⊢
      split_ifs at h ⊢
      rfl
  | none | disabled | startExt | startHelper | startMain =>
      simp [sequencingFsm, hstate, startExternal, startHelper, startMain] at h
  | waitExt | waitHelper | waitMain | ready =>
      simp only [sequencingFsm, hstate] at h
      split_ifs at h
      simp [hstate] at h

/-- The external PLL is awaited after its start only. -/
theorem sequencingFsm_fromStartExt (h : (sequencingFsm board hw s).seqState = .waitExt) :
    s.seqState = .startExt ∨ s.seqState = .waitExt := by
  cases hstate : s.seqState with
  | startExt => exact Or.inl rfl
  | waitExt => exact Or.inr rfl
  | none | disabled | clearDacs | startHelper | startMain =>
      simp [sequencingFsm, hstate, startHelper, startMain] at h
  | waitClearDacs | waitHelper | waitMain | ready =>
      simp only [sequencingFsm, hstate] at h
      split_ifs at h
      simp [hstate] at h

/-- No loop runs while the DACs settle. -/
theorem updateLoops_waitClearDacs (tag : Tag) (h : s.seqState = .waitClearDacs) :
    updateLoops board hw s tag = s := by
  simp [updateLoops, h, SeqState.runsExternal, SeqState.runsHelper]

end Sequencer

section Steps

variable {nRef nOut : Nat} (board : Board) (hw : HwStatus) {s t : SoftpllState}
  (h : SameLoops nRef nOut s t)

include h

/-- The actions of a step are not read back. -/
theorem SameLoops.log (acts acts' : List Action) :
    SameLoops nRef nOut { s with log := acts } { t with log := acts' } :=
  ⟨h.mode, h.seqState, h.nChanOut, h.takesTags, h.dacTimeout, h.helperConfig, h.helper,
    h.mainConfig, h.main, h.external, h.ext, h.aux⟩

theorem sameLoops_externalLocked (hmode : s.mode = .grandMaster) :
    externalLocked s.ext = externalLocked t.ext := by
  have hcore : externalLocked s.ext.core = externalLocked t.ext.core := by rw [h.ext hmode]
  exact hcore

theorem sameLoops_helperLd (hruns : s.seqState.runsHelper = true) : s.helper.ld = t.helper.ld := by
  have hld := congrArg SpllHelperState.ld (h.helper hruns)
  exact hld

theorem sameLoops_mainLd (hruns : s.RunsMpll) : s.mpll.ld = t.mpll.ld := by
  have hld := congrArg SpllMainState.ld (h.main hruns)
  exact hld

/-- The sequencers take the same way. -/
theorem sameLoops_seqState :
    (sequencingFsm board hw s).seqState = (sequencingFsm board hw t).seqState := by
  have hmode := h.mode
  cases hstate : s.seqState with
  | none | disabled | clearDacs =>
      have hstate' := h.seqState.symm.trans hstate
      simp only [sequencingFsm, hstate, hstate']
  | startExt | startHelper | startMain =>
      have hstate' := h.seqState.symm.trans hstate
      simp only [sequencingFsm, hstate, hstate']
      rfl
  | waitClearDacs =>
      have hstate' := h.seqState.symm.trans hstate
      simp only [sequencingFsm, hstate, hstate', h.dacTimeout hstate, hmode]
      split_ifs <;> simp [hstate, hstate']
  | waitExt =>
      have hstate' := h.seqState.symm.trans hstate
      have hlocked := sameLoops_externalLocked h (h.external (Or.inr hstate))
      simp only [sequencingFsm, hstate, hstate', hlocked]
      split_ifs <;> simp [hstate, hstate']
  | waitHelper =>
      have hstate' := h.seqState.symm.trans hstate
      have hld := sameLoops_helperLd h (by rw [hstate]; rfl)
      rw [sequencingFsm_waitHelper _ _ _ hstate, sequencingFsm_waitHelper _ _ _ hstate', hld,
        hmode]
      split_ifs <;> simp [hstate, hstate']
  | waitMain =>
      have hstate' := h.seqState.symm.trans hstate
      have hld := sameLoops_mainLd h (Or.inl hstate)
      rw [sequencingFsm_waitMain _ _ _ hstate, sequencingFsm_waitMain _ _ _ hstate', hld]
      split_ifs <;> simp [hstate, hstate']
  | ready =>
      have hstate' := h.seqState.symm.trans hstate
      have hld := sameLoops_helperLd h (by rw [hstate]; rfl)
      have hext : s.mode = .grandMaster ∧ !externalLocked s.ext ↔
          t.mode = .grandMaster ∧ !externalLocked t.ext := by
        rw [← hmode]
        apply and_congr_right
        intro hgrand
        rw [sameLoops_externalLocked h hgrand]
      have hmain : s.mode = .slave ∧ !s.mpll.ld.locked ↔
          t.mode = .slave ∧ !t.mpll.ld.locked := by
        rw [← hmode]
        apply and_congr_right
        intro hslave
        rw [sameLoops_mainLd h (Or.inr ⟨hstate, hslave⟩)]
      rw [sequencingFsm_ready _ _ _ hstate, sequencingFsm_ready _ _ _ hstate', hld]
      simp only [hext, hmain]
      split_ifs <;> simp [hstate, hstate']

theorem sameLoops_sequencerActions : sequencerActions s = sequencerActions t := by
  have hhelper := congrArg (fun u : SpllHelperState => u.pi.yMax) h.helperConfig
  have hmax := congrArg (fun u : SpllMainState => u.pi.yMax) h.mainConfig
  have hmin := congrArg (fun u : SpllMainState => u.pi.yMin) h.mainConfig
  change s.helper.pi.yMax = t.helper.pi.yMax at hhelper
  change s.mpll.pi.yMax = t.mpll.pi.yMax at hmax
  change s.mpll.pi.yMin = t.mpll.pi.yMin at hmin
  unfold sequencerActions
  rw [h.seqState, hhelper, hmax, hmin]

/-- The sequencer starts the same loops from the same configuration. -/
theorem sameLoops_sequencingFsm :
    SameLoops nRef nOut (sequencingFsm board hw s) (sequencingFsm board hw t) := by
  have hsession := sequencingFsm_session board hw s
  have hsession' := sequencingFsm_session board hw t
  have hstate := h.seqState
  refine ⟨?_, sameLoops_seqState board hw h, ?_, ?_, ?_, ?_, ?_, ?_, ?_, ?_, ?_, ?_⟩
  · rw [hsession.mode, hsession'.mode, h.mode]
  · exact ⟨hsession.nChanOut.trans h.nChanOut.1, hsession'.nChanOut.trans h.nChanOut.2⟩
  · rw [hsession.takesTags, hsession'.takesTags, h.takesTags]
  -- the timeout: set on the way in, kept while waiting
  · intro hwait
    have hwait' := (sameLoops_seqState board hw h).symm.trans hwait
    rcases sequencingFsm_waitClearDacs board hw s hwait with ⟨hclear, hset⟩ | ⟨hstay, heq⟩
    · rcases sequencingFsm_waitClearDacs board hw t hwait' with ⟨-, hset'⟩ | ⟨hstay', -⟩
      · rw [hset, hset']
      · simp [hstate.symm.trans hclear] at hstay'
    · rcases sequencingFsm_waitClearDacs board hw t hwait' with ⟨hclear', -⟩ | ⟨-, heq'⟩
      · simp [hstate.symm.trans hstay] at hclear'
      · rw [heq, heq', h.dacTimeout hstay]
  -- the helper: a start makes it from its configuration
  · rw [sequencingFsm_helper, sequencingFsm_helper, hstate]
    split_ifs <;> exact h.helperConfig
  · intro hruns
    rw [sequencingFsm_helper, sequencingFsm_helper, hstate]
    split_ifs with hstart
    · exact h.helperConfig
    · rcases sequencingFsm_runsHelper board hw s hruns with hstart' | hran
      · exact absurd (hstate.symm.trans hstart') hstart
      · exact h.helper hran
  -- the main PLL, likewise
  · rw [sequencingFsm_mpll, sequencingFsm_mpll, hstate]
    split_ifs <;> exact h.mainConfig
  · intro hruns
    rw [SoftpllState.RunsMpll, hsession.mode] at hruns
    rw [sequencingFsm_mpll, sequencingFsm_mpll, hstate]
    split_ifs with hstart
    · exact h.mainConfig
    · rcases sequencingFsm_runsMpll board hw s hruns with hstart' | hran
      · exact absurd (hstate.symm.trans hstart') hstart
      · exact h.main hran
  -- the external PLL runs in grand master mode only
  · rw [hsession.mode]
    rintro (hstart | hwait)
    · exact sequencingFsm_startExt board hw s hstart
    · exact h.external (sequencingFsm_fromStartExt board hw s hwait)
  · rw [hsession.mode]
    intro hgrand
    rw [(sequencingFsm_external board hw s).1, (sequencingFsm_external board hw t).1, hstate]
    split_ifs
    · exact externalStart_core _ _ (h.ext hgrand) _
    · exact h.ext hgrand
  · rw [hsession.mode, sequencingFsm_aux, sequencingFsm_aux]
    exact h.aux

/-- The same loops run. -/
theorem sameLoops_runs : (s.RunsExternal ↔ t.RunsExternal) ∧ (s.RunsMpll ↔ t.RunsMpll) ∧
    (s.RunsAuxs ↔ t.RunsAuxs) := by
  unfold SoftpllState.RunsExternal SoftpllState.RunsMpll SoftpllState.RunsAuxs
  rw [h.mode, h.seqState]
  exact ⟨Iff.rfl, Iff.rfl, Iff.rfl⟩

variable (tag : Tag)

/-- A tag for the external PLLs. -/
theorem sameLoops_externalUpdate (hgrand : s.mode = .grandMaster) (regs regs' : ExternalRegs) :
    (externalUpdate board hw s.ext regs tag.value.toNat tag.chanId.toNat).1.core =
        (externalUpdate board hw t.ext regs' tag.value.toNat tag.chanId.toNat).1.core ∧
      (externalUpdate board hw s.ext regs tag.value.toNat tag.chanId.toNat).2.2 =
        (externalUpdate board hw t.ext regs' tag.value.toNat tag.chanId.toNat).2.2 := by
  obtain ⟨hstate, hout⟩ := externalUpdate_regs board hw t.ext regs' regs tag.value.toNat
    tag.chanId.toNat
  rw [hstate, hout]
  let update : SpllExternalState → SpllExternalState × Option DacMain × Int := fun u =>
    ((externalUpdate board hw u regs tag.value.toNat tag.chanId.toNat).1,
      (externalUpdate board hw u regs tag.value.toNat tag.chanId.toNat).2.2)
  exact agree_of_core (f := update)
    (externalUpdate_core board hw · regs tag.value.toNat tag.chanId.toNat) (h.ext hgrand)

/-- The words of the loops. -/
theorem sameLoops_loopWords
    (htag : tag.chanId.toNat ≤ nRef ∨ nRef + nOut ≤ tag.chanId.toNat) :
    loopWords board hw s tag = loopWords board hw t tag := by
  obtain ⟨-, hmpll, hauxs⟩ := sameLoops_runs h
  unfold loopWords
  congr 1
  · congr 1
    · congr 1
      · rw [← h.mode, ← h.seqState]
        split_ifs with hruns
        · rw [(sameLoops_externalUpdate board hw h tag hruns.1 _ ⟨t.spll, t.ppsg⟩).2]
        · rfl
      · rw [← h.seqState]
        split_ifs with hruns
        · rw [(agree_of_core (f := fun u => helperUpdate u tag.value.toNat tag.chanId.toNat)
            (helperUpdate_core · _ _) (h.helper hruns)).2]
        · rfl
    · by_cases hruns : s.RunsMpll
      · rw [if_pos hruns, if_pos (hmpll.mp hruns)]
        unfold mpllWords
        rw [(agree_of_core (f := fun u => mpllUpdate u tag.value.toNat tag.chanId.toNat)
            (mpllUpdate_core · _ _) (h.main hruns)).2]
      · rw [if_neg hruns, if_neg (mt hmpll.mpr hruns)]
  · by_cases hruns : s.RunsAuxs
    · rw [if_pos hruns, if_pos (hauxs.mp hruns), h.nChanOut.1, h.nChanOut.2]
      apply List.flatMap_congr
      intro i hi
      have hi' := List.mem_range.mp hi
      exact ((h.aux hruns.2 i hi').update (by omega)).2
    · rw [if_neg hruns, if_neg (mt hauxs.mpr hruns)]

/-- The loops take the same steps. -/
theorem sameLoops_updateLoops
    (htag : tag.chanId.toNat ≤ nRef ∨ nRef + nOut ≤ tag.chanId.toNat) :
    SameLoops nRef nOut (updateLoops board hw s tag) (updateLoops board hw t tag) := by
  have hs := updateLoops_done board hw s tag
  have ht := updateLoops_done board hw t tag
  obtain ⟨hexternal, hmpll, hauxs⟩ := sameLoops_runs h
  have hstate := h.seqState
  refine ⟨?_, ?_, ?_, ?_, ?_, ?_, ?_, ?_, ?_, ?_, ?_, ?_⟩
  · rw [hs.session.mode, ht.session.mode, h.mode]
  · rw [hs.seqState, ht.seqState, hstate]
  · exact ⟨hs.session.nChanOut.trans h.nChanOut.1, ht.session.nChanOut.trans h.nChanOut.2⟩
  · rw [hs.session.takesTags, ht.session.takesTags, h.takesTags]
  · rw [hs.seqState]
    intro hwait
    rw [updateLoops_waitClearDacs _ _ _ _ hwait,
      updateLoops_waitClearDacs _ _ _ _ (hstate.symm.trans hwait), h.dacTimeout hwait]
  -- a loop that runs takes the step of its core, another one keeps its state
  · rw [hs.helper, ht.helper, hstate]
    split_ifs
    · rw [helperUpdate_restarted, helperUpdate_restarted, h.helperConfig]
    · exact h.helperConfig
  · rw [hs.seqState, hs.helper, ht.helper, hstate]
    intro hruns
    rw [if_pos hruns, if_pos hruns]
    exact (agree_of_core (f := fun u => helperUpdate u tag.value.toNat tag.chanId.toNat)
      (helperUpdate_core · _ _) (h.helper (by rw [hstate, hruns]))).1
  · rw [hs.mpll, ht.mpll]
    simp only [hmpll]
    split_ifs
    · rw [mpllUpdate_restarted, mpllUpdate_restarted, h.mainConfig]
    · exact h.mainConfig
  · rw [SoftpllState.RunsMpll, hs.seqState, hs.session.mode]
    intro (hruns : s.RunsMpll)
    rw [hs.mpll, ht.mpll, if_pos hruns, if_pos (hmpll.mp hruns)]
    exact (agree_of_core (f := fun u => mpllUpdate u tag.value.toNat tag.chanId.toNat)
      (mpllUpdate_core · _ _) (h.main hruns)).1
  · rw [hs.seqState, hs.session.mode]
    exact h.external
  · rw [hs.session.mode]
    intro hgrand
    rw [(updateLoops_external board hw s tag).1, (updateLoops_external board hw t tag).1]
    simp only [hexternal]
    split_ifs
    · exact (sameLoops_externalUpdate board hw h tag hgrand _ _).1
    · exact h.ext hgrand
  · rw [hs.session.mode]
    intro hslave i hi
    rw [hs.aux, ht.aux, h.nChanOut.1, h.nChanOut.2]
    simp only [hauxs]
    split_ifs
    · rw [processed_lt _ _ hi, processed_lt _ _ hi]
      exact ((h.aux hslave i hi).update (by omega)).1
    · exact h.aux hslave i hi

end Steps

/-- One tag. -/
theorem sameLoops_step {nRef nOut : Nat} (board : Board) (s t : SoftpllState) (e : Event)
    (h : SameLoops nRef nOut s t) (he : e.OffAux nRef nOut) :
    SameLoops nRef nOut (step board s e) (step board t e) ∧
      (step board s e).observed = (step board t e).observed := by
  cases e with
  | init | shutdown | startChannel | stopChannel | setPhaseShift | enablePtracker
  | updateAuxClocks => exact he.elim
  | tag tag hw =>
      have hlog := h.log [] []
      have htags : ({ s with log := [] } : SoftpllState).takesTags =
          ({ t with log := [] } : SoftpllState).takesTags := hlog.takesTags
      simp only [step, htags]
      split_ifs
      · have hseq := sameLoops_sequencingFsm board hw hlog
        have hnext := sameLoops_updateLoops board hw hseq tag he
        have hwords := sameLoops_loopWords board hw hseq tag he
        refine ⟨hnext, Prod.ext hnext.seqState ?_⟩
        show dacWrites (tagStep board hw _ tag).log = dacWrites (tagStep board hw _ tag).log
        rw [tagStep_log, tagStep_log, hwords, sameLoops_sequencerActions hlog]
      · exact ⟨hlog, Prod.ext hlog.seqState rfl⟩

/-! ## Two initialisations -/

/-- What an initialisation leaves as it was and the new session reads: the offset of
the external phase in a grandmaster, the tags of the aux PLLs in a slave. -/
def SameLeftovers (mode : SpllMode) (hw : InitStatus) (s t : SoftpllState) : Prop :=
  (mode = .grandMaster → s.ext.phErrOffset = t.ext.phErrOffset) ∧
    (mode = .slave → ∀ i, i < hw.nOut - 1 →
      (s.aux i).dmtd.leftover = (t.aux i).dmtd.leftover ∨
        ((s.aux i).dmtd.tagOut < 0 ∧ (t.aux i).dmtd.tagOut < 0))

section Init

variable (board : Board) (s t : SoftpllState) (mode : SpllMode) (slaveRefChannel : Int)
  (alignPps : Bool) (hw : InitStatus)

/-- Everything else is reset. -/
theorem sameLoops_init (hmode : mode ≠ .disabled) (haccepted : initRefused hw mode = false)
    (hleft : SameLeftovers mode hw s t) :
    SameLoops hw.nRef hw.nOut (step board s (.init mode slaveRefChannel alignPps hw))
      (step board t (.init mode slaveRefChannel alignPps hw)) := by
  rw [step, step, spllInit_accepted board _ slaveRefChannel alignPps haccepted,
    spllInit_accepted board _ slaveRefChannel alignPps haccepted]
  have hstate : (if mode = .disabled then SeqState.disabled else SeqState.clearDacs) =
      .clearDacs := if_neg hmode
  refine ⟨rfl, rfl, ⟨rfl, rfl⟩, rfl, ?_, rfl, ?_, rfl, ?_, ?_, ?_, ?_⟩
  · show (if mode = .disabled then SeqState.disabled else SeqState.clearDacs) = _ → _
    rw [hstate]
    exact fun hwait => absurd hwait (by decide)
  · show (if mode = .disabled then SeqState.disabled else SeqState.clearDacs).runsHelper = _ → _
    rw [hstate]
    exact fun hruns => absurd hruns (by decide)
  · show ((if mode = .disabled then SeqState.disabled else SeqState.clearDacs) = _ ∨
      ((if mode = .disabled then SeqState.disabled else SeqState.clearDacs) = _ ∧ _)) → _
    rw [hstate]
    simp
  · show ((if mode = .disabled then SeqState.disabled else SeqState.clearDacs) = _ ∨
      (if mode = .disabled then SeqState.disabled else SeqState.clearDacs) = _) → _
    rw [hstate]
    simp
  · intro hgrand
    have hgrand' : mode = .grandMaster := hgrand
    simp only [spllInitLoops, spllInitRegs, hgrand', if_true]
    exact externalInit_core _ (hleft.1 hgrand') _ _
  · intro hslave i hi
    have hi' : i < hw.nOut - 1 := hi
    simp only [spllInitLoops, spllInitRegs, hi', if_true]
    rcases hleft.2 hslave i hi with hsame | ⟨hs, ht⟩
    · exact ⟨⟨rfl, rfl⟩, Or.inl (mpllInit_tagged hsame board _ _ _)⟩
    · exact ⟨⟨rfl, rfl⟩, Or.inr ⟨hs, ht⟩⟩

/-- Two SoftPLLs with the same leftovers are the same after an initialisation: the same
tags give the same words for the DACs and the same states of the sequencer. -/
theorem init_forgets_history (hmode : mode = .grandMaster ∨ mode = .freeRunningMaster ∨
      mode = .slave) (haccepted : initRefused hw mode = false)
    (hleft : SameLeftovers mode hw s t) (es : List Event)
    (hes : ∀ e ∈ es, e.OffAux hw.nRef hw.nOut) :
    trace (step board) SoftpllState.observed
        (step board s (.init mode slaveRefChannel alignPps hw)) es =
      trace (step board) SoftpllState.observed
        (step board t (.init mode slaveRefChannel alignPps hw)) es := by
  have hloops := sameLoops_init board s t mode slaveRefChannel alignPps hw
    (by rcases hmode with rfl | rfl | rfl <;> decide) haccepted hleft
  exact trace_eq_of_related SoftpllState.observed _ _ (sameLoops_step board) hloops es hes

end Init

/-! ## The offset of an earlier grandmaster -/

/-- A grandmaster gets one tag of the external reference, with the wrap bit. -/
def wrappedSession : List Event :=
  [.init .grandMaster 0 false ⟨0x20100, true⟩, .tag ⟨0, 0⟩ {}, .tag ⟨0, 0⟩ { tics := 1000 },
    .tag ⟨0x10000, 3⟩ { tics := 1000, extRefPresent := true }]

/-- The tags of the next grandmaster up to its first word. -/
def firstTags : List Event :=
  [.tag ⟨0, 0⟩ {}, .tag ⟨0, 0⟩ { tics := 1000 },
    .tag ⟨0, 3⟩ { tics := 1000, extRefPresent := true }]

/-- A slave after a grandmaster: the offset does not matter to it. -/
theorem init_forgets_history_slave :
    trace (step Board.wrc) SoftpllState.observed
        (step Board.wrc (run (step Board.wrc) powerUp wrappedSession)
          (.init .slave 0 true ⟨0x20100, true⟩)) firstTags =
      trace (step Board.wrc) SoftpllState.observed
        (step Board.wrc powerUp (.init .slave 0 true ⟨0x20100, true⟩)) firstTags := by
  refine init_forgets_history Board.wrc _ _ .slave 0 true ⟨0x20100, true⟩ (by decide) rfl
    ⟨fun hgrand => absurd hgrand (by decide), fun _ i hi => Or.inl ?_⟩ firstTags ?_
  · have hfirst : i = 0 := Nat.lt_one_iff.mp hi
    subst hfirst
    decide +kernel
  · simp [firstTags, Event.OffAux, InitStatus.nRef, InitStatus.nOut]

/-- The first word of a grandmaster depends on the tags of the grandmaster before. -/
theorem offset_survives :
    trace (step Board.wrc) SoftpllState.observed
        (step Board.wrc (run (step Board.wrc) powerUp wrappedSession)
          (.init .grandMaster 0 false ⟨0x20100, true⟩)) firstTags ≠
      trace (step Board.wrc) SoftpllState.observed
        (step Board.wrc powerUp (.init .grandMaster 0 false ⟨0x20100, true⟩)) firstTags := by
  decide +kernel

end Softpll
end WrpcSw
