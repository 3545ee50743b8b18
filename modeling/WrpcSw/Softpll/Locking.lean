import WrpcSw.Softpll.Steps

/-!
# How the loops lock

From a start, the helper PLL locks after `lockSamples` tags that follow the
ideal loop, and a main PLL after `lockSamples` pairs of equal tags; once locked,
a loop keeps its lock under any short burst of other tags.  These are the runs
that lead the sequencer to `ready`.

A `LoopView` is what the loops of one aux channel read: the runs are followed on
it, and `view_tag` reduces a tag on the whole SoftPLL to it.

* `helperFollows_step`, `helperHolds_step` — one tag of the helper.
* `mainFed_pair`, `mainFed_other` — one pair, and any other tag, of a main PLL.
* `helper_locks`, `main_locks` — the runs.
-/

namespace WrpcSw
namespace Softpll

open CInt Run

/-! ## The view -/

/-- What the loops of a SoftPLL with one aux channel read. -/
structure LoopView where
  mode : SpllMode
  seqState : SeqState
  takesTags : Bool
  nChanOut : Nat
  shiftPs : Int
  helper : SpllHelperState
  mpll : SpllMainState
  aux : SpllAuxState

def SoftpllState.view (s : SoftpllState) : LoopView where
  mode := s.mode
  seqState := s.seqState
  takesTags := s.takesTags
  nChanOut := s.nChanOut
  shiftPs := s.mpllShiftPs
  helper := s.helper
  mpll := s.mpll
  aux := s.aux 0

/-- The view after a pass over the loops. -/
def LoopView.afterLoops (v : LoopView) (tag : Tag) : LoopView :=
  { v with
    helper := if v.seqState.runsHelper then
        (helperUpdate v.helper tag.value.toNat tag.chanId.toNat).1
      else v.helper
    mpll := if v.seqState = .waitMain ∨ (v.seqState = .ready ∧ v.mode = .slave) then
        (mpllUpdate v.mpll tag.value.toNat tag.chanId.toNat).1
      else v.mpll
    aux := if (v.seqState = .ready ∧ v.mode = .slave) ∧ 1 < v.nChanOut then
        auxAfterTag tag v.aux
      else v.aux }

section View

variable (board : Board) (s : SoftpllState) (tag : Tag) (hw : HwStatus)

theorem view_updateLoops :
    (updateLoops board hw s tag).view = s.view.afterLoops tag := by
  have hloops := updateLoops_done board hw s tag
  have haux : (updateLoops board hw s tag).aux 0 =
      if (s.seqState = .ready ∧ s.mode = .slave) ∧ 1 < s.nChanOut then
        auxAfterTag tag (s.aux 0) else s.aux 0 := by
    rw [hloops.aux]
    by_cases hruns : s.RunsAuxs
    · have hruns' : s.seqState = .ready ∧ s.mode = .slave := hruns
      by_cases hout : 1 < s.nChanOut
      · rw [if_pos hruns, if_pos ⟨hruns', hout⟩, processed_lt _ _ (by omega)]
      · rw [if_pos hruns, if_neg (fun h => hout h.2), processed_ge _ _ (by omega)]
    · rw [if_neg hruns, if_neg (fun h => hruns h.1)]
  simp only [SoftpllState.view, LoopView.afterLoops, hloops.session.mode, hloops.seqState,
    hloops.session.takesTags, hloops.session.nChanOut, hloops.session.mpllShiftPs,
    hloops.helper, hloops.mpll, haux]
  rfl

/-- A tag that is processed, seen through the view. -/
theorem view_tag (htakes : s.view.takesTags = true) :
    (step board s (.tag tag hw)).view =
      (sequencingFsm board hw { s with log := [] }).view.afterLoops tag := by
  have htaken : ({ s with log := [] } : SoftpllState).takesTags = true := htakes
  simp only [step, htaken, if_true]
  exact view_updateLoops board _ tag hw

/-- The sequencer enters `ready`. -/
theorem view_entersReady (henters : s.EntersReady) :
    (sequencingFsm board hw { s with log := [] }).view =
      { s.view with seqState := .ready } := by
  obtain ⟨trackers, regs, heq, heic⟩ :=
    sequencingFsm_entersReady board hw { s with log := [] } henters
  rw [heq]
  simp only [SoftpllState.view, SoftpllState.takesTags, heic]

/-- While the helper has not locked, the sequencer waits for it. -/
theorem view_waitHelper (hstate : s.view.seqState = .waitHelper)
    (hlock : s.view.helper.ld.locked = false) :
    (sequencingFsm board hw { s with log := [] }).view = s.view := by
  have hlock' : s.helper.ld.locked = false := hlock
  rw [sequencingFsm_waitHelper board hw { s with log := [] } hstate]
  simp [hlock', SoftpllState.view, SoftpllState.takesTags]

/-- A locked helper lets the main PLL start, in slave mode. -/
theorem view_helperLocked_slave (hstate : s.view.seqState = .waitHelper)
    (hmode : s.view.mode = .slave) (hlock : s.view.helper.ld.locked = true)
    (hchanged : s.view.helper.ld.lockChanged = true) :
    (sequencingFsm board hw { s with log := [] }).view =
      { s.view with seqState := .startMain } := by
  have hlock' : s.helper.ld.locked = true := hlock
  have hchanged' : s.helper.ld.lockChanged = true := hchanged
  have hmode' : s.mode = .slave := hmode
  rw [sequencingFsm_waitHelper board hw { s with log := [] } hstate]
  simp [hlock', hchanged', hmode', SoftpllState.view, SoftpllState.takesTags]

/-- A locked helper is all that the other modes wait for. -/
theorem view_helperLocked_master (hstate : s.view.seqState = .waitHelper)
    (hmode : s.view.mode ≠ .slave) (hlock : s.view.helper.ld.locked = true)
    (hchanged : s.view.helper.ld.lockChanged = true) :
    (sequencingFsm board hw { s with log := [] }).view = { s.view with seqState := .ready } :=
  view_entersReady board s hw (Or.inl ⟨hstate, hmode, hlock, hchanged⟩)

theorem view_startMain (hstate : s.view.seqState = .startMain) :
    (sequencingFsm board hw { s with log := [] }).view =
      { s.view with seqState := .waitMain, mpll := mpllRestart s.view.mpll } := by
  rw [sequencingFsm_startMain board hw { s with log := [] } hstate]
  simp [startMain, mpllStart, SoftpllState.view, SoftpllState.takesTags]

/-- While the main PLL has not locked, the sequencer waits for it. -/
theorem view_waitMain (hstate : s.view.seqState = .waitMain)
    (hlock : s.view.mpll.ld.locked = false) :
    (sequencingFsm board hw { s with log := [] }).view = s.view := by
  have hlock' : s.mpll.ld.locked = false := hlock
  rw [sequencingFsm_waitMain board hw { s with log := [] } hstate]
  simp [hlock', SoftpllState.view, SoftpllState.takesTags]

/-- A locked main PLL makes the sequencer enter `ready`. -/
theorem view_mainLocked (hstate : s.view.seqState = .waitMain)
    (hlock : s.view.mpll.ld.locked = true) :
    (sequencingFsm board hw { s with log := [] }).view = { s.view with seqState := .ready } :=
  view_entersReady board s hw (Or.inr ⟨hstate, hlock⟩)

/-- A slave with both loops locked stays in `ready`. -/
theorem view_ready_slave (hstate : s.view.seqState = .ready) (hmode : s.view.mode = .slave)
    (hhelper : s.view.helper.ld.locked = true) (hmain : s.view.mpll.ld.locked = true) :
    (sequencingFsm board hw { s with log := [] }).view = s.view := by
  have hhelper' : s.helper.ld.locked = true := hhelper
  have hmain' : s.mpll.ld.locked = true := hmain
  have hmode' : s.mode = .slave := hmode
  rw [sequencingFsm_ready board hw { s with log := [] } hstate]
  simp [hhelper', hmain', hmode', SoftpllState.view, SoftpllState.takesTags]

/-- A poll of one aux channel. -/
theorem view_poll (enable : AuxEnable) (hout : 1 < s.view.nChanOut) :
    (step board s (.updateAuxClocks enable)).view =
      { s.view with aux := (auxNext board enable s 0 s.view.aux).1 } := by
  have hout' : 1 < s.nChanOut := hout
  obtain ⟨regs, heic, hpoll⟩ := spllUpdateAuxClocks_eq board enable { s with log := [] }
  simp only [step, hpoll, SoftpllState.view, SoftpllState.takesTags, heic]
  rw [processed_lt _ _ (by omega)]
  rfl

/-- The setpoint call for all channels. -/
theorem view_setPhaseShift_all (value : Int) (hout : 1 < s.view.nChanOut) :
    (step board s (.setPhaseShift .all value)).view =
      { s.view with
        shiftPs := value
        mpll := mpllSetPhaseShift s.view.mpll (shiftUnits board value)
        aux := auxSetpoint (shiftUnits board value) s.view.aux } := by
  have hout' : 1 < s.nChanOut := hout
  simp only [step, spllSetPhaseShift_all, SoftpllState.view, SoftpllState.takesTags]
  rw [processed_lt _ _ (by omega)]

/-- A poll starts a disabled channel. -/
theorem view_poll_start (enable : AuxEnable) (hout : 1 < s.view.nChanOut)
    (hstate : s.view.seqState = .ready) (hmain : s.view.mpll.ld.locked = true)
    (haux : s.view.aux.seqState = .disabled) (henable : enable.second 1 = true) :
    (step board s (.updateAuxClocks enable)).view =
      { s.view with aux := ⟨.lockPll, mpllRestart s.view.aux.dmtd⟩ } := by
  have hstate' : s.seqState = .ready := hstate
  have hmain' : s.mpll.ld.locked = true := hmain
  rw [view_poll board s enable hout]
  simp [auxNext, auxChecked, auxAdvanced, haux, hstate', hmain', henable]

/-- A poll gives a locked channel its setpoint. -/
theorem view_poll_align (enable : AuxEnable) (hout : 1 < s.view.nChanOut)
    (haux : s.view.aux.seqState = .lockPll) (hlock : s.view.aux.dmtd.ld.locked = true)
    (henable : enable.first 1 = true) :
    (step board s (.updateAuxClocks enable)).view =
      { s.view with
        aux := ⟨.alignPhase,
          mpllSetPhaseShift s.view.aux.dmtd (shiftUnits board s.view.shiftPs)⟩ } := by
  have hshift : s.mpllShiftPs = s.view.shiftPs := rfl
  rw [view_poll board s enable hout]
  simp [auxNext, auxChecked, auxAdvanced, haux, hlock, henable, hshift]

end View

/-! ## The helper PLL -/

/-- The settings of `helper_init`. -/
structure HelperConfigured (s : SpllHelperState) (ref : Int) : Prop where
  refSrc : s.refSrc = ref
  lockSamples : s.ld.lockSamples = 10000
  delockSamples : s.ld.delockSamples = 100
  threshold : s.ld.threshold = 200

theorem helperConfigured_update {s : SpllHelperState} {ref : Int} (tag source : Int)
    (h : HelperConfigured s ref) : HelperConfigured (helperUpdate s tag source).1 ref := by
  have hld : (helperUpdate s tag source).1.ld.SameSettings s.ld := by
    rcases helperUpdate_ld_cases s tag source with hsame | ⟨err, hnext⟩
    · rw [hsame]
      exact ⟨rfl, rfl, rfl⟩
    · rw [hnext]
      exact ldUpdate_settings s.ld err
  exact ⟨(helperUpdate_refSrc s tag source).trans h.refSrc, hld.1.trans h.lockSamples,
    hld.2.1.trans h.delockSamples, hld.2.2.trans h.threshold⟩

/-- After the tags `0 .. n` of a reference inside the threshold, the detector has
counted `n` samples, and it locks with the last one. -/
structure HelperFollows (T : Nat → Int) (n : Nat) (s : SpllHelperState) (ref : Int) : Prop where
  configured : HelperConfigured s ref
  tracks : HelperTracks T n s
  count : s.ld.lockCnt = n
  locked : s.ld.locked = decide (n = 10000)
  changed : n = 10000 → s.ld.lockChanged = true

/-- The helper is idle on another channel. -/
theorem HelperConfigured.idle {s : SpllHelperState} {ref source : Int}
    (h : HelperConfigured s ref) (hother : source ≠ ref) (tag : Int) :
    (helperUpdate s tag source).1 = s := by
  rw [helperUpdate_other]
  rwa [h.refSrc]

/-- Behind enough good samples it is locked. -/
theorem HelperFollows.isLocked {T : Nat → Int} {s : SpllHelperState} {ref : Int}
    (h : HelperFollows T 10000 s ref) : s.ld.locked = true :=
  h.locked.trans (decide_eq_true rfl)

/-- A sample inside the threshold is accepted, clamped or not. -/
theorem accepts_clamped {ld : SpllLockDet} {err : Int} (hthreshold : ld.threshold = 200) :
    ld.accepts (helperClamp err) ↔ |err| ≤ 200 := by
  have hlow := neg_abs_le err
  have hhigh := le_abs_self err
  have hneg : |(-150000 : Int)| = 150000 := by norm_num
  have hpos : |(150000 : Int)| = 150000 := by norm_num
  unfold SpllLockDet.accepts helperClamp helperErrorClamp i32
  rw [hthreshold]
  dsimp only
  split_ifs with hbelow hwrong habove
  · omega
  · rw [hneg]
    omega
  · rw [hpos]
    omega
  · have hrange : |err| ≤ 150000 := abs_le.mpr (by omega)
    omega

section HelperRuns

variable {T : Nat → Int} (hT : TagSequence T)

include hT

theorem helperFollows_first {s : SpllHelperState} {ref : Int} (h : HelperConfigured s ref)
    (hadder : s.pAdder = 0) (hfirst : s.tagD0 < 0) (hcount : s.ld.lockCnt = 0)
    (hlocked : s.ld.locked = false) :
    HelperFollows T 0 (helperUpdate s (tagOf T 0) ref).1 ref := by
  have htracks := helperTracks_first hT hadder hfirst
  have hupdate := @helperUpdate_first s (tagOf T 0) hfirst
  rw [h.refSrc] at htracks hupdate
  refine ⟨helperConfigured_update _ _ h, htracks, ?_, ?_, ?_⟩
  · rw [hupdate]
    exact hcount
  · rw [hupdate]
    exact hlocked
  · omega

/-- One more tag inside the threshold. -/
theorem helperFollows_step {n : Nat} {s : SpllHelperState} {ref : Int}
    (h : HelperFollows T n s ref) (hn : n < 10000) (herr : |idealError T n| ≤ 200) :
    HelperFollows T (n + 1) (helperUpdate s (tagOf T (n + 1)) ref).1 ref := by
  obtain ⟨htracks, hld⟩ := helperTracks_step hT h.tracks (by omega)
  rw [h.configured.refSrc] at htracks hld
  have haccepts := (accepts_clamped h.configured.threshold).mpr herr
  have hcnt := h.count
  have hsamples := h.configured.lockSamples
  obtain ⟨hcount, hfull, hpart⟩ := ldUpdate_accepted haccepts (by omega)
  rw [← hld] at hcount hfull hpart
  refine ⟨helperConfigured_update _ _ h.configured, htracks, by omega, ?_, ?_⟩
  · by_cases hlast : n + 1 = 10000
    · rw [(hfull (by omega)).1, decide_eq_true hlast]
    · rw [hpart (by omega), h.locked, decide_eq_false hlast, decide_eq_false (by omega)]
  · intro hlast
    exact (hfull (by omega)).2

end HelperRuns

/-- The helper is locked with at least `k` counts. -/
structure HelperHolds (k : Int) (s : SpllHelperState) (ref : Int) : Prop where
  configured : HelperConfigured s ref
  locked : s.ld.locked = true
  count_le : s.ld.lockCnt ≤ 10000
  le_count : k ≤ s.ld.lockCnt

theorem helperHolds_mono {k l : Int} {s : SpllHelperState} {ref : Int}
    (h : HelperHolds k s ref) (hlk : l ≤ k) : HelperHolds l s ref :=
  ⟨h.configured, h.locked, h.count_le, hlk.trans h.le_count⟩

/-- Any tag costs a locked helper at most one count. -/
theorem helperHolds_step {k : Int} {s : SpllHelperState} {ref : Int} (tag source : Int)
    (h : HelperHolds (k + 1) s ref) (hk : 101 ≤ k) :
    HelperHolds k (helperUpdate s tag source).1 ref := by
  have hconfigured := helperConfigured_update tag source h.configured
  have hle := h.count_le
  have hge := h.le_count
  rcases helperUpdate_ld_cases s tag source with hsame | ⟨err, hnext⟩
  · refine ⟨hconfigured, ?_, ?_, ?_⟩ <;> rw [hsame]
    · exact h.locked
    · exact hle
    · omega
  · have hsamples := h.configured.lockSamples
    have hdelock := h.configured.delockSamples
    obtain ⟨hlocked, hcount, hbound⟩ := ldUpdate_keeps_lock err h.locked (by omega) (by omega)
    refine ⟨hconfigured, ?_, ?_, ?_⟩ <;> rw [hnext]
    · exact hlocked
    · omega
    · omega

/-! ## A main PLL -/

/-- The settings of `mpll_init`. -/
structure MainConfigured (s : SpllMainState) (ref out : Int) : Prop where
  idRef : s.idRef = ref
  idOut : s.idOut = out
  lockSamples : s.ld.lockSamples = 1000
  delockSamples : s.ld.delockSamples = 100
  threshold : s.ld.threshold = 1200

/-- The PLL waits for an output tag with its phase shifter at rest; its tags so
far are zero on the reference and at most `v` on the output, and its lock
detector has the count `n` and the flag `l`. -/
structure MainCounts (v n : Int) (l : Bool) (s : SpllMainState) (ref out : Int) : Prop where
  configured : MainConfigured s ref out
  adders : s.adderRef = 0 ∧ s.adderOut = 0
  tagOut : s.tagOut = -1
  tagRefD : s.tagRefD ≤ 0
  tagOutD : s.tagOutD ≤ v
  shift : s.phaseShiftTarget = 0 ∧ s.phaseShiftCurrent = 0
  count : s.ld.lockCnt = n
  locked : s.ld.locked = l

theorem mainConfigured_update {s : SpllMainState} {ref out : Int} (tag source : Int)
    (h : MainConfigured s ref out) : MainConfigured (mpllUpdate s tag source).1 ref out := by
  have hld : (mpllUpdate s tag source).1.ld.SameSettings s.ld := by
    rcases mpllUpdate_ld_cases s tag source with hsame | ⟨err, hnext⟩
    · rw [hsame]
      exact ⟨rfl, rfl, rfl⟩
    · rw [hnext]
      exact ldUpdate_settings s.ld err
  have hconfig := mpllUpdate_config s tag source
  exact ⟨hconfig.1.trans h.idRef, hconfig.2.1.trans h.idOut, hld.1.trans h.lockSamples,
    hld.2.1.trans h.delockSamples, hld.2.2.trans h.threshold⟩

theorem mainCounts_restart {s : SpllMainState} {ref out : Int} (h : MainConfigured s ref out) :
    MainCounts 0 0 false (mpllRestart s) ref out where
  configured := ⟨h.idRef, h.idOut, h.lockSamples, h.delockSamples, h.threshold⟩
  adders := ⟨rfl, rfl⟩
  tagOut := rfl
  tagRefD := by simp [mpllRestart]
  tagOutD := by simp [mpllRestart]
  shift := ⟨rfl, rfl⟩
  count := rfl
  locked := rfl

theorem mainCounts_mono {v w n : Int} {l : Bool} {s : SpllMainState} {ref out : Int}
    (h : MainCounts v n l s ref out) (hvw : v ≤ w) : MainCounts w n l s ref out :=
  ⟨h.configured, h.adders, h.tagOut, h.tagRefD, h.tagOutD.trans hvw, h.shift, h.count, h.locked⟩

/-- A setpoint that the shifter has reached changes nothing. -/
theorem mainCounts_setPhaseShift {v n : Int} {l : Bool} {s : SpllMainState} {ref out : Int}
    (h : MainCounts v n l s ref out) : MainCounts v n l (mpllSetPhaseShift s 0) ref out :=
  ⟨⟨h.configured.idRef, h.configured.idOut, h.configured.lockSamples,
    h.configured.delockSamples, h.configured.threshold⟩, h.adders, h.tagOut, h.tagRefD,
    h.tagOutD, ⟨rfl, h.shift.2⟩, h.count, h.locked⟩

/-- A tag of another channel than the output completes no pair. -/
theorem mainCounts_other {v n : Int} {l : Bool} {s : SpllMainState} {ref out : Int}
    (h : MainCounts v n l s ref out) (tag : Int) {source : Int} (hsource : source ≠ out) :
    MainCounts v n l (mpllUpdate s tag source).1 ref out ∧
      (mpllUpdate s tag source).1.tagRef = if source = ref then tag else s.tagRef := by
  have hout : source ≠ s.idOut := h.configured.idOut ▸ hsource
  have hlatch : ¬ (mpllLatch s tag source).Paired := by
    rintro ⟨-, hpaired⟩
    simp only [mpllLatch, hout, if_false, h.tagOut] at hpaired
    omega
  rw [mpllUpdate_unpaired hlatch]
  refine ⟨⟨⟨h.configured.idRef, h.configured.idOut, h.configured.lockSamples,
    h.configured.delockSamples, h.configured.threshold⟩, h.adders, ?_, h.tagRefD, h.tagOutD,
    h.shift, h.count, h.locked⟩, ?_⟩
  · simp only [mpllLatch, hout, if_false, h.tagOut]
  · simp only [mpllLatch, h.configured.idRef]

/-- An output tag `v` after a reference tag zero is a sample `-v` of the lock
detector. -/
theorem mainCounts_complete {d v n : Int} {l : Bool} {s : SpllMainState} {ref out : Int}
    (h : MainCounts d n l s ref out) (hne : ref ≠ out) (hd : d ≤ v) (hv : 0 ≤ v ∧ v ≤ 4096)
    (htagRef : s.tagRef = 0) :
    MainCounts v (ldUpdate s.ld (-v)).1.lockCnt (ldUpdate s.ld (-v)).1.locked
      (mpllUpdate s v out).1 ref out := by
  obtain ⟨hadderRef, hadderOut⟩ := h.adders
  obtain ⟨htarget, hcurrent⟩ := h.shift
  have hrefD := h.tagRefD
  have houtD := h.tagOutD
  have hlatch : mpllLatch s v out = { s with tagOut := v } := by
    simp [mpllLatch, h.configured.idRef, h.configured.idOut, hne.symm]
  have hpaired : ({ s with tagOut := v } : SpllMainState).Paired := by
    refine ⟨?_, hv.1⟩
    show 0 ≤ s.tagRef
    omega
  -- neither tag is below the one before it
  have hunwrap : mpllUnwrap { s with tagOut := v } =
      { s with tagOut := v, tagRefD := 0, tagOutD := v } := by
    simp [mpllUnwrap, htagRef, Int.not_lt.mpr hrefD, show ¬ s.tagOutD > v by omega]
  have herror : mpllError { s with tagOut := v, tagRefD := 0, tagOutD := v } = -v := by
    have hexact : i32 (-v) = -v := i32_eq_self (by unfold InI32; omega)
    have hlow : signedLow (hpllN - 1) (-v) = -v := by
      unfold signedLow hpllN
      dsimp only
      split_ifs <;> omega
    simp [mpllError, hadderRef, hadderOut, htagRef, hexact, hlow]
  -- with small adders and no shift to do, the rest of the update changes nothing
  have hkeep : ∀ t : SpllMainState, t.adderRef = 0 → t.phaseShiftTarget = 0 →
      t.phaseShiftCurrent = 0 → mpllShift (mpllRebase t) = t := by
    intro t hadder htarget' hcurrent'
    simp [mpllRebase, mpllShift, hadder, htarget', hcurrent', mpllTagWraparound]
  have hupdate : (mpllUpdate s v out).1 =
      { s with
        tagRefD := 0
        tagOutD := v
        pi := (piUpdate s.pi (-v)).1
        tagOut := -1
        tagRef := -1
        ld := (ldUpdate s.ld (-v)).1 } := by
    simp only [mpllUpdate, hlatch, hpaired, if_true, mpllPairUpdate, hunwrap, herror]
    rw [hkeep] <;> assumption
  have hld := ldUpdate_settings s.ld (-v)
  rw [hupdate]
  exact ⟨⟨h.configured.idRef, h.configured.idOut, hld.1.trans h.configured.lockSamples,
    hld.2.1.trans h.configured.delockSamples, hld.2.2.trans h.configured.threshold⟩,
    ⟨hadderRef, hadderOut⟩, rfl, le_refl 0, le_refl v, ⟨htarget, hcurrent⟩, rfl, rfl⟩

/-- A pair of zero tags counts up, and the last one locks. -/
theorem mainCounts_good {n : Nat} {s : SpllMainState} {ref out : Int}
    (h : MainCounts 0 n false s ref out) (hne : ref ≠ out) (hn : n < 1000)
    (htagRef : s.tagRef = 0) :
    MainCounts 0 (n + 1 : Nat) (decide (n + 1 = 1000)) (mpllUpdate s 0 out).1 ref out := by
  have hnext := mainCounts_complete h hne (le_refl 0) (by omega) htagRef
  have haccepts : s.ld.accepts (-0) := by
    unfold SpllLockDet.accepts
    rw [h.configured.threshold]
    decide
  have hcnt := h.count
  have hsamples := h.configured.lockSamples
  obtain ⟨hcount, hfull, hpart⟩ := ldUpdate_accepted haccepts (by omega)
  have hlocked : (ldUpdate s.ld (-0)).1.locked = decide (n + 1 = 1000) := by
    by_cases hlast : n + 1 = 1000
    · rw [(hfull (by omega)).1, decide_eq_true hlast]
    · rw [hpart (by omega), h.locked, decide_eq_false hlast]
  rw [hlocked, hcount, hcnt] at hnext
  exact_mod_cast hnext

/-- A pair that is out of the threshold counts down, and the lock is lost at
`delockSamples`. -/
theorem mainCounts_bad {d : Int} {k : Nat} {s : SpllMainState} {ref out : Int}
    (h : MainCounts d (1000 - k) true s ref out) (hne : ref ≠ out) (hd : d ≤ 4096)
    (hk : k < 900) (htagRef : s.tagRef = 0) :
    MainCounts 4096 (if k + 1 = 900 then 0 else 1000 - (k + 1 : Nat)) (decide (k + 1 ≠ 900))
      (mpllUpdate s 4096 out).1 ref out := by
  have hnext := mainCounts_complete h hne hd (by omega) htagRef
  have hrejects : ¬ s.ld.accepts (-4096) := by
    unfold SpllLockDet.accepts
    rw [h.configured.threshold]
    decide
  have hcnt := h.count
  have hdelock := h.configured.delockSamples
  obtain ⟨hlost, hkept⟩ := ldUpdate_rejected hrejects (by omega)
  by_cases hlast : k + 1 = 900
  · obtain ⟨hlocked, hcount⟩ := hlost (by omega)
    rw [hlocked, hcount] at hnext
    simpa [hlast] using hnext
  · obtain ⟨hlocked, hcount⟩ := hkept (by omega)
    rw [hlocked, h.locked, hcount, hcnt] at hnext
    simpa [hlast, sub_sub] using hnext

/-! ## Runs -/

/-- A tag on a channel, while no other hardware status is set. -/
def tagOn (channel value : Nat) : Event :=
  .tag ⟨BitVec.ofNat 24 value, BitVec.ofNat 7 channel⟩ {}

section Runs

variable {board : Board} {s : SoftpllState} {channel value : Nat}

theorem tagOn_value (hvalue : value < 2 ^ 24) : (BitVec.ofNat 24 value).toNat = value := by
  rw [BitVec.toNat_ofNat]
  exact Nat.mod_eq_of_lt hvalue

theorem tagOn_channel (hchannel : channel < 2 ^ 7) : (BitVec.ofNat 7 channel).toNat = channel := by
  rw [BitVec.toNat_ofNat]
  exact Nat.mod_eq_of_lt hchannel

variable (hchannel : channel < 2 ^ 7) (hvalue : value < 2 ^ 24)
  (htakes : s.view.takesTags = true)

include hchannel hvalue htakes

theorem tagOn_waitHelper (hstate : s.view.seqState = .waitHelper)
    (hlock : s.view.helper.ld.locked = false) :
    (step board s (tagOn channel value)).view =
      { s.view with helper := (helperUpdate s.view.helper value channel).1 } := by
  rw [tagOn, view_tag board s _ _ htakes, view_waitHelper board s _ hstate hlock]
  simp [LoopView.afterLoops, hstate, SeqState.runsHelper, tagOn_value hvalue,
    tagOn_channel hchannel]

theorem tagOn_waitMain (hstate : s.view.seqState = .waitMain)
    (hlock : s.view.mpll.ld.locked = false) :
    (step board s (tagOn channel value)).view =
      { s.view with
        helper := (helperUpdate s.view.helper value channel).1
        mpll := (mpllUpdate s.view.mpll value channel).1 } := by
  rw [tagOn, view_tag board s _ _ htakes, view_waitMain board s _ hstate hlock]
  simp [LoopView.afterLoops, hstate, SeqState.runsHelper, tagOn_value hvalue,
    tagOn_channel hchannel]

theorem tagOn_ready (hstate : s.view.seqState = .ready) (hmode : s.view.mode = .slave)
    (hhelper : s.view.helper.ld.locked = true) (hmain : s.view.mpll.ld.locked = true)
    (hout : 1 < s.view.nChanOut) :
    (step board s (tagOn channel value)).view =
      { s.view with
        helper := (helperUpdate s.view.helper value channel).1
        mpll := (mpllUpdate s.view.mpll value channel).1
        aux := { s.view.aux with dmtd := (mpllUpdate s.view.aux.dmtd value channel).1 } } := by
  rw [tagOn, view_tag board s _ _ htakes, view_ready_slave board s _ hstate hmode hhelper hmain]
  simp [LoopView.afterLoops, hstate, hmode, hout, SeqState.runsHelper, auxAfterTag,
    tagOn_value hvalue, tagOn_channel hchannel]

end Runs

/-- The tags `first .. first + n - 1` of a sequence on a channel. -/
def tagRun (T : Nat → Int) (channel first n : Nat) : List Event :=
  (List.range n).flatMap fun k => [tagOn channel (tagOf T (first + k)).toNat]

/-- `n` pairs of tags on two channels. -/
def pairRun (ref out value n : Nat) : List Event :=
  (List.range n).flatMap fun _ => [tagOn ref 0, tagOn out value]

theorem mem_tagRun {T : Nat → Int} {channel first n : Nat} {e : Event}
    (h : e ∈ tagRun T channel first n) : ∃ value, e = tagOn channel value := by
  obtain ⟨k, -, he⟩ := List.mem_flatMap.mp h
  exact ⟨_, List.mem_singleton.mp he⟩

theorem mem_pairRun {ref out value n : Nat} {e : Event} (h : e ∈ pairRun ref out value n) :
    e = tagOn ref 0 ∨ e = tagOn out value := by
  obtain ⟨k, -, he⟩ := List.mem_flatMap.mp h
  simpa using he

theorem tagOf_toNat_lt (T : Nat → Int) (n : Nat) : (tagOf T n).toNat < 2 ^ 24 := by
  have hnonneg := tagOf_nonneg T n
  have hlt : tagOf T n < 2 ^ tagBits := Int.emod_lt_of_pos _ (by decide)
  simp only [tagBits] at hlt
  omega

theorem tagOf_toNat (T : Nat → Int) (n : Nat) : ((tagOf T n).toNat : Int) = tagOf T n :=
  Int.toNat_of_nonneg (tagOf_nonneg T n)

section HelperLocks

variable {T : Nat → Int} (hT : TagSequence T)
  (herr : ∀ n, n < 10000 → |idealError T n| ≤ 200) {board : Board} {s : SoftpllState}
  {v : LoopView} {ref : Nat} (hview : s.view = v) (href : ref < 2 ^ 7)
  (htakes : v.takesTags = true) (hstate : v.seqState = .waitHelper)
  (hconfigured : HelperConfigured v.helper ref) (hadder : v.helper.pAdder = 0)
  (hfirst : v.helper.tagD0 < 0) (hcount : v.helper.ld.lockCnt = 0)
  (hlocked : v.helper.ld.locked = false)

include hT herr hview href htakes hstate hconfigured hadder hfirst hcount hlocked

/-- A reference inside the threshold locks the helper with the last of the
`lockSamples` tags that follow the first one, and the sequencer waits for it.  What
the tags of the reference leave alone in that state is left alone. -/
theorem helper_locks_frame (F : SoftpllState → Prop)
    (hF : ∀ t value, t.view.takesTags = true → t.view.seqState = .waitHelper → F t →
      F (step board t (tagOn ref value))) (hs : F s) :
    ∃ h, (run (step board) s (tagRun T ref 0 10001)).view = { v with helper := h } ∧
      HelperFollows T 10000 h ref ∧ F (run (step board) s (tagRun T ref 0 10001)) := by
  subst hview
  -- the first tag is only remembered; from the second on, each one counts
  let Stage : Nat → SoftpllState → Prop := fun k t => F t ∧
    ((k = 0 ∧ t = s) ∨ ∃ n h, k = n + 1 ∧ t.view = { s.view with helper := h } ∧
      HelperFollows T n h ref)
  have hstages := run_blocks (step board) Stage
    (fun k => [tagOn ref (tagOf T (0 + k)).toNat]) 10001 ?_ (s := s) ⟨hs, Or.inl ⟨rfl, rfl⟩⟩
  · obtain ⟨hframe, ⟨hzero, -⟩ | ⟨n, h, hn, hview, hfollows⟩⟩ := hstages
    · omega
    · obtain rfl : n = 10000 := by omega
      exact ⟨h, hview, hfollows, hframe⟩
  · rintro k hk t ⟨hframe, ⟨rfl, rfl⟩ | ⟨n, h, rfl, hview, hfollows⟩⟩
    · refine ⟨hF t _ htakes hstate hframe, Or.inr ⟨0, _, rfl,
        tagOn_waitHelper href (tagOf_toNat_lt T _) htakes hstate hlocked, ?_⟩⟩
      rw [Nat.zero_add, tagOf_toNat]
      exact helperFollows_first hT hconfigured hadder hfirst hcount hlocked
    · have hunlocked : t.view.helper.ld.locked = false := by
        rw [hview]
        exact hfollows.locked.trans (decide_eq_false (by omega))
      have htakes' : t.view.takesTags = true := by
        rw [hview]
        exact htakes
      have hstate' : t.view.seqState = .waitHelper := by
        rw [hview]
        exact hstate
      have htag := @tagOn_waitHelper board _ _ _ href (tagOf_toNat_lt T (n + 1)) htakes' hstate'
        hunlocked
      refine ⟨hF t _ htakes' hstate' hframe, Or.inr ⟨n + 1, _, rfl, ?_,
        helperFollows_step hT hfollows (by omega) (herr n (by omega))⟩⟩
      rw [Nat.zero_add, run_cons, run_nil, htag, hview, tagOf_toNat]

theorem helper_locks :
    ∃ h, (run (step board) s (tagRun T ref 0 10001)).view = { v with helper := h } ∧
      HelperFollows T 10000 h ref := by
  obtain ⟨h, hlocks, hfollows, -⟩ := helper_locks_frame hT herr hview href htakes hstate
    hconfigured hadder hfirst hcount hlocked (fun _ => True) (fun _ _ _ _ _ => trivial) trivial
  exact ⟨h, hlocks, hfollows⟩

end HelperLocks

/-- A property of the helper with a budget of tags that it survives. -/
def SurvivesTags (P : Nat → SpllHelperState → Prop) : Prop :=
  ∀ k h tag source, P (k + 1) h → P k (helperUpdate h tag source).1

/-- A locked helper survives as many tags as it has counts above the limit. -/
theorem helperHolds_survives (ref : Int) :
    SurvivesTags fun k h => HelperHolds (k + 101 : Nat) h ref := by
  intro k h tag source hholds
  refine helperHolds_step tag source ?_ (by omega)
  have hcast : ((k + 1 + 101 : Nat) : Int) = ((k + 101 : Nat) : Int) + 1 := by push_cast; ring
  exact hcast ▸ hholds

/-- `lockSamples` pairs of zero tags lock the main PLL, whatever the helper does;
the sequencer waits for the last one. -/
theorem main_locks {P : Nat → SpllHelperState → Prop} (hP : SurvivesTags P) (board : Board)
    {s : SoftpllState} {v : LoopView} {ref out : Nat} (hview : s.view = v)
    (href : ref < 2 ^ 7) (hout : out < 2 ^ 7) (hne : ref ≠ out)
    (htakes : v.takesTags = true) (hstate : v.seqState = .waitMain) {k : Nat}
    (hhelper : P (k + 2000) v.helper) (hmain : MainCounts 0 0 false v.mpll ref out) :
    ∃ h m, (run (step board) s (pairRun ref out 0 1000)).view =
        { v with helper := h, mpll := m } ∧
      P k h ∧ MainCounts 0 1000 true m ref out := by
  subst hview
  have hne' : (ref : Int) ≠ out := by exact_mod_cast hne
  -- after `n` pairs the detector has counted `n`, on two tags of the budget each
  let Stage : Nat → SoftpllState → Prop := fun n t => ∃ h m,
    t.view = { s.view with helper := h, mpll := m } ∧ P (k + 2 * (1000 - n)) h ∧
      MainCounts 0 n (decide (n = 1000)) m ref out
  have hstages := run_blocks (step board) Stage
    (fun _ => [tagOn ref 0, tagOn out 0]) 1000 ?_ (s := s) ⟨_, _, rfl, hhelper, hmain⟩
  · obtain ⟨h, m, hview, hP', hcounts⟩ := hstages
    rw [decide_eq_true rfl] at hcounts
    exact ⟨h, m, hview, hP', hcounts⟩
  · rintro n hn t ⟨h, m, hview, hbudget, hcounts⟩
    rw [decide_eq_false (by omega : ¬ n = 1000)] at hcounts
    obtain ⟨hcounts', hlatched⟩ := mainCounts_other hcounts 0 hne'
    rw [if_pos rfl] at hlatched
    have hfirst : (step board t (tagOn ref 0)).view = { s.view with
        helper := (helperUpdate h 0 ref).1
        mpll := (mpllUpdate m 0 ref).1 } := by
      rw [tagOn_waitMain href (by decide) (by rw [hview]; exact htakes)
        (by rw [hview]; exact hstate) (by rw [hview]; exact hcounts.locked), hview]
      rfl
    have hsecond : (step board (step board t (tagOn ref 0)) (tagOn out 0)).view = { s.view with
        helper := (helperUpdate (helperUpdate h 0 ref).1 0 out).1
        mpll := (mpllUpdate (mpllUpdate m 0 ref).1 0 out).1 } := by
      rw [tagOn_waitMain hout (by decide) (by rw [hfirst]; exact htakes)
        (by rw [hfirst]; exact hstate) (by rw [hfirst]; exact hcounts'.locked), hfirst]
      rfl
    refine ⟨_, _, hsecond, hP _ _ _ _ (hP _ _ _ _ ?_), mainCounts_good hcounts' hne' hn hlatched⟩
    rwa [show k + 2 * (1000 - (n + 1)) + 1 + 1 = k + 2 * (1000 - n) by omega]

/-! ## Losing the helper -/

/-- After `n` tags outside the threshold, a helper that was locked has lost `n`
counts, and the lock with the last one above the limit. -/
structure HelperLoses (T : Nat → Int) (n : Nat) (s : SpllHelperState) (ref : Int) : Prop where
  configured : HelperConfigured s ref
  tracks : HelperTracks T (10000 + n) s
  count : s.ld.lockCnt = if n = 9900 then 0 else 10000 - (n : Int)
  locked : s.ld.locked = decide (n ≠ 9900)

theorem helperLoses_start {T : Nat → Int} {s : SpllHelperState} {ref : Int}
    (h : HelperFollows T 10000 s ref) : HelperLoses T 0 s ref :=
  ⟨h.configured, h.tracks, h.count.trans (by simp), h.locked.trans (by simp)⟩

theorem helperLoses_step {T : Nat → Int} (hT : TagSequence T) {n : Nat} {s : SpllHelperState}
    {ref : Int} (h : HelperLoses T n s ref) (hn : n < 9900)
    (herr : 200 < |idealError T (10000 + n)| ∧ |idealError T (10000 + n)| ≤ 1000000000) :
    HelperLoses T (n + 1) (helperUpdate s (tagOf T (10000 + (n + 1))) ref).1 ref := by
  obtain ⟨htracks, hld⟩ := helperTracks_step hT h.tracks herr.2
  rw [h.configured.refSrc, Nat.add_assoc] at htracks hld
  have hrejects : ¬ s.ld.accepts (helperClamp (idealError T (10000 + n))) := by
    rw [accepts_clamped h.configured.threshold]
    omega
  have hcnt := h.count
  have hdelock := h.configured.delockSamples
  rw [if_neg (by omega)] at hcnt
  obtain ⟨hlost, hkept⟩ := ldUpdate_rejected hrejects (by omega)
  rw [← hld] at hlost hkept
  refine ⟨helperConfigured_update _ _ h.configured, htracks, ?_, ?_⟩
  · by_cases hlast : n + 1 = 9900
    · rw [if_pos hlast]
      exact (hlost (by omega)).2
    · rw [if_neg hlast]
      have hcount := (hkept (by omega)).2
      push_cast
      omega
  · by_cases hlast : n + 1 = 9900
    · rw [decide_eq_false (by omega)]
      exact (hlost (by omega)).1
    · rw [decide_eq_true hlast, (hkept (by omega)).1, h.locked, decide_eq_true (by omega)]

/-- The helper is unlocked, at least `k` counts away from the lock. -/
structure HelperLost (k : Nat) (s : SpllHelperState) (ref : Int) : Prop where
  configured : HelperConfigured s ref
  locked : s.ld.locked = false
  count_nonneg : 0 ≤ s.ld.lockCnt
  count_le : s.ld.lockCnt + k < 10000

/-- An unlocked helper survives as many tags as it lacks counts. -/
theorem helperLost_survives (ref : Int) : SurvivesTags fun k h => HelperLost k h ref := by
  intro k h tag source hlost
  have hconfigured := helperConfigured_update tag source hlost.configured
  have hnonneg := hlost.count_nonneg
  have hle := hlost.count_le
  push_cast at hle
  rcases helperUpdate_ld_cases h tag source with hsame | ⟨err, hnext⟩
  · refine ⟨hconfigured, ?_, ?_, ?_⟩ <;> rw [hsame]
    · exact hlost.locked
    · exact hnonneg
    · omega
  · have hsamples := hlost.configured.lockSamples
    have hdelock := hlost.configured.delockSamples
    obtain ⟨hlocked, hcount, hbound⟩ :=
      ldUpdate_keeps_unlock err hlost.locked hnonneg (by omega) (by omega)
    refine ⟨hconfigured, ?_, ?_, ?_⟩ <;> rw [hnext]
    · exact hlocked
    · exact hcount
    · omega

/-- A reference outside the threshold makes the helper lose its lock while the
sequencer waits for the main PLL, which sees half a pair at most. -/
theorem helper_loses {T : Nat → Int} (hT : TagSequence T)
    (herr : ∀ n, n < 9900 →
      200 < |idealError T (10000 + n)| ∧ |idealError T (10000 + n)| ≤ 1000000000)
    (board : Board) {s : SoftpllState} {v : LoopView} {ref out : Nat} (hview : s.view = v)
    (href : ref < 2 ^ 7) (hne : ref ≠ out) (htakes : v.takesTags = true)
    (hstate : v.seqState = .waitMain) (hhelper : HelperLoses T 0 v.helper ref)
    (hmain : MainCounts 0 0 false v.mpll ref out) :
    ∃ h m, (run (step board) s (tagRun T ref 10001 9900)).view =
        { v with helper := h, mpll := m } ∧
      HelperLoses T 9900 h ref ∧ MainCounts 0 0 false m ref out := by
  subst hview
  have hne' : (ref : Int) ≠ out := by exact_mod_cast hne
  let Stage : Nat → SoftpllState → Prop := fun n t => ∃ h m,
    t.view = { s.view with helper := h, mpll := m } ∧ HelperLoses T n h ref ∧
      MainCounts 0 0 false m ref out
  refine run_blocks (step board) Stage
    (fun k => [tagOn ref (tagOf T (10001 + k)).toNat]) 9900 ?_ ⟨_, _, rfl, hhelper, hmain⟩
  rintro n hn t ⟨h, m, hview, hloses, hcounts⟩
  have htag : (step board t (tagOn ref (tagOf T (10001 + n)).toNat)).view = { s.view with
      helper := (helperUpdate h (tagOf T (10001 + n)) ref).1
      mpll := (mpllUpdate m (tagOf T (10001 + n)) ref).1 } := by
    rw [tagOn_waitMain href (tagOf_toNat_lt T _) (by rw [hview]; exact htakes)
      (by rw [hview]; exact hstate) (by rw [hview]; exact hcounts.locked), hview, tagOf_toNat]
  have hnext := helperLoses_step hT hloses hn (herr n hn)
  rw [show 10000 + (n + 1) = 10001 + n by omega] at hnext
  exact ⟨_, _, htag, hnext, (mainCounts_other hcounts _ hne').1⟩

/-! ## In ready -/

/-- A slave in `ready` whose aux channel has the PLL `a`. -/
structure ReadySlave (v : LoopView) : Prop where
  mode : v.mode = .slave
  seqState : v.seqState = .ready
  takesTags : v.takesTags = true
  nChanOut : 1 < v.nChanOut

/-- A pair of tags with both loops locked at each of them. -/
theorem ready_pair (board : Board) {s : SoftpllState} {v : LoopView} (hv : ReadySlave v)
    {ref out value k : Nat} (href : ref < 2 ^ 7) (hout : out < 2 ^ 7) (hvalue : value < 2 ^ 24)
    {h : SpllHelperState} {m a : SpllMainState}
    (hview : s.view = { v with helper := h, mpll := m, aux := { v.aux with dmtd := a } })
    (hholds : HelperHolds (k + 2 + 101 : Nat) h ref) (hfirst : m.ld.locked = true)
    (hsecond : (mpllUpdate m 0 ref).1.ld.locked = true) :
    ∃ h', (run (step board) s [tagOn ref 0, tagOn out value]).view =
        { v with
          helper := h'
          mpll := (mpllUpdate (mpllUpdate m 0 ref).1 value out).1
          aux := { v.aux with dmtd := (mpllUpdate (mpllUpdate a 0 ref).1 value out).1 } } ∧
      HelperHolds (k + 101 : Nat) h' ref := by
  have hnext := helperHolds_survives ref (k + 1) h 0 ref hholds
  have hone : (step board s (tagOn ref 0)).view =
      { v with
        helper := (helperUpdate h 0 ref).1
        mpll := (mpllUpdate m 0 ref).1
        aux := { v.aux with dmtd := (mpllUpdate a 0 ref).1 } } := by
    rw [tagOn_ready href (by decide) (by rw [hview]; exact hv.takesTags)
      (by rw [hview]; exact hv.seqState) (by rw [hview]; exact hv.mode)
      (by rw [hview]; exact hholds.locked) (by rw [hview]; exact hfirst)
      (by rw [hview]; exact hv.nChanOut), hview]
    rfl
  rw [run_cons, run_cons, run_nil]
  generalize step board s (tagOn ref 0) = t at hone ⊢
  refine ⟨(helperUpdate (helperUpdate h 0 ref).1 value out).1, ?_,
    helperHolds_survives ref k _ value out hnext⟩
  rw [tagOn_ready hout hvalue (by rw [hone]; exact hv.takesTags)
    (by rw [hone]; exact hv.seqState) (by rw [hone]; exact hv.mode)
    (by rw [hone]; exact hnext.locked) (by rw [hone]; exact hsecond)
    (by rw [hone]; exact hv.nChanOut), hone]

/-- `lockSamples` pairs of zero tags lock the PLL of the aux channel; the main PLL
sees the reference only. -/
theorem aux_locks (board : Board) {s : SoftpllState} {v : LoopView} (hv : ReadySlave v)
    {ref out auxOut k : Nat} (href : ref < 2 ^ 7) (hauxOut : auxOut < 2 ^ 7) (hne : ref ≠ out)
    (hneAux : ref ≠ auxOut) (hneOut : auxOut ≠ out) (hview : s.view = v)
    (hholds : HelperHolds (k + 2000 + 101 : Nat) v.helper ref)
    (hmain : MainCounts 0 1000 true v.mpll ref out)
    (haux : MainCounts 0 0 false v.aux.dmtd ref auxOut) :
    ∃ h m a, (run (step board) s (pairRun ref auxOut 0 1000)).view =
        { v with helper := h, mpll := m, aux := { v.aux with dmtd := a } } ∧
      HelperHolds (k + 101 : Nat) h ref ∧ MainCounts 0 1000 true m ref out ∧
      MainCounts 0 1000 true a ref auxOut := by
  subst hview
  have hne' : (ref : Int) ≠ out := by exact_mod_cast hne
  have hneAux' : (ref : Int) ≠ auxOut := by exact_mod_cast hneAux
  have hneOut' : (auxOut : Int) ≠ out := by exact_mod_cast hneOut
  -- the pairs count for the channel, and the main PLL keeps its count
  let Stage : Nat → SoftpllState → Prop := fun n t => ∃ h m a,
    t.view = { s.view with helper := h, mpll := m, aux := { s.view.aux with dmtd := a } } ∧
      HelperHolds (k + 2 * (1000 - n) + 101 : Nat) h ref ∧
      MainCounts 0 1000 true m ref out ∧ MainCounts 0 n (decide (n = 1000)) a ref auxOut
  have hstages := run_blocks (step board) Stage
    (fun _ => [tagOn ref 0, tagOn auxOut 0]) 1000 ?_ (s := s)
    ⟨_, _, _, rfl, hholds, hmain, haux⟩
  · obtain ⟨h, m, a, hview, hholds', hmain', haux'⟩ := hstages
    rw [decide_eq_true rfl] at haux'
    exact ⟨h, m, a, hview, hholds', hmain', haux'⟩
  · rintro n hn t ⟨h, m, a, hview, hholds', hmain', haux'⟩
    rw [decide_eq_false (by omega : ¬ n = 1000)] at haux'
    have hmain₁ := (mainCounts_other hmain' 0 hne').1
    have hmain₂ := (mainCounts_other hmain₁ 0 hneOut').1
    obtain ⟨haux₁, hlatched⟩ := mainCounts_other haux' 0 hneAux'
    rw [if_pos rfl] at hlatched
    rw [show k + 2 * (1000 - n) + 101 = k + 2 * (1000 - (n + 1)) + 2 + 101 by omega] at hholds'
    obtain ⟨h', hpair, hnext⟩ := ready_pair board hv href hauxOut
      (by decide : 0 < 2 ^ 24) hview hholds' hmain'.locked hmain₁.locked
    exact ⟨h', _, _, hpair, hnext, hmain₂, mainCounts_good haux₁ hneAux' hn hlatched⟩

/-- Pairs out of the threshold make the main PLL lose its lock; the PLL of the aux
channel sees the reference only. -/
theorem main_loses (board : Board) {s : SoftpllState} {v : LoopView} (hv : ReadySlave v)
    {ref out auxOut k : Nat} (href : ref < 2 ^ 7) (hout : out < 2 ^ 7) (hne : ref ≠ out)
    (hneAux : ref ≠ auxOut) (hneOut : out ≠ auxOut) (hview : s.view = v)
    (hholds : HelperHolds (k + 1800 + 101 : Nat) v.helper ref)
    (hmain : MainCounts 0 1000 true v.mpll ref out)
    (haux : MainCounts 0 1000 true v.aux.dmtd ref auxOut) :
    ∃ h m a, (run (step board) s (pairRun ref out 4096 900)).view =
        { v with helper := h, mpll := m, aux := { v.aux with dmtd := a } } ∧
      MainCounts 4096 0 false m ref out ∧ MainCounts 0 1000 true a ref auxOut := by
  subst hview
  have hne' : (ref : Int) ≠ out := by exact_mod_cast hne
  have hneAux' : (ref : Int) ≠ auxOut := by exact_mod_cast hneAux
  have hneOut' : (out : Int) ≠ auxOut := by exact_mod_cast hneOut
  -- each pair takes one count; the last one falls below the limit and clears it
  let Stage : Nat → SoftpllState → Prop := fun n t => ∃ h m a,
    t.view = { s.view with helper := h, mpll := m, aux := { s.view.aux with dmtd := a } } ∧
      HelperHolds (k + 2 * (900 - n) + 101 : Nat) h ref ∧
      MainCounts 4096 (if n = 900 then 0 else 1000 - (n : Nat)) (decide (n ≠ 900)) m ref out ∧
      MainCounts 0 1000 true a ref auxOut
  have hmain₀ : MainCounts 4096 (if 0 = 900 then 0 else 1000 - (0 : Nat)) (decide (0 ≠ 900))
      s.view.mpll ref out := by
    simpa using mainCounts_mono hmain (by decide : (0 : Int) ≤ 4096)
  have hstages := run_blocks (step board) Stage
    (fun _ => [tagOn ref 0, tagOn out 4096]) 900 ?_ (s := s)
    ⟨_, _, _, rfl, hholds, hmain₀, haux⟩
  · obtain ⟨h, m, a, hview, -, hmain', haux'⟩ := hstages
    rw [if_pos rfl, decide_eq_false (by simp)] at hmain'
    exact ⟨h, m, a, hview, hmain', haux'⟩
  · rintro n hn t ⟨h, m, a, hview, hholds', hmain', haux'⟩
    rw [if_neg (by omega), decide_eq_true (by omega)] at hmain'
    obtain ⟨hmain₁, hlatched⟩ := mainCounts_other hmain' 0 hne'
    rw [if_pos rfl] at hlatched
    have haux₁ := (mainCounts_other haux' 0 hneAux').1
    have haux₂ := (mainCounts_other haux₁ 4096 hneOut').1
    rw [show k + 2 * (900 - n) + 101 = k + 2 * (900 - (n + 1)) + 2 + 101 by omega] at hholds'
    obtain ⟨h', hpair, hnext⟩ := ready_pair board hv href hout
      (by decide : 4096 < 2 ^ 24) hview hholds' hmain'.locked hmain₁.locked
    exact ⟨h', _, _, hpair, hnext, mainCounts_bad hmain₁ hne' (le_refl _) hn hlatched, haux₂⟩

/-! ## From power-up -/

/-- A tag of a channel without a loop, which only runs the sequencer. -/
def tick (tics : Nat) : Event := .tag ⟨0, 127⟩ { tics := BitVec.ofNat 32 tics }

/-- An initialisation of a node with one reference, one main and one aux output,
and the ticks up to the start of the helper. -/
def startup (mode : SpllMode) : List Event :=
  [.init mode 0 false ⟨0x20100, false⟩, tick 0, tick 100, tick 100]

/-- The view after the startup. -/
def startView (mode : SpllMode) : LoopView :=
  (run (step Board.wrc) powerUp (startup mode)).view

/-- A reference that follows the ideal loop for the tags `0 .. 10000` and stands
still from then on. -/
def steadyTags : Nat → Int
  | 0 => 0
  | n + 1 => (min n 9999 : Nat) * 2 ^ hpllN

theorem steadyTags_sequence : TagSequence steadyTags where
  start_nonneg := le_refl 0
  start_lt := by decide
  mono i := by
    cases i with
    | zero => simp [steadyTags]
    | succ i =>
        simp only [steadyTags, hpllN]
        omega
  step_lt i := by
    cases i with
    | zero => simp [steadyTags, tagBits]
    | succ i =>
        simp only [steadyTags, hpllN, tagBits]
        omega

theorem steadyTags_error (n : Nat) :
    idealError steadyTags n = ((min n 9999 : Nat) - (n : Int)) * 2 ^ hpllN := by
  simp [idealError, steadyTags, sub_mul]

theorem steadyTags_inside {n : Nat} (hn : n < 10000) : |idealError steadyTags n| ≤ 200 := by
  rw [steadyTags_error, Nat.min_eq_left (by omega)]
  simp

theorem steadyTags_outside {n : Nat} (hn : n < 9900) :
    200 < |idealError steadyTags (10000 + n)| ∧
      |idealError steadyTags (10000 + n)| ≤ 1000000000 := by
  rw [steadyTags_error, Nat.min_eq_right (by omega), hpllN, abs_of_neg (by omega)]
  omega

/-- A started node waits for its helper, which is fresh. -/
theorem startView_helper (mode : SpllMode) (hmode : mode = .slave ∨ mode = .freeRunningMaster) :
    (startView mode).mode = mode ∧ (startView mode).takesTags = true ∧
      (startView mode).seqState = .waitHelper ∧
      HelperConfigured (startView mode).helper (if mode = .slave then 0 else 1) ∧
      (startView mode).helper.pAdder = 0 ∧ (startView mode).helper.tagD0 = -1 ∧
      (startView mode).helper.ld.lockCnt = 0 ∧
      (startView mode).helper.ld.locked = false := by
  rcases hmode with rfl | rfl
  · exact ⟨rfl, rfl, rfl, ⟨rfl, rfl, rfl, rfl⟩, rfl, rfl, rfl, rfl⟩
  · exact ⟨rfl, rfl, rfl, ⟨rfl, rfl, rfl, rfl⟩, rfl, rfl, rfl, rfl⟩

/-- The helper of a started node locks to the steady reference. -/
theorem startup_helper_locks (mode : SpllMode)
    (hmode : mode = .slave ∨ mode = .freeRunningMaster) (ref : Nat)
    (href : ref = if mode = .slave then 0 else 1) :
    ∃ h, (run (step Board.wrc) powerUp (startup mode ++ tagRun steadyTags ref 0 10001)).view =
        { startView mode with helper := h } ∧
      HelperFollows steadyTags 10000 h ref := by
  obtain ⟨-, htakes, hstate, hconfigured, hadder, hfirst, hcount, hlocked⟩ :=
    startView_helper mode hmode
  have hrange : ref < 2 ^ 7 := by
    rw [href]
    split_ifs <;> decide
  have hconfigured' : HelperConfigured (startView mode).helper ref := by
    rw [href]
    exact_mod_cast hconfigured
  rw [run_append]
  exact helper_locks steadyTags_sequence (fun n hn => steadyTags_inside hn) rfl hrange htakes
    hstate hconfigured' hadder (by omega) hcount hlocked

/-- The events of a slave up to the start of its main PLL. -/
def slaveToMain : List Event :=
  startup .slave ++ tagRun steadyTags 0 0 10001 ++ [tagOn 127 0, tagOn 127 0]

/-- The main PLL of a started slave. -/
theorem startView_main : (startView .slave).nChanOut = 2 ∧ (startView .slave).shiftPs = 0 ∧
    MainConfigured (startView .slave).mpll 0 1 :=
  ⟨rfl, rfl, ⟨rfl, rfl, rfl, rfl, rfl⟩⟩

/-- The aux channel of a started slave, whose two tags are still those of power-up. -/
theorem startView_aux : (startView .slave).aux.seqState = .disabled ∧
    MainConfigured (startView .slave).aux.dmtd 0 2 ∧
    (startView .slave).aux.dmtd.tagRef = 0 ∧ (startView .slave).aux.dmtd.tagOut = 0 :=
  ⟨rfl, ⟨rfl, rfl, rfl, rfl, rfl⟩, rfl, rfl⟩

/-- The slave waits for its main PLL with the helper just locked. -/
theorem slaveToMain_view : ∃ h m,
    (run (step Board.wrc) powerUp slaveToMain).view =
      { startView .slave with seqState := .waitMain, helper := h, mpll := m } ∧
    HelperFollows steadyTags 10000 h (0 : Nat) ∧ MainCounts 0 0 false m (0 : Nat) (1 : Nat) := by
  obtain ⟨h, hview, hfollows⟩ := startup_helper_locks .slave (Or.inl rfl) 0 rfl
  obtain ⟨hmode, htakes, hstate, -⟩ := startView_helper .slave (Or.inl rfl)
  obtain ⟨-, -, hmain⟩ := startView_main
  rw [slaveToMain, run_append, run_cons, run_cons, run_nil]
  generalize run (step Board.wrc) powerUp (startup .slave ++ tagRun steadyTags 0 0 10001) = s
    at hview ⊢
  have hlocked := hfollows.isLocked
  have hidle := hfollows.configured.idle (by decide : (127 : Int) ≠ _) 0
  have hstart : (step Board.wrc s (tagOn 127 0)).view =
      { startView .slave with seqState := .startMain, helper := h } := by
    rw [tagOn, view_tag _ _ _ _ (by rw [hview]; exact htakes),
      view_helperLocked_slave _ s _ (by rw [hview]; exact hstate) (by rw [hview]; exact hmode)
        (by rw [hview]; exact hlocked) (by rw [hview]; exact hfollows.changed rfl), hview]
    simp [LoopView.afterLoops, SeqState.runsHelper, hidle]
  have hwait : (step Board.wrc (step Board.wrc s (tagOn 127 0)) (tagOn 127 0)).view =
      { startView .slave with
        seqState := .waitMain
        helper := h
        mpll := (mpllUpdate (mpllRestart (startView .slave).mpll) 0 127).1 } := by
    generalize step Board.wrc s (tagOn 127 0) = t at hstart ⊢
    rw [tagOn, view_tag _ _ _ _ (by rw [hstart]; exact htakes),
      view_startMain _ t _ (by rw [hstart]), hstart]
    simp [LoopView.afterLoops, SeqState.runsHelper, hidle]
  exact ⟨h, _, hwait, hfollows,
    (mainCounts_other (mainCounts_restart hmain) 0 (by decide)).1⟩

/-- The events of a slave up to the lock of its main PLL. -/
def slaveToLock : List Event := slaveToMain ++ pairRun 0 1 0 1000

/-- The slave has locked, and its aux channel is as the initialisation left it. -/
theorem slaveToLock_view : ∃ h m,
    (run (step Board.wrc) powerUp slaveToLock).view =
      { startView .slave with seqState := .waitMain, helper := h, mpll := m } ∧
    HelperHolds (7899 + 101 : Nat) h (0 : Nat) ∧
    MainCounts 0 1000 true m (0 : Nat) (1 : Nat) := by
  obtain ⟨h, m, hview, hfollows, hcounts⟩ := slaveToMain_view
  obtain ⟨-, htakes, -⟩ := startView_helper .slave (Or.inl rfl)
  rw [slaveToLock, run_append]
  have hholds : HelperHolds (7899 + 2000 + 101 : Nat) h (0 : Nat) := by
    refine ⟨hfollows.configured, hfollows.isLocked, ?_, ?_⟩ <;>
      simp [hfollows.count]
  obtain ⟨h', m', hview', hholds', hcounts'⟩ :=
    main_locks (helperHolds_survives (0 : Nat)) Board.wrc (k := 7899) hview
      (by decide) (by decide) (by decide) htakes rfl hholds hcounts
  exact ⟨h', m', hview', hholds', hcounts'⟩

/-- After its initialisation, a slave locks on tags alone. -/
theorem mem_slaveToLock {e : Event} (h : e ∈ slaveToLock.tail) : ∃ tag hw, e = .tag tag hw := by
  have htail : e ∈ ([tick 0, tick 100, tick 100] ++ tagRun steadyTags 0 0 10001 ++
      [tagOn 127 0, tagOn 127 0]) ++ pairRun 0 1 0 1000 := h
  simp only [List.mem_append, List.mem_cons, List.not_mem_nil, or_false, or_self] at htail
  rcases htail with (((rfl | rfl) | h) | rfl) | h
  · exact ⟨_, _, rfl⟩
  · exact ⟨_, _, rfl⟩
  · obtain ⟨value, rfl⟩ := mem_tagRun h
    exact ⟨_, _, rfl⟩
  · exact ⟨_, _, rfl⟩
  · rcases mem_pairRun h with rfl | rfl <;> exact ⟨_, _, rfl⟩

theorem mem_slaveToLock_all {e : Event} (h : e ∈ slaveToLock) :
    (∃ mode slaveRef alignPps hw, e = .init mode slaveRef alignPps hw) ∨
      ∃ tag hw, e = .tag tag hw := by
  have hcons : e ∈ .init .slave 0 false ⟨0x20100, false⟩ :: slaveToLock.tail := h
  rcases List.mem_cons.mp hcons with rfl | htail
  · exact Or.inl ⟨_, _, _, _, rfl⟩
  · exact Or.inr (mem_slaveToLock htail)

/-- The events of a slave up to `ready`. -/
def slaveToReady : List Event := slaveToLock ++ [tagOn 127 0]

/-- The tick into `ready` is the first tag that the PLL of the aux channel sees. -/
theorem slaveToReady_view : ∃ h m,
    (run (step Board.wrc) powerUp slaveToReady).view =
      { startView .slave with
        seqState := .ready
        helper := h
        mpll := m
        aux := { (startView .slave).aux with
          dmtd := (mpllUpdate (startView .slave).aux.dmtd 0 127).1 } } ∧
    HelperHolds (5899 + 2000 + 101 : Nat) h (0 : Nat) ∧
    MainCounts 0 1000 true m (0 : Nat) (1 : Nat) := by
  obtain ⟨h, m, hview, hholds, hcounts⟩ := slaveToLock_view
  obtain ⟨hmode, htakes, -⟩ := startView_helper .slave (Or.inl rfl)
  obtain ⟨hout, -, -⟩ := startView_main
  rw [slaveToReady, run_append, run_cons, run_nil]
  generalize run (step Board.wrc) powerUp slaveToLock = s at hview ⊢
  have hidle := hholds.configured.idle (by decide : (127 : Int) ≠ _) 0
  have hready : (step Board.wrc s (tagOn 127 0)).view =
      { startView .slave with
        seqState := .ready
        helper := h
        mpll := (mpllUpdate m 0 127).1
        aux := { (startView .slave).aux with
          dmtd := (mpllUpdate (startView .slave).aux.dmtd 0 127).1 } } := by
    rw [tagOn, view_tag _ _ _ _ (by rw [hview]; exact htakes),
      view_mainLocked _ s _ (by rw [hview]) (by rw [hview]; exact hcounts.locked), hview]
    simp [LoopView.afterLoops, SeqState.runsHelper, hidle, hmode, hout, auxAfterTag]
  exact ⟨h, _, hready, helperHolds_mono hholds (by norm_num),
    (mainCounts_other hcounts 0 (by decide)).1⟩

/-- All aux channels are enabled in hardware. -/
def allEnabled : AuxEnable := ⟨fun _ => true, fun _ => true⟩

/-- The events of a slave up to the alignment of its aux channel. -/
def slaveToAlign : List Event :=
  slaveToReady ++ [.updateAuxClocks allEnabled] ++ pairRun 0 2 0 1000 ++
    [.updateAuxClocks allEnabled]

/-- After the lock, tags and polls bring the aux channel to its alignment. -/
theorem mem_slaveToAlign {e : Event} (h : e ∈ slaveToAlign.tail) :
    (∃ tag hw, e = .tag tag hw) ∨ e = .updateAuxClocks allEnabled := by
  have htail : e ∈ slaveToLock.tail ++ [tagOn 127 0] ++ [.updateAuxClocks allEnabled] ++
      pairRun 0 2 0 1000 ++ [.updateAuxClocks allEnabled] := h
  simp only [List.mem_append, List.mem_cons, List.not_mem_nil, or_false] at htail
  rcases htail with (((h | rfl) | rfl) | h) | rfl
  · exact Or.inl (mem_slaveToLock h)
  · exact Or.inl ⟨_, _, rfl⟩
  · exact Or.inr rfl
  · rcases mem_pairRun h with rfl | rfl <;> exact Or.inl ⟨_, _, rfl⟩
  · exact Or.inr rfl

/-- The channel is aligning, to a setpoint that it has already reached. -/
theorem slaveToAlign_view : ∃ h m a,
    (run (step Board.wrc) powerUp slaveToAlign).view =
      { startView .slave with
        seqState := .ready, helper := h, mpll := m, aux := ⟨.alignPhase, a⟩ } ∧
    HelperHolds (2199 + 1800 + 101 : Nat) h (0 : Nat) ∧
    MainCounts 0 1000 true m (0 : Nat) (1 : Nat) ∧
    MainCounts 0 1000 true a (0 : Nat) (2 : Nat) := by
  obtain ⟨h, m, hview, hholds, hcounts⟩ := slaveToReady_view
  obtain ⟨hmode, htakes, -⟩ := startView_helper .slave (Or.inl rfl)
  obtain ⟨hout, hshift, -⟩ := startView_main
  obtain ⟨hdisabled, hconfigured, -⟩ := startView_aux
  rw [slaveToAlign, run_append, run_append, run_append]
  generalize run (step Board.wrc) powerUp slaveToReady = s at hview ⊢
  have hstart : (step Board.wrc s (.updateAuxClocks allEnabled)).view =
      { startView .slave with
        seqState := .ready
        helper := h
        mpll := m
        aux := ⟨.lockPll, mpllRestart (mpllUpdate (startView .slave).aux.dmtd 0 127).1⟩ } := by
    rw [view_poll_start _ s _ (by rw [hview]; exact hout ▸ (by decide)) (by rw [hview])
      (by rw [hview]; exact hcounts.locked) (by rw [hview]; exact hdisabled) rfl, hview]
  rw [run_cons, run_nil, run_cons, run_nil]
  generalize step Board.wrc s (.updateAuxClocks allEnabled) = t at hstart ⊢
  -- the node is still ready, and the PLL of the channel starts from zero
  have hready : ReadySlave t.view := by
    rw [hstart]
    exact ⟨hmode, rfl, htakes, hout ▸ (by decide)⟩
  have hholds' : HelperHolds (3999 + 2000 + 101 : Nat) t.view.helper (0 : Nat) := by
    rw [hstart]
    exact helperHolds_mono hholds (by norm_num)
  have hmain : MainCounts 0 1000 true t.view.mpll (0 : Nat) (1 : Nat) := by
    rw [hstart]
    exact hcounts
  have haux : MainCounts 0 0 false t.view.aux.dmtd (0 : Nat) (2 : Nat) := by
    rw [hstart]
    exact mainCounts_restart (mainConfigured_update 0 127 hconfigured)
  obtain ⟨h', m', a, hlock, hholds'', hmain', haux'⟩ :=
    aux_locks Board.wrc hready (by decide) (by decide) (by decide) (by decide)
      (by decide) rfl hholds' hmain haux
  rw [hstart] at hlock
  generalize run (step Board.wrc) t (pairRun 0 2 0 1000) = u at hlock ⊢
  -- the poll that sees it locked sets the phase, to what it is already
  have halign : (step Board.wrc u (.updateAuxClocks allEnabled)).view =
      { startView .slave with
        seqState := .ready
        helper := h'
        mpll := m'
        aux := ⟨.alignPhase, mpllSetPhaseShift a 0⟩ } := by
    rw [view_poll_align _ u _ (by rw [hlock]; exact hout ▸ (by decide)) (by rw [hlock])
      (by rw [hlock]; exact haux'.locked) rfl, hlock, hshift]
    rfl
  exact ⟨h', m', _, halign, helperHolds_mono hholds'' (by norm_num), hmain',
    mainCounts_setPhaseShift haux'⟩

end Softpll
end WrpcSw
