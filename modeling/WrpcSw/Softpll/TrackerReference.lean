import WrpcSw.Softpll.Ready
import WrpcSw.Softpll.TrackerSteps

/-!
# The reference behind the phase trackers

The trackers share the tag they measure against.  Before the first tag of the reference
it is -1, and starting a tracker leaves it as it was.  Nothing tests it: a tracker whose own
channel comes first measures against whatever is there.

A run is watched with a record for each tracker, begun anew with every start: the tags of
the reference, and for each sample the latest of them.

* `referenced_step` — the record of a tracker follows the shared tag.
* `ptrackers_measure_reference` — the samples have a reference if and only if one of its
  tags comes first in every session.
-/

namespace WrpcSw
namespace Softpll

open CInt Run

/-- What a tracker has got since it was started: the tags of the reference, the latest one
first, and for each of its samples the latest tag before it. -/
structure TrackerSession where
  refs : List Int := []
  samples : List (Option Int) := []

/-- A run, with the record of every tracker. -/
structure TrackerRun where
  pll : SoftpllState
  session : Nat → TrackerSession

def TrackerRun.powerUp : TrackerRun where
  pll := Softpll.powerUp
  session := fun _ => {}

/-- The tag is a sample of an enabled tracker. -/
def SoftpllState.Samples (board : Board) (s : SoftpllState) (hw : HwStatus) (tag : Tag)
    (c : Nat) : Prop :=
  s.Handles board hw ∧ tag.chanId.toNat = c ∧ c < s.nChanRef ∧ (s.restarted c).enabled = true

instance SoftpllState.decidableSamples (board : Board) (s : SoftpllState) (hw : HwStatus)
    (tag : Tag) (c : Nat) : Decidable (s.Samples board hw tag c) :=
  inferInstanceAs (Decidable (_ ∧ _))

/-- The record of a tracker once the sequencer has run. -/
def TrackerRun.started (x : TrackerRun) (c : Nat) : TrackerSession :=
  if x.pll.Restarts c then {} else x.session c

/-- The record of a tracker after an event. -/
def TrackerRun.sessionNext (board : Board) (x : TrackerRun) (c : Nat) : Event → TrackerSession
  | .tag tag hw =>
      if ¬ x.pll.takesTags then x.session c
      else if x.pll.Handles board hw ∧ tag.chanId.toNat = x.pll.nChanRef then
        { x.started c with refs := (tag.value.toNat : Int) :: (x.started c).refs }
      else if x.pll.Samples board hw tag c then
        { x.started c with samples := (x.started c).refs.head? :: (x.started c).samples }
      else x.started c
  | .enablePtracker refChannel true => if c = refChannel then {} else x.session c
  | .init _ _ _ _ | .enablePtracker _ false | .shutdown | .startChannel _ | .stopChannel _
  | .setPhaseShift _ _ | .updateAuxClocks _ => x.session c

def TrackerRun.step (board : Board) (x : TrackerRun) (e : Event) : TrackerRun where
  pll := Softpll.step board x.pll e
  session c := x.sessionNext board c e

/-! ## One step -/

section Step

variable {board : Board} {s : SoftpllState}

/-- A sample is measured against the shared tag. -/
theorem step_samples {tag : Tag} {hw : HwStatus} {c : Nat} (h : s.Samples board hw tag c) :
    (step board s (.tag tag hw)).ptrackers c =
      ptrackerSample (s.restarted c) s.ptrackerTagRef tag.value.toNat := by
  obtain ⟨hhandles, rfl, hlt, henabled⟩ := h
  rw [step_ptrackers]
  simp only [trackersNext]
  rw [if_pos hhandles.1, if_pos hhandles, trackersHandle, if_neg (by omega), ptrackersUpdate,
    if_neg (by omega), if_pos henabled]
  exact Function.update_self ..

/-- Only a tag of the reference that is handled changes the shared tag. -/
theorem step_tagRef (e : Event) : (step board s e).ptrackerTagRef =
    match e with
    | .tag tag hw =>
        if s.Handles board hw ∧ tag.chanId.toNat = s.nChanRef then tag.value.toNat
        else s.ptrackerTagRef
    | _ => s.ptrackerTagRef := by
  rw [step_ptrackerTagRef]
  cases e with
  | tag tag hw =>
      simp only [trackersNext, trackersHandle, ptrackersUpdate]
      by_cases hhandles : s.Handles board hw
      · simp only [hhandles.1, hhandles, if_true, true_and]
        split_ifs with hbeyond href
        · omega
        · rfl
        · rfl
        · rfl
        · rfl
      · simp only [hhandles, if_false, false_and]
        split_ifs <;> rfl
  | init mode slaveRefChannel alignPps hw =>
      simp only [trackersNext]
      split_ifs <;> rfl
  | enablePtracker refChannel enable => cases enable <;> rfl
  | shutdown | startChannel _ | stopChannel _ | setPhaseShift _ _ | updateAuxClocks _ => rfl

end Step

/-! ## The records -/

/-- The latest tag of a record is the shared one, and every sample had one. -/
structure TrackerSession.Follows (tagRef : Int) (t : TrackerSession) : Prop where
  latest : ∀ ref ∈ t.refs.head?, ref = tagRef
  samples : ∀ ref ∈ t.samples, ref.isSome = true

theorem TrackerSession.follows_empty (tagRef : Int) : TrackerSession.Follows tagRef {} :=
  ⟨by simp, by simp⟩

/-- All records follow the shared tag. -/
def TrackerRun.Referenced (x : TrackerRun) : Prop :=
  ∀ c, (x.session c).Follows x.pll.ptrackerTagRef

/-- In the session of its tracker, a tag of the reference comes before the sample. -/
def ReferenceFirst (board : Board) (x : TrackerRun) (e : Event) : Prop :=
  ∀ (c : Nat) (tag : Tag) (hw : HwStatus), e = .tag tag hw → x.pll.Samples board hw tag c →
    (x.started c).refs ≠ []

/-- Every sample is measured against a tag of the reference that its tracker has got since
it was started, and behind a published average there are such samples only. -/
structure MeasuresReference (board : Board) (x : TrackerRun) (e : Event) : Prop where
  sample : ∀ (c : Nat) (tag : Tag) (hw : HwStatus), e = .tag tag hw →
    x.pll.Samples board hw tag c → ∃ ref ∈ (x.started c).refs.head?,
      (step board x.pll e).ptrackers c =
        ptrackerSample (x.pll.restarted c) ref tag.value.toNat
  average : ∀ c, ((step board x.pll e).ptrackers c).ready = true →
    ∀ ref ∈ ((x.step board e).session c).samples, ref.isSome = true

section Records

variable {board : Board} {x : TrackerRun}

theorem started_follows (h : x.Referenced) (c : Nat) :
    (x.started c).Follows x.pll.ptrackerTagRef := by
  unfold TrackerRun.started
  split_ifs
  · exact TrackerSession.follows_empty _
  · exact h c

/-- The records follow the shared tag as long as the reference comes first. -/
theorem referenced_step (e : Event) (h : x.Referenced) (hfirst : ReferenceFirst board x e) :
    (x.step board e).Referenced := by
  intro c
  have hstarted := started_follows h c
  show (x.sessionNext board c e).Follows (step board x.pll e).ptrackerTagRef
  rw [step_tagRef]
  cases e with
  | tag tag hw =>
      simp only [TrackerRun.sessionNext]
      by_cases htakes : x.pll.takesTags = true
      · rw [if_neg (not_not_intro htakes)]
        by_cases href : x.pll.Handles board hw ∧ tag.chanId.toNat = x.pll.nChanRef
        · rw [if_pos href, if_pos href]
          refine ⟨fun ref hhead => ?_, hstarted.samples⟩
          exact (Option.some_inj.mp hhead).symm
        · rw [if_neg href, if_neg href]
          by_cases hsample : x.pll.Samples board hw tag c
          · rw [if_pos hsample]
            refine ⟨hstarted.latest, fun ref hmem => ?_⟩
            rcases List.mem_cons.mp hmem with rfl | hbefore
            · rw [List.isSome_head?]
              exact hfirst c tag hw rfl hsample
            · exact hstarted.samples ref hbefore
          · rw [if_neg hsample]
            exact hstarted
      · have hnot : ¬ (x.pll.Handles board hw ∧ tag.chanId.toNat = x.pll.nChanRef) :=
          fun href => htakes href.1.1
        rw [if_pos htakes, if_neg hnot]
        exact h c
  | enablePtracker refChannel enable =>
      cases enable with
      | false => exact h c
      | true =>
          simp only [TrackerRun.sessionNext]
          split_ifs
          · exact TrackerSession.follows_empty _
          · exact h c
  | init _ _ _ _ | shutdown | startChannel _ | stopChannel _ | setPhaseShift _ _
  | updateAuxClocks _ => exact h c

/-- At one step, a reference that comes first is what the samples need. -/
theorem measuresReference_iff (x : TrackerRun) (e : Event) (h : x.Referenced) :
    MeasuresReference board x e ↔ ReferenceFirst board x e := by
  constructor
  · intro hmeasures c tag hw he hsample hempty
    obtain ⟨ref, hhead, -⟩ := hmeasures.sample c tag hw he hsample
    rw [hempty] at hhead
    exact absurd hhead (by simp)
  · intro hfirst
    refine ⟨?_, fun c _ => (referenced_step e h hfirst c).samples⟩
    rintro c tag hw rfl hsample
    have hrefs := hfirst c tag hw rfl hsample
    have hlatest := (started_follows h c).latest
    cases hcases : (x.started c).refs with
    | nil => exact absurd hcases hrefs
    | cons ref older =>
        rw [hcases] at hlatest
        refine ⟨ref, rfl, ?_⟩
        rw [hlatest ref rfl]
        exact step_samples hsample

end Records

/-- In every run from power-up: the trackers measure against tags that the reference has sent
in their session, if and only if in every session such a tag comes before the first sample. -/
theorem ptrackers_measure_reference (board : Board) (es : List Event) :
    Along (TrackerRun.step board) (MeasuresReference board) TrackerRun.powerUp es ↔
      Along (TrackerRun.step board) (ReferenceFirst board) TrackerRun.powerUp es :=
  along_iff_of_invariant TrackerRun.Referenced (fun _ e h hfirst => referenced_step e h hfirst)
    measuresReference_iff (fun _ => TrackerSession.follows_empty _) es

/-! ## A tracker that comes first -/

theorem trackerRun_pll (board : Board) (es : List Event) :
    (run (TrackerRun.step board) TrackerRun.powerUp es).pll = run (step board) powerUp es :=
  run_watched TrackerRun.pll (fun _ _ => rfl) TrackerRun.powerUp es

/-- Tags do not change the number of reference channels. -/
theorem run_tags_nChanRef (board : Board) (s : SoftpllState) {es : List Event}
    (hes : ∀ e ∈ es, ∃ tag hw, e = .tag tag hw) :
    (run (step board) s es).nChanRef = s.nChanRef := by
  refine run_invariant_on (fun (t : SoftpllState) => t.nChanRef = s.nChanRef)
    (fun e => ∃ tag hw, e = .tag tag hw) ?_ rfl es hes
  rintro t e ht ⟨tag, hw, rfl⟩
  exact (step_tag_session board t tag hw).nChanRef.trans ht

theorem masterToReady_nChanRef :
    (run (step Board.wrc) powerUp masterToReady).nChanRef = 1 := by
  rw [masterToReady, List.append_assoc, run_append]
  refine run_tags_nChanRef Board.wrc _ fun e he => ?_
  rcases List.mem_append.mp he with hrun | hlast
  · obtain ⟨value, rfl⟩ := mem_tagRun hrun
    exact ⟨_, _, rfl⟩
  · rw [List.mem_singleton.mp hlast]
    exact ⟨_, _, rfl⟩

section Enabled

variable {board : Board} {s : SoftpllState} {h : SpllHelperState}

/-- A free-running master with its helper locked stays in `ready`. -/
theorem handles_ready (hw : HwStatus) (hstate : s.seqState = .ready)
    (hmode : s.mode = .freeRunningMaster) (hlocked : s.helper.ld.locked = true)
    (htakes : s.takesTags = true) : s.Handles board hw := by
  refine ⟨htakes, ?_⟩
  rw [sequencingFsm_ready board hw { s with log := [] } hstate]
  simp [hmode, hlocked, hstate]

/-- A tracker that has just been enabled still is when the sequencer has run. -/
theorem restarted_enabled (c : Nat) :
    ((step board s (.enablePtracker c true)).restarted c).enabled = true := by
  unfold SoftpllState.restarted
  split_ifs
  · rfl
  · simp [step, spllEnablePtracker, ptrackerStart]

/-- So its first tag is a sample there. -/
theorem samples_enabled (hw : HwStatus)
    (hview : s.view = { startView .freeRunningMaster with seqState := .ready, helper := h })
    (hlocked : h.ld.locked = true) (href : s.nChanRef = 1) :
    (step board s (.enablePtracker 0 true)).Samples board hw ⟨0, 0⟩ 0 := by
  obtain ⟨hmode, htakes, -⟩ := startView_helper .freeRunningMaster (Or.inr rfl)
  have hframe := step_channelCall board s (.enablePtracker 0 true) rfl
  have hhelper : s.helper = h := congrArg LoopView.helper hview
  refine ⟨handles_ready hw ?_ ?_ ?_ ?_, rfl, ?_, restarted_enabled 0⟩
  · exact hframe.seqState.trans (congrArg LoopView.seqState hview)
  · exact hframe.mode.trans ((congrArg LoopView.mode hview).trans hmode)
  · rw [hframe.helper, hhelper, hlocked]
  · rw [SoftpllState.takesTags, hframe.irqEnabled, hframe.eicTag]
    exact (congrArg LoopView.takesTags hview).trans htakes
  · rw [hframe.nChanRef, href]
    exact Nat.one_pos

end Enabled

/-- The start of a tracker begins its record anew. -/
theorem session_enabled (board : Board) (x : TrackerRun) (c : Nat) :
    (x.step board (.enablePtracker c true)).session c = {} := by
  simp [TrackerRun.step, TrackerRun.sessionNext]

/-- A sample without a tag of the reference. -/
theorem not_measuresReference {board : Board} {x : TrackerRun} {tag : Tag} {hw : HwStatus}
    {c : Nat} (hsample : x.pll.Samples board hw tag c) (hsession : x.session c = {}) :
    ¬ MeasuresReference board x (.tag tag hw) := by
  intro hmeasures
  obtain ⟨ref, hhead, -⟩ := hmeasures.sample c tag hw rfl hsample
  unfold TrackerRun.started at hhead
  rw [hsession, ite_self] at hhead
  exact absurd hhead (by simp)

/-- A free-running master in `ready`, whose first tag after the start of a tracker is the
tracker's own. -/
theorem tracker_before_reference :
    ¬ ∀ (board : Board) (es : List Event),
      Along (TrackerRun.step board) (MeasuresReference board) TrackerRun.powerUp es := by
  intro h
  obtain ⟨helper, hview, hlocked⟩ := masterToReady_locked
  have href := masterToReady_nChanRef
  have halong := h Board.wrc (masterToReady ++ [.enablePtracker 0 true] ++ [.tag ⟨0, 0⟩ {}])
  have hmeasures := along_last halong
  rw [run_append, run_cons, run_nil] at hmeasures
  rw [← trackerRun_pll] at hview href
  generalize run (TrackerRun.step Board.wrc) TrackerRun.powerUp masterToReady = x
    at hview href hmeasures
  exact not_measuresReference (samples_enabled {} hview hlocked href) (session_enabled _ x 0)
    hmeasures

end Softpll
end WrpcSw
