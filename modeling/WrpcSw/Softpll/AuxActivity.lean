import WrpcSw.Softpll.Locking

/-!
# The activity of the aux channels

The state of an aux channel is compared with the calls made on its PLL.  Each
run of initialisations, tags and polls is followed by two flags per channel:
`started` is the history of the calls on its PLL, `carried` marks a state that
no initialisation has set, which is how a refused initialisation leaves it.

* `activity_iff` — after every poll a channel differs from `disabled` exactly
  when its PLL is started, and no tag drives the DAC of a disabled channel, in
  exactly the runs in which channels are started from `ready` only, no poll
  meets a carried channel that it keeps, and the PLLs of the disabled channels
  hold no pair of tags.
-/

namespace WrpcSw
namespace Softpll

open CInt Run

/-! ## The history of a channel -/

/-- The events of a run without calls that start or stop a channel by hand. -/
inductive AuxOp
  | init (mode : SpllMode) (slaveRefChannel : Int) (alignPps : Bool) (hw : InitStatus)
  | tag (word : Tag) (hw : HwStatus)
  | poll (enable : AuxEnable)

def AuxOp.event : AuxOp → Event
  | .init mode slaveRefChannel alignPps hw => .init mode slaveRefChannel alignPps hw
  | .tag word hw => .tag word hw
  | .poll enable => .updateAuxClocks enable

/-- The channel's PLL is started, after an action. -/
def noteAction (ch : Nat) (started : Bool) (a : Action) : Bool :=
  if a = .mpllStart ch then true
  else if a = .mpllStop ch ∨ a = .auxSeqState ch .disabled then false
  else started

/-- The SoftPLL with the history of its aux channels, by channel number. -/
structure Activity where
  pll : SoftpllState
  started : Nat → Bool
  carried : Nat → Bool

/-- At power-up no initialisation has set any channel. -/
def Activity.powerUp : Activity := ⟨Softpll.powerUp, fun _ => false, fun _ => true⟩

/-- One event.  An initialisation, refused or not, starts a new history; the
channels it does not disable are carried over. -/
def Activity.step (board : Board) (x : Activity) (op : AuxOp) : Activity :=
  let pll := Softpll.step board x.pll op.event
  match op with
  | .init _ _ _ _ =>
      { pll := pll
        started := fun _ => false
        carried := fun ch => decide ((pll.aux (ch - 1)).seqState ≠ .disabled) }
  | .tag _ _ | .poll _ =>
      { pll := pll
        started := fun ch => pll.log.foldl (noteAction ch) (x.started ch)
        carried := fun ch => x.carried ch && decide (.auxSeqState ch .disabled ∉ pll.log) }

/-- After every poll the state of each channel matches the activity of its PLL,
and no tag drives the DAC of a disabled channel. -/
def MatchesActivity (board : Board) (x : Activity) : AuxOp → Prop
  | .init _ _ _ _ => True
  | .tag word hw =>
      ∀ i, i < x.pll.nChanOut - 1 → (x.pll.aux i).seqState = .disabled →
        ∀ out, .dacMain out ∈ (x.step board (.tag word hw)).pll.log →
          out.dacSel ≠ BitVec.ofNat 4 (i + 1)
  | .poll enable =>
      ∀ i, i < (x.step board (.poll enable)).pll.nChanOut - 1 →
        (((x.step board (.poll enable)).pll.aux i).seqState ≠ .disabled ↔
          (x.step board (.poll enable)).started (i + 1) = true)

/-- A poll starts the channel, which it finds or makes disabled. -/
def Starts (enable : AuxEnable) (s : SoftpllState) (i : Nat) (a : SpllAuxState) : Prop :=
  (a.seqState = .disabled ∨ enable.first (i + 1) = false) ∧
    s.mpll.ld.locked = true ∧ enable.second (i + 1) = true

/-- A poll drops the channel for a lost lock. -/
def Drops (s : SoftpllState) (a : SpllAuxState) : Prop :=
  a.seqState = .ready ∧ (s.mpll.ld.locked = false ∨ a.dmtd.ld.locked = false)

/-- The condition on one channel of a poll: it is started from `ready`, and a
carried channel is not kept. -/
def ChannelKept (enable : AuxEnable) (s : SoftpllState) (i : Nat) (a : SpllAuxState)
    (carried : Bool) : Prop :=
  (Starts enable s i a → s.seqState = .ready) ∧
    (enable.first (i + 1) = true → carried = true → Drops s a)

/-- Channels are started from `ready`, a carried channel is disabled or dropped
by the first poll that sees it, and the PLL of a disabled channel holds no pair
of tags when it is updated. -/
def ActivityKept (x : Activity) : AuxOp → Prop
  | .init _ _ _ _ => True
  | .tag word _ =>
      x.pll.takesTags = true → x.pll.ServesAuxs →
        ∀ i, i < x.pll.nChanOut - 1 → (x.pll.aux i).seqState = .disabled →
          ¬ (mpllLatch (x.pll.aux i).dmtd word.value.toNat word.chanId.toNat).Paired
  | .poll enable =>
      ∀ i, i < x.pll.nChanOut - 1 →
        ChannelKept enable x.pll i (x.pll.aux i) (x.carried (i + 1))

/-! ## What one poll does to one channel -/

section OneChannel

variable (board : Board) (enable : AuxEnable) (s : SoftpllState) (i : Nat) (a : SpllAuxState)

/-- The action is on the channel. -/
def Action.onChannel (ch : Nat) : Action → Prop
  | .mpllStart c | .mpllStop c | .auxSeqState c _ | .auxStatus c _ => c = ch
  | .dacHpll _ | .dacMain _ => False

theorem Action.onChannel_unique {c d : Nat} {act : Action} (hc : act.onChannel c)
    (hd : act.onChannel d) : c = d := by
  cases act <;> simp_all [Action.onChannel]

theorem noteAction_other {ch : Nat} {act : Action} (h : ¬ act.onChannel ch) (started : Bool) :
    noteAction ch started act = started := by
  cases act <;> simp_all [Action.onChannel, noteAction]

/-- A poll of one channel acts on that channel only. -/
theorem auxNext_onChannel :
    ∀ act ∈ (auxNext board enable s i a).2, act.onChannel (i + 1) := by
  have hchecked : ∀ act ∈ (auxChecked enable i a).2, act.onChannel (i + 1) := by
    unfold auxChecked
    split_ifs <;> simp [Action.onChannel]
  have hadvanced : ∀ b, ∀ act ∈ (auxAdvanced board enable s i b).2, act.onChannel (i + 1) := by
    intro b
    unfold auxAdvanced
    cases b.seqState <;> dsimp only <;> (try split_ifs) <;> simp [Action.onChannel]
  intro act hact
  rcases List.mem_append.mp hact with hact | hact
  · exact hchecked act hact
  · exact hadvanced _ act hact

/-- A channel found disabled, with its PLL not started. -/
theorem auxAdvanced_disabled_started (hstate : a.seqState = .disabled) :
    ((auxAdvanced board enable s i a).1.seqState ≠ .disabled ↔
        s.mpll.ld.locked = true ∧ enable.second (i + 1) = true) ∧
      ((auxAdvanced board enable s i a).2.foldl (noteAction (i + 1)) false = true ↔
        (s.mpll.ld.locked = true ∧ enable.second (i + 1) = true) ∧ s.seqState = .ready) := by
  simp only [auxAdvanced, hstate]
  cases hlocked : s.mpll.ld.locked <;> cases hsecond : enable.second (i + 1) <;>
    by_cases hready : s.seqState = .ready <;> simp [noteAction, hready, hstate]

/-- An enabled channel stays where it is or goes on, unless it is dropped. -/
theorem auxAdvanced_enabled (hstate : a.seqState ≠ .disabled) (started : Bool) :
    ((auxAdvanced board enable s i a).1.seqState = .disabled ↔ Drops s a) ∧
      (.auxSeqState (i + 1) .disabled ∈ (auxAdvanced board enable s i a).2 ↔ Drops s a) ∧
      ((auxAdvanced board enable s i a).2.foldl (noteAction (i + 1)) started = true ↔
        started = true ∧ ¬ Drops s a) := by
  unfold Drops
  cases hcase : a.seqState with
  | none => simp [auxAdvanced, hcase]
  | disabled => exact absurd hcase hstate
  | lockPll =>
      cases hown : a.dmtd.ld.locked <;> simp [auxAdvanced, hcase, hown, noteAction]
  | alignPhase =>
      cases hbusy : mpllShifterBusy a.dmtd <;> simp [auxAdvanced, hcase, hbusy, noteAction]
  | ready =>
      cases hmain : s.mpll.ld.locked <;> cases hown : a.dmtd.ld.locked <;>
        simp [auxAdvanced, hcase, hmain, hown, noteAction]

/-- The history of the channel explains its state. -/
def Follows (started carried : Bool) (a : SpllAuxState) : Prop :=
  (a.seqState ≠ .disabled ↔ started = true ∨ carried = true) ∧
    ¬ (started = true ∧ carried = true)

/-- A channel that the poll finds or makes disabled goes on as a disabled channel
whose PLL is not started. -/
theorem auxNext_found (h : a.seqState = .disabled ∨ enable.first (i + 1) = false)
    {started carried : Bool} (hfollows : Follows started carried a) :
    ∃ b : SpllAuxState, b.seqState = .disabled ∧
      (auxNext board enable s i a).1 = (auxAdvanced board enable s i b).1 ∧
      (auxNext board enable s i a).2.foldl (noteAction (i + 1)) started =
        (auxAdvanced board enable s i b).2.foldl (noteAction (i + 1)) false ∧
      (carried && decide (.auxSeqState (i + 1) .disabled ∉ (auxNext board enable s i a).2)) =
        false := by
  by_cases hstate : a.seqState = .disabled
  · have hhistory : ¬ (started = true ∨ carried = true) := fun h => hfollows.1.mpr h hstate
    have hstarted : started = false := by
      rw [← Bool.not_eq_true]
      exact fun h => hhistory (Or.inl h)
    have hcarried : carried = false := by
      rw [← Bool.not_eq_true]
      exact fun h => hhistory (Or.inr h)
    refine ⟨a, hstate, ?_⟩
    simp [auxNext, auxChecked, hstate, hstarted, hcarried]
  · have hfirst : enable.first (i + 1) = false := by
      rcases h with h | h
      · exact absurd h hstate
      · exact h
    refine ⟨{ a with seqState := .disabled }, rfl, ?_⟩
    simp [auxNext, auxChecked, hstate, hfirst, noteAction]

/-- The channel's history explains its state after the poll as well. -/
def FollowsAfter (started carried : Bool) : Prop :=
  Follows ((auxNext board enable s i a).2.foldl (noteAction (i + 1)) started)
    (carried && decide (.auxSeqState (i + 1) .disabled ∉ (auxNext board enable s i a).2))
    (auxNext board enable s i a).1

/-- After the poll, the state of the channel matches the activity of its PLL. -/
def MatchesAfter (started : Bool) : Prop :=
  (auxNext board enable s i a).1.seqState ≠ .disabled ↔
    (auxNext board enable s i a).2.foldl (noteAction (i + 1)) started = true

theorem auxNext_follows_found {started carried : Bool} (hfollows : Follows started carried a)
    (hfound : a.seqState = .disabled ∨ enable.first (i + 1) = false) :
    (MatchesAfter board enable s i a started ↔ ChannelKept enable s i a carried) ∧
      (ChannelKept enable s i a carried → FollowsAfter board enable s i a started carried) := by
  obtain ⟨b, hb, hnext, hstarted, hcarried⟩ := auxNext_found board enable s i a hfound hfollows
  obtain ⟨hmoves, hstarts⟩ := auxAdvanced_disabled_started board enable s i b hb
  have hkept : ChannelKept enable s i a carried ↔
      (s.mpll.ld.locked = true ∧ enable.second (i + 1) = true → s.seqState = .ready) := by
    simp only [ChannelKept, Starts, hfound, true_and, and_iff_left_iff_imp]
    intro _ hfirst hcarried'
    rcases hfound with hstate | hfirst'
    · exact absurd hstate (hfollows.1.mpr (Or.inr hcarried'))
    · rw [hfirst] at hfirst'
      exact absurd hfirst' (by decide)
  rw [hkept, MatchesAfter, FollowsAfter, hnext, hstarted, hcarried, Follows, hmoves, hstarts]
  refine ⟨iff_self_and, fun hready => ⟨?_, ?_⟩⟩
  · rw [or_iff_left Bool.false_ne_true]
    exact iff_self_and.mpr hready
  · exact fun h => Bool.false_ne_true h.2

theorem auxNext_follows_enabled {started carried : Bool} (hfollows : Follows started carried a)
    (hstate : a.seqState ≠ .disabled) (hfirst : enable.first (i + 1) = true) :
    (MatchesAfter board enable s i a started ↔ ChannelKept enable s i a carried) ∧
      (ChannelKept enable s i a carried → FollowsAfter board enable s i a started carried) := by
  have hnext : auxNext board enable s i a = auxAdvanced board enable s i a := by
    simp [auxNext, auxChecked, hfirst]
  obtain ⟨hdisabled, hlogged, hstarted⟩ := auxAdvanced_enabled board enable s i a hstate started
  have hkept : ChannelKept enable s i a carried ↔ (carried = true → Drops s a) := by
    simp [ChannelKept, Starts, hstate, hfirst]
  have hhistory := hfollows.1.mp hstate
  have hexclusive := hfollows.2
  rw [hkept, MatchesAfter, FollowsAfter, hnext, Follows, ne_eq, hdisabled, hstarted]
  by_cases hdrops : Drops s a <;> cases started <;> cases carried <;>
    simp [hdrops, hlogged] at hhistory hexclusive ⊢

/-- One poll keeps one channel in step with its history exactly under the
condition on the channel. -/
theorem auxNext_follows {started carried : Bool} (hfollows : Follows started carried a) :
    (MatchesAfter board enable s i a started ↔ ChannelKept enable s i a carried) ∧
      (ChannelKept enable s i a carried → FollowsAfter board enable s i a started carried) := by
  by_cases hfound : a.seqState = .disabled ∨ enable.first (i + 1) = false
  · exact auxNext_follows_found board enable s i a hfollows hfound
  · rw [not_or, Bool.not_eq_false] at hfound
    exact auxNext_follows_enabled board enable s i a hfollows hfound.1 hfound.2

end OneChannel

/-! ## The words of a tag -/

/-- What an accepted initialisation sets and no tag or poll changes: the limits
of the main regulator and the DAC numbers. -/
structure DacsConfigured (s : SoftpllState) : Prop where
  yMin : s.mpll.pi.yMin = 5
  yMax : s.mpll.pi.yMax = 65530
  mainDac : s.mpll.dacIndex = 0
  auxDac : ∀ i, i < s.nChanOut - 1 → (s.aux i).dmtd.dacIndex = i + 1

/-- The midscale word of the main DAC, whatever the sequencer does. -/
theorem sequencerActions_dac {s : SoftpllState} (hconfigured : DacsConfigured s) :
    ∀ out, .dacMain out ∈ sequencerActions s → out.dacSel = 0 := by
  intro out hout
  cases hstate : s.seqState <;> simp [sequencerActions, hstate] at hout
  rw [hout, hconfigured.yMin, hconfigured.yMax]
  decide

theorem mpllWords_dac {tag : Tag} {s : SpllMainState} {out : DacMain}
    (h : .dacMain out ∈ mpllWords tag s) : out.dacSel = BitVec.ofInt 4 s.dacIndex := by
  simp only [mpllWords, List.mem_map, Option.mem_toList, Action.dacMain.injEq,
    exists_eq_right] at h
  exact (mpllUpdate_dac s _ _).2 out h

/-- A PLL writes a word for a tag exactly when the tag completes a pair. -/
theorem mpllWords_paired (tag : Tag) (s : SpllMainState) :
    (∃ out, .dacMain out ∈ mpllWords tag s) ↔
      (mpllLatch s tag.value.toNat tag.chanId.toNat).Paired := by
  rw [← (mpllUpdate_dac s tag.value.toNat tag.chanId.toNat).1]
  simp [mpllWords, Option.isSome_iff_exists]

/-- The words that one pass over the loops writes to the DAC of channel `i + 1`
are those of the channel's own PLL. -/
theorem loopWords_channel {board : Board} {hw : HwStatus} {s : SoftpllState} {tag : Tag}
    (hconfigured : DacsConfigured s) (hout : s.nChanOut ≤ 7) {i : Nat}
    (hi : i < s.nChanOut - 1) {out : DacMain} (hsel : out.dacSel = BitVec.ofNat 4 (i + 1))
    (h : .dacMain out ∈ loopWords board hw s tag) :
    s.RunsAuxs ∧ .dacMain out ∈ mpllWords tag (s.aux i).dmtd := by
  have hne : out.dacSel ≠ 0 := by
    rw [hsel]
    intro hzero
    have := congrArg BitVec.toNat hzero
    simp at this
    omega
  simp only [loopWords, List.mem_append] at h
  -- external, helper and main PLL write other DACs; the channels are last
  rcases h with ((h | h) | h) | h
  · split_ifs at h
    · simp only [List.mem_map, Option.mem_toList, Action.dacMain.injEq, exists_eq_right] at h
      exact absurd (externalUpdate_dac _ _ _ _ _ _ out h) hne
    · simp at h
  · split_ifs at h <;> simp at h
  · split_ifs at h
    · rw [mpllWords_dac h, hconfigured.mainDac] at hne
      exact absurd rfl hne
    · simp at h
  · split_ifs at h with hruns
    · obtain ⟨j, hj, hword⟩ := List.mem_flatMap.mp h
      rw [List.mem_range] at hj
      refine ⟨hruns, ?_⟩
      have hsame := mpllWords_dac hword
      rw [hconfigured.auxDac j hj, hsel] at hsame
      have hij : i = j := by
        have hval := congrArg BitVec.toNat hsame
        simp at hval
        omega
      rwa [hij]
    · simp at h

/-! ## The steps -/

theorem dacsConfigured_sequencingFsm (board : Board) (hw : HwStatus) {s : SoftpllState}
    (h : DacsConfigured s) : DacsConfigured (sequencingFsm board hw s) := by
  have hmpll : (sequencingFsm board hw s).mpll.pi.yMin = s.mpll.pi.yMin ∧
      (sequencingFsm board hw s).mpll.pi.yMax = s.mpll.pi.yMax ∧
      (sequencingFsm board hw s).mpll.dacIndex = s.mpll.dacIndex := by
    rw [sequencingFsm_mpll]
    split_ifs <;> exact ⟨rfl, rfl, rfl⟩
  refine ⟨hmpll.1.trans h.yMin, hmpll.2.1.trans h.yMax, hmpll.2.2.trans h.mainDac, ?_⟩
  rw [sequencingFsm_aux, (sequencingFsm_session board hw s).nChanOut]
  exact h.auxDac

theorem dacsConfigured_tagStep (board : Board) (hw : HwStatus) {s : SoftpllState} (tag : Tag)
    (h : DacsConfigured s) : DacsConfigured (tagStep board hw s tag) := by
  have hseq := dacsConfigured_sequencingFsm board hw h
  have hloops := updateLoops_done board hw (sequencingFsm board hw s) tag
  unfold tagStep
  generalize sequencingFsm board hw s = t at hseq hloops ⊢
  have hmpll : (updateLoops board hw t tag).mpll.pi.yMin = t.mpll.pi.yMin ∧
      (updateLoops board hw t tag).mpll.pi.yMax = t.mpll.pi.yMax ∧
      (updateLoops board hw t tag).mpll.dacIndex = t.mpll.dacIndex := by
    rw [hloops.mpll]
    split_ifs
    · obtain ⟨hmin, hmax⟩ := mpllUpdate_limits t.mpll tag.value.toNat tag.chanId.toNat
      exact ⟨hmin, hmax, mpllUpdate_dacIndex _ _ _⟩
    · exact ⟨rfl, rfl, rfl⟩
  refine ⟨hmpll.1.trans hseq.yMin, hmpll.2.1.trans hseq.yMax, hmpll.2.2.trans hseq.mainDac, ?_⟩
  rw [hloops.session.nChanOut, hloops.aux]
  intro i hi
  split_ifs
  · rw [processed_lt _ _ hi]
    exact (mpllUpdate_dacIndex _ _ _).trans (hseq.auxDac i hi)
  · exact hseq.auxDac i hi

/-- A poll keeps the DAC number of a channel. -/
theorem auxNext_dacIndex (board : Board) (enable : AuxEnable) (s : SoftpllState) (i : Nat)
    (a : SpllAuxState) :
    (auxNext board enable s i a).1.dmtd.dacIndex = a.dmtd.dacIndex := by
  have hchecked : (auxChecked enable i a).1.dmtd = a.dmtd := by
    unfold auxChecked
    split_ifs <;> rfl
  have hadvanced : ∀ b, (auxAdvanced board enable s i b).1.dmtd.dacIndex = b.dmtd.dacIndex := by
    intro b
    unfold auxAdvanced
    cases b.seqState <;> dsimp only <;> (try split_ifs) <;> rfl
  exact (hadvanced _).trans (by rw [hchecked])

/-- The history of every channel explains its state, and while tags are taken the
DACs are those of the channels. -/
structure ActivityInv (x : Activity) : Prop where
  follows : ∀ i, Follows (x.started (i + 1)) (x.carried (i + 1)) (x.pll.aux i)
  nChanOut : x.pll.nChanOut ≤ 7
  configured : x.pll.irqEnabled = true → DacsConfigured x.pll

theorem activityInv_powerUp : ActivityInv Activity.powerUp where
  follows i := by simp [Follows, Activity.powerUp, Softpll.powerUp]
  nChanOut := Nat.zero_le 7
  configured h := absurd h Bool.false_ne_true

theorem initStatus_nOut_le (hw : InitStatus) : hw.nOut ≤ 7 := by
  have := (hw.csr.extractLsb' 16 3).isLt
  unfold InitStatus.nOut
  omega

/-- An initialisation that enables the interrupt has given every PLL its DAC. -/
theorem dacsConfigured_init (board : Board) (s : SoftpllState) (mode : SpllMode)
    (slaveRefChannel : Int) (alignPps : Bool) (hw : InitStatus)
    (henabled : (spllInit board hw s mode slaveRefChannel alignPps).irqEnabled = true) :
    DacsConfigured (spllInit board hw s mode slaveRefChannel alignPps) := by
  cases hrefused : initRefused hw mode with
  | true =>
      rw [spllInit_refused board s slaveRefChannel alignPps hrefused] at henabled
      exact absurd henabled Bool.false_ne_true
  | false =>
      rw [spllInit_accepted board s slaveRefChannel alignPps hrefused]
      refine ⟨rfl, rfl, Int.sub_self _, ?_⟩
      intro i hi
      have hout : i < (spllInitRegs board hw s mode).nChanOut - 1 := hi
      simp only [spllInitLoops, hout, if_true, mpllInit]
      omega

theorem activityInv_init (board : Board) (x : Activity) (mode : SpllMode)
    (slaveRefChannel : Int) (alignPps : Bool) (hw : InitStatus) :
    ActivityInv (x.step board (.init mode slaveRefChannel alignPps hw)) := by
  refine ⟨fun i => ?_, ?_, ?_⟩
  · simp [Follows, Activity.step]
  · cases hrefused : initRefused hw mode <;>
      simp [Activity.step, AuxOp.event, step, spllInit, hrefused, spllInitLoops, spllInitRegs,
        initStatus_nOut_le]
  · exact dacsConfigured_init board _ mode slaveRefChannel alignPps hw

theorem mpllWords_onChannel {tag : Tag} {s : SpllMainState} {act : Action}
    (h : act ∈ mpllWords tag s) (ch : Nat) : ¬ act.onChannel ch := by
  simp only [mpllWords, List.mem_map] at h
  obtain ⟨out, -, rfl⟩ := h
  exact id

/-- The actions of a tag are on no aux channel. -/
theorem tagStep_onChannel (board : Board) (hw : HwStatus) (s : SoftpllState) (tag : Tag)
    (i : Nat) :
    ∀ act ∈ (tagStep board hw { s with log := [] } tag).log, ¬ act.onChannel (i + 1) := by
  intro act hact
  rw [tagStep_log, List.nil_append, List.mem_append] at hact
  rcases hact with hact | hact
  · cases hstate : s.seqState <;> simp [sequencerActions, hstate] at hact
    · rw [hact]
      exact Nat.succ_ne_zero i ∘ Eq.symm
    · rcases hact with rfl | rfl <;> exact id
  · simp only [loopWords, List.mem_append] at hact
    rcases hact with ((hact | hact) | hact) | hact <;> split_ifs at hact
    · obtain ⟨out, -, rfl⟩ := List.mem_map.mp hact
      exact id
    · simp at hact
    · obtain ⟨y, -, rfl⟩ := List.mem_map.mp hact
      exact id
    · simp at hact
    · exact mpllWords_onChannel hact _
    · simp at hact
    · obtain ⟨j, -, hword⟩ := List.mem_flatMap.mp hact
      exact mpllWords_onChannel hword _
    · simp at hact

/-- A list of actions on other channels leaves a history alone. -/
theorem foldl_noteAction_other {ch : Nat} {acts : List Action}
    (h : ∀ act ∈ acts, ¬ act.onChannel ch) (started : Bool) :
    acts.foldl (noteAction ch) started = started := by
  induction acts with
  | nil => rfl
  | cons act acts ih =>
      rw [List.foldl_cons, noteAction_other (h act (List.mem_cons_self ..)),
        ih fun b hb => h b (List.mem_cons_of_mem _ hb)]

theorem activityInv_tag (board : Board) (x : Activity) (word : Tag) (hw : HwStatus)
    (h : ActivityInv x) : ActivityInv (x.step board (.tag word hw)) := by
  have hsession := step_tag_session board x.pll word hw
  have hquiet : ∀ i, ∀ act ∈ (step board x.pll (.tag word hw)).log,
      ¬ act.onChannel (i + 1) := by
    intro i
    simp only [step]
    split_ifs
    · exact tagStep_onChannel board hw x.pll word i
    · simp
  refine ⟨fun i => ?_, hsession.nChanOut ▸ h.nChanOut, fun henabled => ?_⟩
  · have hnotLogged : .auxSeqState (i + 1) .disabled ∉ (step board x.pll (.tag word hw)).log :=
      fun hmem => hquiet i _ hmem rfl
    have hfollows := h.follows i
    rw [Follows, ← hsession.auxSeqState i] at hfollows
    simpa [Activity.step, AuxOp.event, Follows, foldl_noteAction_other (hquiet i),
      hnotLogged] using hfollows
  · have hconfigured := h.configured (hsession.irqEnabled ▸ henabled)
    simp only [Activity.step, AuxOp.event, step]
    split_ifs
    · exact dacsConfigured_tagStep board hw word ⟨hconfigured.yMin, hconfigured.yMax,
        hconfigured.mainDac, hconfigured.auxDac⟩
    · exact ⟨hconfigured.yMin, hconfigured.yMax, hconfigured.mainDac, hconfigured.auxDac⟩

theorem ofNat_ne_zero {i : Nat} (hi : i < 7) : (0 : BitVec 4) ≠ BitVec.ofNat 4 (i + 1) := by
  intro hzero
  have hval := congrArg BitVec.toNat hzero
  simp at hval
  omega

/-- A tag drives the DAC of a disabled channel exactly when it completes a pair in
the channel's PLL while the channels are served. -/
theorem matchesActivity_tag (board : Board) (x : Activity) (word : Tag) (hw : HwStatus)
    (h : ActivityInv x) :
    MatchesActivity board x (.tag word hw) ↔ ActivityKept x (.tag word hw) := by
  simp only [MatchesActivity, ActivityKept, Activity.step, AuxOp.event, step]
  cases htakes : x.pll.takesTags with
  | false =>
      have hidle : ({ x.pll with log := [] } : SoftpllState).takesTags = false := htakes
      simp [hidle]
  | true =>
      have htaken : ({ x.pll with log := [] } : SoftpllState).takesTags = true := htakes
      have henabled : x.pll.irqEnabled = true := by
        simp only [SoftpllState.takesTags, Bool.and_eq_true] at htakes
        exact htakes.1
      have hconfigured := h.configured henabled
      have hstart : DacsConfigured { x.pll with log := [] } :=
        ⟨hconfigured.yMin, hconfigured.yMax, hconfigured.mainDac, hconfigured.auxDac⟩
      have hseq := dacsConfigured_sequencingFsm board hw hstart
      have hsession := sequencingFsm_session board hw { x.pll with log := [] }
      have hnOut := h.nChanOut
      rw [if_pos htaken, tagStep_log]
      simp only [List.nil_append, List.mem_append, forall_const]
      constructor
      -- a completed pair writes the DAC of its channel
      · intro hquiet hserves i hi hdisabled hpaired
        obtain ⟨out, hout⟩ := (mpllWords_paired word _).mpr hpaired
        refine hquiet i hi hdisabled out (Or.inr ?_) ?_
        · simp only [loopWords, List.mem_append]
          right
          rw [if_pos ((runsAuxs_iff_servesAuxs board hw { x.pll with log := [] }).mpr hserves)]
          refine List.mem_flatMap.mpr ⟨i, ?_, ?_⟩
          · rw [List.mem_range, hsession.nChanOut]
            exact hi
          · rw [sequencingFsm_aux]
            exact hout
        · rw [mpllWords_dac hout, hconfigured.auxDac i hi]
          rfl
      -- a word for the DAC comes from the sequencer, with selector 0, or from a pair
      · intro hkept i hi hdisabled out hout hsel
        rcases hout with hout | hout
        · have hzero := sequencerActions_dac hstart out hout
          rw [hzero] at hsel
          exact ofNat_ne_zero (by omega) hsel
        · obtain ⟨hruns, hword⟩ := loopWords_channel hseq
            (hsession.nChanOut.symm ▸ hnOut) (hsession.nChanOut.symm ▸ hi) hsel hout
          rw [sequencingFsm_aux] at hword
          exact hkept ((runsAuxs_iff_servesAuxs board hw { x.pll with log := [] }).mp hruns) i hi
            hdisabled
            ((mpllWords_paired word _).mp ⟨out, hword⟩)

/-- A poll, channel by channel: the state of a channel and its history. -/
theorem activity_poll (board : Board) (x : Activity) (enable : AuxEnable) (i : Nat)
    (hi : i < x.pll.nChanOut - 1) :
    (x.step board (.poll enable)).pll.aux i =
        (auxNext board enable x.pll i (x.pll.aux i)).1 ∧
      (x.step board (.poll enable)).started (i + 1) =
        (auxNext board enable x.pll i (x.pll.aux i)).2.foldl (noteAction (i + 1))
          (x.started (i + 1)) ∧
      (x.step board (.poll enable)).carried (i + 1) =
        (x.carried (i + 1) && decide (.auxSeqState (i + 1) .disabled ∉
          (auxNext board enable x.pll i (x.pll.aux i)).2)) := by
  obtain ⟨regs, -, hpoll⟩ := spllUpdateAuxClocks_eq board enable { x.pll with log := [] }
  simp only [Activity.step, AuxOp.event, step, hpoll, List.nil_append]
  refine ⟨processed_lt _ _ hi, ?_, ?_⟩
  · rw [foldl_flatMap_single (noteAction (i + 1)) _ i, if_pos hi]
    · rfl
    · intro j hj act hact started
      refine noteAction_other (fun hon => hj ?_) started
      have := Action.onChannel_unique (auxNext_onChannel _ _ _ _ _ act hact) hon
      omega
  · have hblock : (.auxSeqState (i + 1) .disabled ∈ (List.range (x.pll.nChanOut - 1)).flatMap
        fun j => (auxNext board enable { x.pll with log := [] } j (x.pll.aux j)).2) ↔
        .auxSeqState (i + 1) .disabled ∈ (auxNext board enable x.pll i (x.pll.aux i)).2 := by
      rw [List.mem_flatMap]
      constructor
      · rintro ⟨j, -, hact⟩
        have := Action.onChannel_unique (auxNext_onChannel _ _ _ _ _ _ hact)
          (show Action.onChannel (i + 1) (.auxSeqState (i + 1) .disabled) from rfl)
        obtain rfl : j = i := by omega
        exact hact
      · intro hact
        exact ⟨i, List.mem_range.mpr hi, hact⟩
    rw [decide_eq_decide.mpr (not_congr hblock)]

/-- A poll leaves the entries beyond the channels alone. -/
theorem activity_poll_beyond (board : Board) (x : Activity) (enable : AuxEnable) (i : Nat)
    (hi : x.pll.nChanOut - 1 ≤ i) :
    (x.step board (.poll enable)).pll.aux i = x.pll.aux i ∧
      (x.step board (.poll enable)).started (i + 1) = x.started (i + 1) ∧
      (x.step board (.poll enable)).carried (i + 1) = x.carried (i + 1) := by
  obtain ⟨regs, -, hpoll⟩ := spllUpdateAuxClocks_eq board enable { x.pll with log := [] }
  simp only [Activity.step, AuxOp.event, step, hpoll, List.nil_append]
  have hquiet : ∀ act ∈ (List.range (x.pll.nChanOut - 1)).flatMap
      fun j => (auxNext board enable { x.pll with log := [] } j (x.pll.aux j)).2,
      ¬ act.onChannel (i + 1) := by
    intro act hact hon
    obtain ⟨j, hj, hact⟩ := List.mem_flatMap.mp hact
    have := Action.onChannel_unique (auxNext_onChannel _ _ _ _ _ _ hact) hon
    rw [List.mem_range] at hj
    omega
  have hnotLogged : Action.auxSeqState (i + 1) .disabled ∉ (List.range (x.pll.nChanOut - 1)).flatMap
      fun j => (auxNext board enable { x.pll with log := [] } j (x.pll.aux j)).2 :=
    fun hact => hquiet _ hact rfl
  refine ⟨processed_ge _ _ hi, foldl_noteAction_other hquiet _, ?_⟩
  rw [decide_eq_true hnotLogged, Bool.and_true]

/-- The poll matches the activity of every channel exactly under the condition on
the channels. -/
theorem matchesActivity_poll (board : Board) (x : Activity) (enable : AuxEnable)
    (h : ActivityInv x) :
    MatchesActivity board x (.poll enable) ↔ ActivityKept x (.poll enable) := by
  have hframe := step_channelCall board x.pll (.updateAuxClocks enable) rfl
  have hout : (x.step board (.poll enable)).pll.nChanOut = x.pll.nChanOut := hframe.nChanOut
  simp only [MatchesActivity, ActivityKept, hout]
  refine forall_congr' fun i => forall_congr' fun hi => ?_
  obtain ⟨haux, hstarted, -⟩ := activity_poll board x enable i hi
  rw [haux, hstarted]
  exact (auxNext_follows board enable x.pll i (x.pll.aux i) (h.follows i)).1

theorem activityInv_poll (board : Board) (x : Activity) (enable : AuxEnable)
    (h : ActivityInv x) (hkept : ActivityKept x (.poll enable)) :
    ActivityInv (x.step board (.poll enable)) := by
  have hframe := step_channelCall board x.pll (.updateAuxClocks enable) rfl
  have hout : (x.step board (.poll enable)).pll.nChanOut = x.pll.nChanOut := hframe.nChanOut
  obtain ⟨regs, -, hpoll⟩ := spllUpdateAuxClocks_eq board enable { x.pll with log := [] }
  have hmpll : (x.step board (.poll enable)).pll.mpll = x.pll.mpll := by
    simp only [Activity.step, AuxOp.event, step, hpoll]
  refine ⟨fun i => ?_, hout ▸ h.nChanOut, fun henabled => ?_⟩
  · by_cases hi : i < x.pll.nChanOut - 1
    · obtain ⟨haux, hstarted, hcarried⟩ := activity_poll board x enable i hi
      rw [haux, hstarted, hcarried]
      exact (auxNext_follows board enable x.pll i (x.pll.aux i) (h.follows i)).2 (hkept i hi)
    · obtain ⟨haux, hstarted, hcarried⟩ :=
        activity_poll_beyond board x enable i (Nat.not_lt.mp hi)
      rw [haux, hstarted, hcarried]
      exact h.follows i
  · have hconfigured := h.configured (hframe.irqEnabled ▸ henabled)
    refine ⟨hmpll ▸ hconfigured.yMin, hmpll ▸ hconfigured.yMax, hmpll ▸ hconfigured.mainDac, ?_⟩
    rw [hout]
    intro i hi
    rw [(activity_poll board x enable i hi).1, auxNext_dacIndex]
    exact hconfigured.auxDac i hi

/-- Over every run from power-up, the states of the aux channels match the
activity of their PLLs if and only if channels are started from `ready` only, no
poll keeps a carried channel, and no tag completes a pair in the PLL of a disabled
channel while the channels are served. -/
theorem activity_iff (board : Board) (ops : List AuxOp) :
    Along (Activity.step board) (MatchesActivity board) Activity.powerUp ops ↔
      Along (Activity.step board) ActivityKept Activity.powerUp ops := by
  refine along_iff_of_invariant ActivityInv ?_ ?_ activityInv_powerUp ops
  · rintro x (⟨mode, slaveRef, alignPps, hw⟩ | ⟨word, hw⟩ | ⟨enable⟩) h hkept
    · exact activityInv_init board x mode slaveRef alignPps hw
    · exact activityInv_tag board x word hw h
    · exact activityInv_poll board x enable h hkept
  · rintro x (⟨mode, slaveRef, alignPps, hw⟩ | ⟨word, hw⟩ | ⟨enable⟩) h
    · exact Iff.rfl
    · exact matchesActivity_tag board x word hw h
    · exact matchesActivity_poll board x enable h

/-- The events that are initialisations, tags or polls. -/
def AuxOp.ofEvent : Event → Option AuxOp
  | .init mode slaveRefChannel alignPps hw => some (.init mode slaveRefChannel alignPps hw)
  | .tag word hw => some (.tag word hw)
  | .updateAuxClocks enable => some (.poll enable)
  | _ => none

theorem AuxOp.event_ofEvent {e : Event} {op : AuxOp} (h : AuxOp.ofEvent e = some op) :
    op.event = e := by
  unfold AuxOp.ofEvent at h
  split at h <;> first | (obtain rfl := Option.some.inj h; rfl) | simp at h

theorem activity_step_pll (board : Board) (x : Activity) (op : AuxOp) :
    (x.step board op).pll = step board x.pll op.event := by
  cases op <;> rfl

/-- A run of the SoftPLL without polls, with the history of its channels. -/
theorem activity_run (board : Board) (x : Activity) (es : List Event)
    (hes : ∀ e ∈ es, (∃ mode slaveRef alignPps hw, e = .init mode slaveRef alignPps hw) ∨
      ∃ tag hw, e = .tag tag hw) (h : ActivityInv x) :
    (run (Activity.step board) x (es.filterMap AuxOp.ofEvent)).pll = run (step board) x.pll es ∧
      ActivityInv (run (Activity.step board) x (es.filterMap AuxOp.ofEvent)) := by
  induction es generalizing x with
  | nil => exact ⟨rfl, h⟩
  | cons e es ih =>
      obtain ⟨op, hop, hinv⟩ : ∃ op, AuxOp.ofEvent e = some op ∧
          ActivityInv (x.step board op) := by
        rcases hes e (List.mem_cons_self ..) with ⟨mode, slaveRef, alignPps, hw, rfl⟩ |
          ⟨tag, hw, rfl⟩
        · exact ⟨_, rfl, activityInv_init board x mode slaveRef alignPps hw⟩
        · exact ⟨_, rfl, activityInv_tag board x tag hw h⟩
      rw [List.filterMap_cons_some hop, run_cons, run_cons, ← AuxOp.event_ofEvent hop,
        ← activity_step_pll]
      exact ih _ (fun e he => hes e (List.mem_cons_of_mem _ he)) hinv

/-- A slave up to the lock of its main PLL, with the history of its channels. -/
def lockedSlave : List AuxOp := slaveToLock.filterMap AuxOp.ofEvent

/-- A tag that finds a pair in the PLL of a disabled channel drives its DAC. -/
theorem not_matchesActivity {board : Board} {x : Activity} {word : Tag} {hw : HwStatus}
    (h : ActivityInv x) (htakes : x.pll.view.takesTags = true)
    (hmode : x.pll.view.mode = .slave) (hstate : x.pll.view.seqState = .waitMain)
    (hmain : x.pll.view.mpll.ld.locked = true) (hout : 1 < x.pll.view.nChanOut)
    (hdisabled : x.pll.view.aux.seqState = .disabled)
    (hpaired : (mpllLatch x.pll.view.aux.dmtd word.value.toNat word.chanId.toNat).Paired) :
    ¬ MatchesActivity board x (.tag word hw) := by
  intro hmatches
  have hkept := (matchesActivity_tag board x word hw h).mp hmatches
  exact hkept htakes ⟨hmode, hmain, Or.inl hstate⟩ 0 (Nat.sub_pos_of_lt hout) hdisabled hpaired

/-- The tick into `ready` writes a word to the DAC of a disabled channel, whose PLL
takes the tags of power-up for a pair. -/
theorem disabled_channel_driven :
    ¬ Along (Activity.step Board.wrc) (MatchesActivity Board.wrc) Activity.powerUp
      (lockedSlave ++ [.tag ⟨0, 127⟩ {}]) := by
  intro halong
  have hlast := along_last halong
  obtain ⟨h, m, hview, -, hmain⟩ := slaveToLock_view
  obtain ⟨hmode, htakes, -⟩ := startView_helper .slave (Or.inl rfl)
  obtain ⟨hout, -, -⟩ := startView_main
  obtain ⟨hdisabled, hconfigured, htagRef, htagOut⟩ := startView_aux
  obtain ⟨hpll, hinv⟩ := activity_run Board.wrc Activity.powerUp slaveToLock
    (fun e he => mem_slaveToLock_all he) activityInv_powerUp
  rw [← lockedSlave] at hpll hinv
  generalize run (Activity.step Board.wrc) Activity.powerUp lockedSlave = x at hlast hpll hinv
  have hview' : x.pll.view = { startView .slave with
      seqState := .waitMain, helper := h, mpll := m } := by
    rw [hpll]
    exact hview
  refine not_matchesActivity hinv ?_ ?_ ?_ ?_ ?_ ?_ ?_ hlast
  · rw [hview']
    exact htakes
  · rw [hview']
    exact hmode
  · rw [hview']
  · rw [hview']
    exact hmain.locked
  · rw [hview']
    exact hout ▸ (by decide)
  · rw [hview']
    exact hdisabled
  · rw [hview']
    simp [mpllLatch, SpllMainState.Paired, hconfigured.idRef, hconfigured.idOut, htagRef, htagOut]

end Softpll
end WrpcSw
