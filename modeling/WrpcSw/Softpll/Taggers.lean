import WrpcSw.Softpll.Steps

/-!
# The tags of a slave stay enabled

The tag enables of the reference channels (`RCER`) and of the outputs (`OCER`)
are set and cleared for the loops, the phase trackers and the aux channels
alike, and nobody counts the users of a bit.  What keeps the loops alive is the
channel numbers: no call of a slave clears the bit of its reference or that of
its main output.

* `KeepsBits` — a change of the registers that leaves the two bits set.
* `taggersInv_step` — the configuration of the channels survives every call, and
  so do the two bits.
* `taggers_enabled` — while the helper or the main PLL needs tags, both channels
  generate them.
-/

namespace WrpcSw
namespace Softpll

open CInt Run

/-! ## Bits of the tag enable registers -/

/-- Bit `c` of a register is set, if the register has that bit. -/
def BitSet (reg : BitVec 32) (c : Nat) : Prop := c < 32 → reg.getLsbD c = true

/-- Setting bits of a register. -/
theorem bitSet_enable {reg : BitVec 32} {c : Nat} (mask : BitVec 32) (h : BitSet reg c) :
    BitSet (assignBits reg mask true) c := by
  intro hc
  show (reg ||| mask).getLsbD c = true
  rw [BitVec.getLsbD_or, h hc, Bool.true_or]

theorem bitSet_enable_self (reg : BitVec 32) (c : Nat) :
    BitSet (assignBits reg (1#32 <<< c) true) c := by
  intro hc
  show (reg ||| 1#32 <<< c).getLsbD c = true
  simp [hc]

/-- Clearing another bit. -/
theorem bitSet_disable {reg : BitVec 32} {c d : Nat} (hne : d ≠ c) (h : BitSet reg c) :
    BitSet (assignBits reg (1#32 <<< d) false) c := by
  intro hc
  show (reg &&& ~~~(1#32 <<< d)).getLsbD c = true
  have hreg := h hc
  simp only [BitVec.getLsbD_and, BitVec.getLsbD_not, BitVec.getLsbD_shiftLeft, hreg, hc,
    BitVec.getLsbD_one]
  simp
  omega

/-- The tags of reference channel `c` and of the main output stay as enabled as
they were. -/
structure KeepsBits (c : Nat) (regs regs' : SpllWB) : Prop where
  rcer : BitSet regs.rcer c → BitSet regs'.rcer c
  ocer : BitSet regs.ocer 0 → BitSet regs'.ocer 0

theorem KeepsBits.refl (c : Nat) (regs : SpllWB) : KeepsBits c regs regs := ⟨id, id⟩

theorem KeepsBits.trans {c : Nat} {regs regs' regs'' : SpllWB} (h : KeepsBits c regs regs')
    (k : KeepsBits c regs' regs'') : KeepsBits c regs regs'' :=
  ⟨k.rcer ∘ h.rcer, k.ocer ∘ h.ocer⟩

section Tagger

variable (n c : Nat) (regs : SpllWB)

theorem keepsBits_enable (channel : Int) :
    KeepsBits c regs (spllEnableTagger n regs channel true) := by
  unfold spllEnableTagger
  split_ifs
  · exact ⟨id, bitSet_enable _⟩
  · exact ⟨bitSet_enable _, id⟩

/-- Another reference channel, or an aux output, may be switched off. -/
theorem keepsBits_disable {channel : Int} (hnonneg : 0 ≤ channel) (href : channel ≠ c)
    (hout : channel ≠ n) : KeepsBits c regs (spllEnableTagger n regs channel false) := by
  unfold spllEnableTagger
  split_ifs
  · exact ⟨id, bitSet_disable (by omega)⟩
  · exact ⟨bitSet_disable (by omega), id⟩

/-- A reference channel is enabled by its own call. -/
theorem enableTagger_rcer (hc : c < n) :
    BitSet (spllEnableTagger n regs c true).rcer c := by
  unfold spllEnableTagger
  rw [if_neg (by omega), Int.toNat_natCast]
  exact bitSet_enable_self _ c

end Tagger

/-! ## The sequencer -/

section Sequencer

variable (board : Board) (hw : HwStatus) (s : SoftpllState) (c : Nat)

/-- Restarting the phase trackers only enables. -/
theorem startPtrackers_keepsBits : KeepsBits c s.spll (startPtrackers s).spll := by
  unfold startPtrackers
  refine loop_induction (fun _ t => KeepsBits c s.spll t.spll) startPtracker s.nChanRef ?_
    (KeepsBits.refl c s.spll)
  intro i _ t ht
  unfold startPtracker
  split
  · exact ht.trans ((keepsBits_enable _ _ _ _).trans (keepsBits_enable _ _ _ _))
  · exact ht

/-- Outside `startExt`, where a grandmaster switches its main output off, the
sequencer only enables. -/
theorem sequencingFsm_keepsBits (hstate : s.seqState ≠ .startExt) :
    KeepsBits c s.spll (sequencingFsm board hw s).spll := by
  have htrackers := startPtrackers_keepsBits s c
  unfold sequencingFsm
  cases h : s.seqState with
  | startExt => exact absurd h hstate
  | none | disabled => exact KeepsBits.refl c s.spll
  | clearDacs => exact keepsBits_enable _ _ _ _
  | startHelper => exact keepsBits_enable _ _ _ _
  | startMain => exact (keepsBits_enable _ _ _ _).trans (keepsBits_enable _ _ _ _)
  | waitClearDacs | waitExt | ready =>
      dsimp only
      split_ifs <;> exact KeepsBits.refl c s.spll
  | waitHelper | waitMain =>
      dsimp only
      split_ifs <;> first | exact KeepsBits.refl c s.spll | exact htrackers

end Sequencer

/-! ## The calls of a slave -/

/-- The events of a running slave: tags, and the calls with the channel numbers
that exist on a node of `nRef` references and `nOut` outputs. -/
def Event.OfSlave (nRef nOut : Nat) (e : Event) : Prop :=
  match e with
  | .tag _ _ | .setPhaseShift _ _ | .updateAuxClocks _ => True
  | .enablePtracker refChannel _ => refChannel < nRef
  | .startChannel channel | .stopChannel channel => 1 ≤ channel ∧ channel < nOut
  | .init _ _ _ _ | .shutdown => False

/-- A slave on reference channel `c`: the loops have the channels that
`spll_init` gave them, and their tags are enabled as far as the sequencer has
started them. -/
structure TaggersInv (nRef nOut c : Nat) (s : SoftpllState) : Prop where
  mode : s.mode = .slave
  nChanRef : s.nChanRef = nRef
  nChanOut : s.nChanOut = nOut
  seqState : s.seqState ≠ .startExt
  helperRef : s.helper.refSrc = c
  mainRef : s.mpll.idRef = c
  auxOut : ∀ i, i < nOut - 1 → (s.aux i).dmtd.idOut = nRef + i + 1
  mainTags : BitSet s.spll.ocer 0
  refTags : s.seqState.runsHelper = true → BitSet s.spll.rcer c

/-- The tags that the loops of a slave need are enabled in the states that need
them. -/
def SoftpllState.TagsEnabled (s : SoftpllState) (c : Nat) : Prop :=
  s.seqState = .waitHelper ∨ s.seqState = .startMain ∨ s.seqState = .waitMain ∨
      s.seqState = .ready → BitSet s.spll.rcer c ∧ BitSet s.spll.ocer 0

theorem TaggersInv.tagsEnabled {nRef nOut c : Nat} {s : SoftpllState}
    (h : TaggersInv nRef nOut c s) : s.TagsEnabled c := by
  intro hstate
  refine ⟨h.refTags ?_, h.mainTags⟩
  rcases hstate with hstate | hstate | hstate | hstate <;> rw [hstate] <;> rfl

section Steps

variable {nRef nOut c : Nat} (hc : c < nRef) (board : Board)

/-- An accepted initialisation establishes the invariant. -/
theorem taggersInv_init (s : SoftpllState) (alignPps : Bool) (hw : InitStatus) :
    TaggersInv hw.nRef hw.nOut c (step board s (.init .slave c alignPps hw)) := by
  have haccepted : initRefused hw .slave = false := rfl
  rw [step, spllInit_accepted board _ c alignPps haccepted]
  refine ⟨rfl, rfl, rfl, ?_, rfl, rfl, ?_, ?_, ?_⟩
  · show SeqState.clearDacs ≠ .startExt
    decide
  · intro i hi
    have hi' : i < hw.nOut - 1 := hi
    simp only [spllInitLoops, spllInitRegs, hi', if_true, mpllInit]
  · intro _
    show ((0 : BitVec 32) ||| 1).getLsbD 0 = true
    decide
  · intro hruns
    exact absurd hruns Bool.false_ne_true

include hc in
/-- The sequencer. -/
theorem taggersInv_sequencingFsm (hw : HwStatus) {s : SoftpllState}
    (h : TaggersInv nRef nOut c s) : TaggersInv nRef nOut c (sequencingFsm board hw s) := by
  have hsession := sequencingFsm_session board hw s
  have hbits := sequencingFsm_keepsBits board hw s c h.seqState
  refine ⟨hsession.mode.trans h.mode, hsession.nChanRef.trans h.nChanRef,
    hsession.nChanOut.trans h.nChanOut, ?_, (sequencingFsm_refSrc board hw s).trans h.helperRef,
    ?_, ?_, hbits.ocer h.mainTags, ?_⟩
  · intro hstart
    have hgrand := sequencingFsm_startExt board hw s hstart
    rw [h.mode] at hgrand
    exact absurd hgrand (by decide)
  · rw [sequencingFsm_mpll]
    split_ifs <;> exact h.mainRef
  · rw [sequencingFsm_aux]
    exact h.auxOut
  · intro hruns
    rcases sequencingFsm_runsHelper board hw s hruns with hstart | hran
    · -- `helper_start` has just enabled the reference
      have hnext : sequencingFsm board hw s = startHelper s := by
        simp only [sequencingFsm, hstart]
      rw [hnext]
      show BitSet (spllEnableTagger s.nChanRef s.spll s.helper.refSrc true).rcer c
      rw [h.helperRef, h.nChanRef]
      exact enableTagger_rcer _ _ _ hc
    · exact hbits.rcer (h.refTags hran)

/-- The loops of a slave never write the registers. -/
theorem taggersInv_updateLoops (hw : HwStatus) {s : SoftpllState} (tag : Tag)
    (h : TaggersInv nRef nOut c s) : TaggersInv nRef nOut c (updateLoops board hw s tag) := by
  have hloops := updateLoops_done board hw s tag
  obtain ⟨-, -, hspll⟩ := updateLoops_external board hw s tag
  have hidle : ¬ s.RunsExternal := by
    rintro ⟨hgrand, -⟩
    rw [h.mode] at hgrand
    exact absurd hgrand (by decide)
  rw [if_neg hidle] at hspll
  refine ⟨hloops.session.mode.trans h.mode, hloops.session.nChanRef.trans h.nChanRef,
    hloops.session.nChanOut.trans h.nChanOut, ?_, ?_, ?_, ?_, ?_, ?_⟩
  · rw [hloops.seqState]
    exact h.seqState
  · rw [hloops.helper]
    split_ifs
    · exact (helperUpdate_refSrc _ _ _).trans h.helperRef
    · exact h.helperRef
  · rw [hloops.mpll]
    split_ifs
    · exact (mpllUpdate_config _ _ _).1.trans h.mainRef
    · exact h.mainRef
  · rw [hloops.aux]
    intro i hi
    split_ifs
    · rw [h.nChanOut, processed_lt _ _ hi]
      exact (mpllUpdate_config _ _ _).2.1.trans (h.auxOut i hi)
    · exact h.auxOut i hi
  · rw [hspll]
    exact h.mainTags
  · rw [hloops.seqState, hspll]
    exact h.refTags

section Calls

variable {s : SoftpllState} (h : TaggersInv nRef nOut c s)

include h

/-- The actions of a step are not part of the state. -/
theorem TaggersInv.log (acts : List Action) : TaggersInv nRef nOut c { s with log := acts } :=
  ⟨h.mode, h.nChanRef, h.nChanOut, h.seqState, h.helperRef, h.mainRef, h.auxOut, h.mainTags,
    h.refTags⟩

/-- A change of the registers that keeps the two bits. -/
theorem TaggersInv.regs {regs : SpllWB} (hbits : KeepsBits c s.spll regs) :
    TaggersInv nRef nOut c { s with spll := regs } :=
  ⟨h.mode, h.nChanRef, h.nChanOut, h.seqState, h.helperRef, h.mainRef, h.auxOut,
    hbits.ocer h.mainTags, fun hruns => hbits.rcer (h.refTags hruns)⟩

/-- A change of an aux channel that keeps its output. -/
theorem TaggersInv.aux {i : Nat} {a : SpllAuxState} (ha : a.dmtd.idOut = (s.aux i).dmtd.idOut) :
    TaggersInv nRef nOut c { s with aux := Function.update s.aux i a } := by
  refine ⟨h.mode, h.nChanRef, h.nChanOut, h.seqState, h.helperRef, h.mainRef, ?_, h.mainTags,
    h.refTags⟩
  intro j hj
  by_cases hij : j = i
  · subst hij
    show (Function.update s.aux j a j).dmtd.idOut = _
    rw [Function.update_self, ha]
    exact h.auxOut j hj
  · show (Function.update s.aux i a j).dmtd.idOut = _
    rw [Function.update_of_ne hij]
    exact h.auxOut j hj

theorem taggersInv_startChannel (channel : Nat) :
    TaggersInv nRef nOut c (spllStartChannel s channel) := by
  unfold spllStartChannel
  split_ifs
  · exact h
  · have hbits : KeepsBits c s.spll
        (mpllStart s.nChanRef (s.aux (channel - 1)).dmtd s.spll).2 :=
      (keepsBits_enable _ _ _ _).trans (keepsBits_enable _ _ _ _)
    have haux := h.aux (i := channel - 1) (a := { s.aux (channel - 1) with
      dmtd := mpllRestart (s.aux (channel - 1)).dmtd }) rfl
    exact (haux.regs hbits).log _

include hc in
/-- Stopping an aux channel clears the bit of its own output. -/
theorem taggersInv_stopChannel {channel : Nat} (hpos : 1 ≤ channel) (hout : channel < nOut) :
    TaggersInv nRef nOut c (spllStopChannel s channel) := by
  unfold spllStopChannel
  rw [if_neg (by omega)]
  have hid := h.auxOut (channel - 1) (by omega)
  have hbits : KeepsBits c s.spll
      (mpllStop s.nChanRef (s.aux (channel - 1)).dmtd s.spll) := by
    unfold mpllStop
    rw [hid, h.nChanRef]
    exact keepsBits_disable _ _ _ (by omega) (by omega) (by omega)
  exact (h.regs hbits).log _

theorem taggersInv_setPhaseShift (channel : Nat) (value : Int) :
    TaggersInv nRef nOut c (setPhaseShift board s channel value) := by
  unfold setPhaseShift
  dsimp only
  split_ifs
  · exact ⟨h.mode, h.nChanRef, h.nChanOut, h.seqState, h.helperRef, h.mainRef, h.auxOut,
      h.mainTags, h.refTags⟩
  · obtain ⟨hmode, href, hout, hstate, hhelper, hmain, haux, htags, hrefTags⟩ :=
      h.aux (i := channel - 1) (a := { s.aux (channel - 1) with
        dmtd := mpllSetPhaseShift (s.aux (channel - 1)).dmtd (shiftUnits board value) }) rfl
    exact ⟨hmode, href, hout, hstate, hhelper, hmain, haux, htags, hrefTags⟩

theorem taggersInv_setChannelStatus (channel : Nat) (locked : Bool) :
    TaggersInv nRef nOut c (auxSetChannelStatus s channel locked) := by
  have hbits : KeepsBits c s.spll { s.spll with
      occr := assignBits s.spll.occr ((1#32 <<< channel &&& 0xff#32) <<< 8) locked } := ⟨id, id⟩
  exact (h.regs hbits).log _

theorem taggersInv_setAuxSeqState (channel : Nat) (state : AuxSeqState) :
    TaggersInv nRef nOut c (setAuxSeqState s channel state) := by
  have haux := h.aux (i := channel - 1) (a := { s.aux (channel - 1) with seqState := state }) rfl
  exact haux.log _

/-- A phase tracker is switched off without the tags of the loops. -/
theorem taggersInv_enablePtracker {refChannel : Nat} (href : refChannel < nRef) (enable : Bool) :
    TaggersInv nRef nOut c (spllEnablePtracker s refChannel enable) := by
  unfold spllEnablePtracker
  split_ifs with henable hother
  · obtain ⟨hmode, href, hout, hstate, hhelper, hmain, haux, htags, hrefTags⟩ :=
      h.regs ((keepsBits_enable s.nChanRef c s.spll refChannel).trans
        ((keepsBits_enable s.nChanRef c _ (s.ptrackers refChannel).id).trans
          (keepsBits_enable s.nChanRef c _ s.nChanRef)))
    exact ⟨hmode, href, hout, hstate, hhelper, hmain, haux, htags, hrefTags⟩
  · rw [h.mainRef] at hother
    have hbits : KeepsBits c s.spll (spllEnableTagger s.nChanRef s.spll refChannel false) :=
      keepsBits_disable _ _ _ (by omega) hother (by rw [h.nChanRef]; omega)
    obtain ⟨hmode, href, hout, hstate, hhelper, hmain, haux, htags, hrefTags⟩ := h.regs hbits
    exact ⟨hmode, href, hout, hstate, hhelper, hmain, haux, htags, hrefTags⟩
  · exact ⟨h.mode, h.nChanRef, h.nChanOut, h.seqState, h.helperRef, h.mainRef, h.auxOut,
      h.mainTags, h.refTags⟩

include hc in
/-- One poll of an aux channel. -/
theorem taggersInv_auxPoll (enable : AuxEnable) {i : Nat} (hi : i < nOut - 1) :
    TaggersInv nRef nOut c (auxPoll board enable s (i + 1)) := by
  have hchecked : TaggersInv nRef nOut c (auxCheckEnabled enable s (i + 1)) := by
    unfold auxCheckEnabled
    split_ifs
    · exact taggersInv_setAuxSeqState (taggersInv_setChannelStatus
        (taggersInv_stopChannel hc h (by omega) (by omega)) _ _) _ _
    · exact h
  unfold auxPoll auxFsm
  generalize auxCheckEnabled enable s (i + 1) = t at hchecked ⊢
  cases (t.aux (i + 1 - 1)).seqState with
  | none => exact hchecked
  | disabled =>
      dsimp only
      split_ifs
      · exact taggersInv_setAuxSeqState (taggersInv_startChannel hchecked _) _ _
      · exact hchecked
  | lockPll =>
      dsimp only
      split_ifs
      · exact taggersInv_setAuxSeqState (taggersInv_setPhaseShift board hchecked _ _) _ _
      · exact hchecked
  | alignPhase | ready =>
      dsimp only
      split_ifs
      · exact taggersInv_setAuxSeqState (taggersInv_setChannelStatus hchecked _ _) _ _
      · exact hchecked

end Calls

include hc in
/-- Every event of a running slave keeps the invariant. -/
theorem taggersInv_step (s : SoftpllState) (e : Event) (h : TaggersInv nRef nOut c s)
    (he : e.OfSlave nRef nOut) : TaggersInv nRef nOut c (step board s e) := by
  have hlog := h.log []
  cases e with
  | init | shutdown => exact he.elim
  | tag tag hw =>
      simp only [step]
      split_ifs
      · exact taggersInv_updateLoops board hw tag (taggersInv_sequencingFsm hc board hw hlog)
      · exact hlog
  | startChannel channel => exact taggersInv_startChannel hlog channel
  | stopChannel channel => exact taggersInv_stopChannel hc hlog he.1 he.2
  | setPhaseShift channel value =>
      cases channel with
      | one channel => exact taggersInv_setPhaseShift board hlog channel value
      | all =>
          have hmain := taggersInv_setPhaseShift board hlog 0 value
          simp only [step, spllSetPhaseShift]
          refine loop_induction (fun _ => TaggersInv nRef nOut c) _ _ ?_ hmain
          intro i _ t ht
          split_ifs
          · exact taggersInv_setPhaseShift board ht (i + 1) value
          · exact ht
  | enablePtracker refChannel enable => exact taggersInv_enablePtracker hlog he enable
  | updateAuxClocks enable =>
      have hbound : s.nChanOut = nOut := h.nChanOut
      simp only [step, spllUpdateAuxClocks]
      refine loop_induction (fun _ => TaggersInv nRef nOut c) _ _ ?_ hlog
      intro i hi t ht
      rw [hbound] at hi
      exact taggersInv_auxPoll hc board ht enable hi

end Steps

/-- In every run of a slave on reference channel `c` after its initialisation, by
tags, switched phase trackers, started and stopped aux channels, phase shifts and
polls, the channels of the loops generate tags while the loops need them. -/
theorem taggers_enabled (board : Board) (s : SoftpllState) (alignPps : Bool) (hw : InitStatus)
    (c : Nat) (hc : c < hw.nRef) (es : List Event) (hes : ∀ e ∈ es, e.OfSlave hw.nRef hw.nOut) :
    (run (step board) (step board s (.init .slave c alignPps hw)) es).TagsEnabled c := by
  have hinv := run_invariant_on (TaggersInv hw.nRef hw.nOut c) (Event.OfSlave hw.nRef hw.nOut)
    (taggersInv_step hc board) (taggersInv_init board s alignPps hw) es hes
  exact hinv.tagsEnabled

/-- A node with one reference and one aux channel waits for the helper, while the
tracker of the reference is switched on and off and the aux channel started and
stopped. -/
def waitingSlave : List Event :=
  [.tag ⟨0, 0⟩ {}, .tag ⟨0, 0⟩ { tics := 1000 }, .enablePtracker 0 true, .startChannel 1,
    .tag ⟨0, 0⟩ { tics := 1000 }, .enablePtracker 0 false, .stopChannel 1,
    .setPhaseShift .all 100, .updateAuxClocks ⟨fun _ => true, fun _ => false⟩]

theorem taggers_enabled_waiting :
    let s := run (step Board.wrc)
      (step Board.wrc powerUp (.init .slave 0 true ⟨0x20100, true⟩)) waitingSlave
    BitSet s.spll.rcer 0 ∧ BitSet s.spll.ocer 0 := by
  refine taggers_enabled Board.wrc powerUp true ⟨0x20100, true⟩ 0 (by decide) waitingSlave ?_
    (Or.inl (by decide))
  simp only [waitingSlave, List.forall_mem_cons, Event.OfSlave]
  simp
  decide

end Softpll
end WrpcSw
