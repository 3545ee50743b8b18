import WrpcSw.Softpll.Locking

/-!
# The status and the setpoint of the aux channels

Two properties of the channels in `ready`, over all runs.

* `raises_locked_iff` — the lock status of a channel is raised with the main
  PLL and its own PLL locked, in exactly the runs in which no idle channel is
  promoted over the two lock flags that the state machine does not test.
* `shares_setpoint_iff` — in slave mode, all ready channels have the setpoint of
  the main PLL, in exactly the runs in which no channel is promoted with an
  older setpoint and the main PLL does not restart under a shifted channel.
-/

namespace WrpcSw
namespace Softpll

open Run

/-! ## One channel of a poll -/

/-- A poll promotes the channel: it is enabled, aligning, and its shifter has
arrived. -/
def Promotes (enable : AuxEnable) (i : Nat) (a : SpllAuxState) : Prop :=
  enable.first (i + 1) = true ∧ a.seqState = .alignPhase ∧ mpllShifterBusy a.dmtd = false

/-- A poll keeps the channel in `ready`. -/
def Retains (enable : AuxEnable) (s : SoftpllState) (i : Nat) (a : SpllAuxState) : Prop :=
  enable.first (i + 1) = true ∧ a.seqState = .ready ∧ s.mpll.ld.locked = true ∧
    a.dmtd.ld.locked = true

section OneChannel

variable (board : Board) (enable : AuxEnable) (s : SoftpllState) (i : Nat) (a : SpllAuxState)

theorem auxNext_disabled (h : a.seqState ≠ .disabled) (hfirst : enable.first (i + 1) = false) :
    auxNext board enable s i a =
      ((auxAdvanced board enable s i { a with seqState := .disabled }).1,
        [.mpllStop (i + 1), .auxStatus (i + 1) false, .auxSeqState (i + 1) .disabled] ++
          (auxAdvanced board enable s i { a with seqState := .disabled }).2) := by
  simp [auxNext, auxChecked, h, hfirst]

theorem auxNext_enabled (h : a.seqState = .disabled ∨ enable.first (i + 1) = true) :
    auxNext board enable s i a = auxAdvanced board enable s i a := by
  have hchecked : auxChecked enable i a = (a, []) := by
    rcases h with h | h <;> simp [auxChecked, h]
  simp [auxNext, hchecked]

/-- A channel found disabled stays disabled or starts to lock; no status is
raised. -/
theorem auxAdvanced_disabled (h : a.seqState = .disabled) :
    (auxAdvanced board enable s i a).1.seqState ≠ .ready ∧
      ∀ ch, .auxStatus ch true ∉ (auxAdvanced board enable s i a).2 := by
  simp only [auxAdvanced, h]
  split_ifs <;> simp [h]

/-- The channels that are ready after a poll; the poll leaves their PLLs alone. -/
theorem auxNext_ready :
    ((auxNext board enable s i a).1.seqState = .ready ↔
        Promotes enable i a ∨ Retains enable s i a) ∧
      ((auxNext board enable s i a).1.seqState = .ready →
        (auxNext board enable s i a).1.dmtd = a.dmtd) := by
  unfold Promotes Retains
  cases hfirst : enable.first (i + 1) with
  | false =>
      have hnot : (auxNext board enable s i a).1.seqState ≠ .ready := by
        by_cases h : a.seqState = .disabled
        · rw [auxNext_enabled board enable s i a (Or.inl h)]
          exact (auxAdvanced_disabled board enable s i a h).1
        · rw [auxNext_disabled board enable s i a h hfirst]
          exact (auxAdvanced_disabled board enable s i _ rfl).1
      simp [hnot]
  | true =>
      rw [auxNext_enabled board enable s i a (Or.inr hfirst)]
      cases hstate : a.seqState with
      | none => simp [auxAdvanced, hstate]
      | disabled =>
          simp [(auxAdvanced_disabled board enable s i a hstate).1]
      | lockPll =>
          simp only [auxAdvanced, hstate]
          split_ifs <;> simp [hstate]
      | alignPhase =>
          cases hbusy : mpllShifterBusy a.dmtd <;> simp [auxAdvanced, hstate, hbusy]
      | ready =>
          cases hmain : s.mpll.ld.locked <;> cases hown : a.dmtd.ld.locked <;>
            simp [auxAdvanced, hstate, hmain, hown]

/-- The status raised for a channel is that of its promotion. -/
theorem auxNext_raises (ch : Nat) :
    .auxStatus ch true ∈ (auxNext board enable s i a).2 ↔
      ch = i + 1 ∧ Promotes enable i a := by
  unfold Promotes
  cases hfirst : enable.first (i + 1) with
  | false =>
      have hnot : .auxStatus ch true ∉ (auxNext board enable s i a).2 := by
        by_cases h : a.seqState = .disabled
        · rw [auxNext_enabled board enable s i a (Or.inl h)]
          exact (auxAdvanced_disabled board enable s i a h).2 ch
        · rw [auxNext_disabled board enable s i a h hfirst]
          simp [(auxAdvanced_disabled board enable s i { a with seqState := .disabled } rfl).2 ch]
      simp [hnot]
  | true =>
      rw [auxNext_enabled board enable s i a (Or.inr hfirst)]
      cases hstate : a.seqState with
      | none => simp [auxAdvanced, hstate]
      | disabled =>
          simp [(auxAdvanced_disabled board enable s i a hstate).2 ch]
      | lockPll | ready =>
          simp only [auxAdvanced, hstate]
          split_ifs <;> simp
      | alignPhase =>
          cases hbusy : mpllShifterBusy a.dmtd <;> simp [auxAdvanced, hstate, hbusy]

end OneChannel

/-! ## The lock status of a channel -/

/-- A poll that raises the status of a channel does so with the main PLL and the
PLL of the channel locked and its phase shifter idle. -/
def RaisesLocked (board : Board) (s : SoftpllState) (e : Event) : Prop :=
  ∀ enable, e = .updateAuxClocks enable →
    ∀ ch, .auxStatus ch true ∈ (step board s e).log →
      (step board s e).mpll.ld.locked = true ∧
        ((step board s e).aux (ch - 1)).dmtd.ld.locked = true ∧
        mpllShifterBusy ((step board s e).aux (ch - 1)).dmtd = false

/-- The two locks that a promotion does not test are there when a poll promotes a
channel. -/
def PromotesLocked (s : SoftpllState) (e : Event) : Prop :=
  ∀ enable, e = .updateAuxClocks enable →
    ∀ i, i < s.nChanOut - 1 → Promotes enable i (s.aux i) →
      s.mpll.ld.locked = true ∧ (s.aux i).dmtd.ld.locked = true

/-- The channels whose status a poll raises. -/
theorem poll_raises (board : Board) (enable : AuxEnable) (s : SoftpllState) (ch : Nat) :
    .auxStatus ch true ∈ (step board s (.updateAuxClocks enable)).log ↔
      ∃ i, i < s.nChanOut - 1 ∧ ch = i + 1 ∧ Promotes enable i (s.aux i) := by
  obtain ⟨regs, -, hpoll⟩ := spllUpdateAuxClocks_eq board enable { s with log := [] }
  simp only [step, hpoll, List.nil_append, List.mem_flatMap, List.mem_range, auxNext_raises]

/-- The PLL of a promoted channel comes through the poll unchanged. -/
theorem poll_promoted (board : Board) {enable : AuxEnable} {s : SoftpllState} {i : Nat}
    (hi : i < s.nChanOut - 1) (h : Promotes enable i (s.aux i)) :
    ((step board s (.updateAuxClocks enable)).aux i).dmtd = (s.aux i).dmtd ∧
      (step board s (.updateAuxClocks enable)).mpll = s.mpll := by
  obtain ⟨regs, -, hpoll⟩ := spllUpdateAuxClocks_eq board enable { s with log := [] }
  simp only [step, hpoll]
  rw [processed_lt _ _ hi]
  obtain ⟨hready, hsame⟩ := auxNext_ready board enable { s with log := [] } i (s.aux i)
  exact ⟨hsame (hready.mpr (Or.inl h)), trivial⟩

theorem raisesLocked_iff_promotesLocked (board : Board) (s : SoftpllState) (e : Event) :
    RaisesLocked board s e ↔ PromotesLocked s e := by
  constructor
  · rintro hraises enable rfl i hi hpromotes
    obtain ⟨hown, hmain⟩ := poll_promoted board hi hpromotes
    have hlocked := hraises enable rfl (i + 1)
      ((poll_raises board enable s (i + 1)).mpr ⟨i, hi, rfl, hpromotes⟩)
    rw [Nat.add_sub_cancel, hown, hmain] at hlocked
    exact ⟨hlocked.1, hlocked.2.1⟩
  · rintro hlocks enable rfl ch hch
    obtain ⟨i, hi, rfl, hpromotes⟩ := (poll_raises board enable s ch).mp hch
    obtain ⟨hown, hmain⟩ := poll_promoted board hi hpromotes
    obtain ⟨hmainLocked, hownLocked⟩ := hlocks enable rfl i hi hpromotes
    rw [Nat.add_sub_cancel, hown, hmain]
    exact ⟨hmainLocked, hownLocked, hpromotes.2.2⟩

/-- Over every run, the status of a channel is raised only with both PLLs locked
if and only if no channel is promoted without them. -/
theorem raises_locked_iff (board : Board) (es : List Event) :
    Along (step board) (RaisesLocked board) powerUp es ↔
      Along (step board) PromotesLocked powerUp es :=
  along_iff_of_invariant (fun _ => True) (fun _ _ _ _ => trivial)
    (fun s e _ => raisesLocked_iff_promotesLocked board s e) trivial es

/-- A slave whose main PLL loses its lock while the aux channel aligns. -/
def mainLost : List Event := slaveToAlign ++ pairRun 0 1 4096 900

theorem mainLost_view : ∃ h m a,
    (run (step Board.wrc) powerUp mainLost).view =
      { startView .slave with
        seqState := .ready, helper := h, mpll := m, aux := ⟨.alignPhase, a⟩ } ∧
    m.ld.locked = false ∧ mpllShifterBusy a = false := by
  obtain ⟨h, m, a, hview, hholds, hmain, haux⟩ := slaveToAlign_view
  obtain ⟨hmode, htakes, -⟩ := startView_helper .slave (Or.inl rfl)
  obtain ⟨hout, -, -⟩ := startView_main
  rw [mainLost, run_append]
  generalize run (step Board.wrc) powerUp slaveToAlign = s at hview ⊢
  have hready : ReadySlave s.view := by
    rw [hview]
    exact ⟨hmode, rfl, htakes, hout ▸ (by decide)⟩
  have hholds' : HelperHolds (2199 + 1800 + 101 : Nat) s.view.helper (0 : Nat) := by
    rw [hview]
    exact hholds
  have hmain' : MainCounts 0 1000 true s.view.mpll (0 : Nat) (1 : Nat) := by
    rw [hview]
    exact hmain
  have haux' : MainCounts 0 1000 true s.view.aux.dmtd (0 : Nat) (2 : Nat) := by
    rw [hview]
    exact haux
  obtain ⟨h₁, m₁, a₁, hview₁, hmain₁, haux₁⟩ :=
    main_loses Board.wrc hready (by decide) (by decide) (by decide) (by decide)
      (by decide) rfl hholds' hmain' haux'
  rw [hview] at hview₁
  refine ⟨h₁, m₁, a₁, hview₁, hmain₁.locked, ?_⟩
  simp [mpllShifterBusy, haux₁.shift.1, haux₁.shift.2]

/-- A poll raises the status of a channel over an unlocked main PLL. -/
theorem not_raisesLocked {board : Board} {s : SoftpllState} {enable : AuxEnable}
    (hout : 1 < s.view.nChanOut) (hpromotes : Promotes enable 0 s.view.aux)
    (hmain : s.view.mpll.ld.locked = false) :
    ¬ RaisesLocked board s (.updateAuxClocks enable) := by
  intro hraises
  have hlocks := (raisesLocked_iff_promotesLocked board s _).mp hraises
  have hfalse := (hlocks enable rfl 0 (Nat.sub_pos_of_lt hout) hpromotes).1
  exact Bool.false_ne_true (hmain.symm.trans hfalse)

/-- A slave raises the lock status of its aux channel after its main PLL has lost
the lock. -/
theorem raises_unlocked :
    ¬ Along (step Board.wrc) (RaisesLocked Board.wrc) powerUp
      (mainLost ++ [.updateAuxClocks allEnabled]) := by
  intro halong
  obtain ⟨h, m, a, hview, hmain, hidle⟩ := mainLost_view
  obtain ⟨hout, -, -⟩ := startView_main
  refine not_raisesLocked ?_ ?_ ?_ (along_last halong)
  · rw [hview]
    exact hout ▸ (by decide)
  · rw [hview]
    exact ⟨rfl, rfl, hidle⟩
  · rw [hview]
    exact hmain

/-! ## The setpoint of the ready channels -/

/-- The events of a slave between two initialisations. -/
inductive SlaveOp
  | setPhaseShift (valuePicoseconds : Int)
  | tag (tag : Tag) (hw : HwStatus)
  | poll (enable : AuxEnable)

def SlaveOp.event : SlaveOp → Event
  | .setPhaseShift value => .setPhaseShift .all value
  | .tag word hw => .tag word hw
  | .poll enable => .updateAuxClocks enable

/-- Every ready channel has the setpoint of the main PLL. -/
def SharesSetpoint (s : SoftpllState) : Prop :=
  ∀ i, i < s.nChanOut - 1 → (s.aux i).seqState = .ready →
    (s.aux i).dmtd.phaseShiftTarget = s.mpll.phaseShiftTarget

/-- The two steps that can leave a ready channel behind do not: a channel is
promoted with the setpoint of the main PLL, and a restart of the main PLL finds
the ready channels unshifted. -/
def KeepsSetpoint (s : SoftpllState) : SlaveOp → Prop
  | .setPhaseShift _ => True
  | .tag _ _ => s.takesTags = true → s.seqState = .startMain →
      ∀ i, i < s.nChanOut - 1 → (s.aux i).seqState = .ready →
        (s.aux i).dmtd.phaseShiftTarget = 0
  | .poll enable => ∀ i, i < s.nChanOut - 1 → Promotes enable i (s.aux i) →
      (s.aux i).dmtd.phaseShiftTarget = s.mpll.phaseShiftTarget

theorem sharesSetpoint_setPhaseShift (board : Board) (s : SoftpllState) (value : Int) :
    SharesSetpoint (step board s (.setPhaseShift .all value)) := by
  intro i hi hready
  simp only [step, spllSetPhaseShift_all] at hi hready ⊢
  rw [processed_lt _ _ hi] at hready ⊢
  unfold auxSetpoint at hready ⊢
  split_ifs at hready ⊢ with hstate
  · rfl
  · exact absurd hready hstate

theorem sharesSetpoint_poll (board : Board) {s : SoftpllState} {enable : AuxEnable}
    (h : SharesSetpoint s) :
    SharesSetpoint (step board s (.updateAuxClocks enable)) ↔
      KeepsSetpoint s (.poll enable) := by
  obtain ⟨regs, -, hpoll⟩ := spllUpdateAuxClocks_eq board enable { s with log := [] }
  simp only [SharesSetpoint, KeepsSetpoint, step, hpoll]
  refine forall_congr' fun i => forall_congr' fun hi => ?_
  rw [processed_lt _ _ hi]
  obtain ⟨hready, hsame⟩ := auxNext_ready board enable { s with log := [] } i (s.aux i)
  constructor
  · intro hshares hpromotes
    have hnext := hready.mpr (Or.inl hpromotes)
    have htarget := hshares hnext
    rwa [hsame hnext] at htarget
  · intro hkeeps hnext
    rw [hsame hnext]
    rcases hready.mp hnext with hpromotes | hretains
    · exact hkeeps hpromotes
    · exact h i hi hretains.2.1

/-- The main PLL changes its setpoint in `startMain` only, a channel never. -/
theorem tagStep_setpoint (board : Board) (hw : HwStatus) (s : SoftpllState) (tag : Tag) :
    (tagStep board hw s tag).mpll.phaseShiftTarget =
        (if s.seqState = .startMain then 0 else s.mpll.phaseShiftTarget) ∧
      ∀ i, ((tagStep board hw s tag).aux i).dmtd.phaseShiftTarget =
        (s.aux i).dmtd.phaseShiftTarget := by
  have hloops := updateLoops_done board hw (sequencingFsm board hw s) tag
  refine ⟨?_, fun i => ?_⟩
  · have hstart : (sequencingFsm board hw s).mpll.phaseShiftTarget =
        if s.seqState = .startMain then 0 else s.mpll.phaseShiftTarget := by
      rw [sequencingFsm_mpll]
      split_ifs <;> rfl
    rw [tagStep, hloops.mpll, ← hstart]
    split_ifs
    · exact mpllUpdate_phaseShiftTarget _ _ _
    · rfl
  · rw [tagStep, hloops.aux, sequencingFsm_aux]
    split_ifs
    · unfold processed
      split_ifs
      · exact mpllUpdate_phaseShiftTarget _ _ _
      · rfl
    · rfl

theorem sharesSetpoint_tag (board : Board) {s : SoftpllState} (tag : Tag) (hw : HwStatus)
    (h : SharesSetpoint s) :
    SharesSetpoint (step board s (.tag tag hw)) ↔ KeepsSetpoint s (.tag tag hw) := by
  simp only [KeepsSetpoint, step]
  split_ifs with htakes
  · have htakes' : s.takesTags = true := htakes
    have hsession := tagStep_session board hw { s with log := [] } tag
    obtain ⟨hmain, haux⟩ := tagStep_setpoint board hw { s with log := [] } tag
    simp only [SharesSetpoint, hmain, haux, hsession.nChanOut, hsession.auxSeqState]
    constructor
    · intro hshares _ hstart i hi hready
      simpa [hstart] using hshares i hi hready
    · intro hkeeps i hi hready
      split_ifs with hstart
      · exact hkeeps htakes' hstart i hi hready
      · exact h i hi hready
  · exact iff_of_true h fun htakes' => absurd htakes' htakes

/-- In slave mode, the ready channels share the setpoint of the main PLL after
every event of a run if and only if no channel is promoted with another setpoint
and no restart of the main PLL finds a ready channel shifted. -/
theorem shares_setpoint_iff (board : Board) (s : SoftpllState) (slaveRefChannel : Int)
    (alignPps : Bool) (hw : InitStatus) (ops : List SlaveOp) :
    Along (fun s op => step board s (SlaveOp.event op))
        (fun s op => SharesSetpoint (step board s op.event))
        (step board s (.init .slave slaveRefChannel alignPps hw)) ops ↔
      Along (fun s op => step board s (SlaveOp.event op)) KeepsSetpoint
        (step board s (.init .slave slaveRefChannel alignPps hw)) ops := by
  have hstep : ∀ s op, SharesSetpoint s →
      (SharesSetpoint (step board s (SlaveOp.event op)) ↔ KeepsSetpoint s op) := by
    intro s op h
    cases op with
    | setPhaseShift value =>
        exact iff_of_true (sharesSetpoint_setPhaseShift board s value) trivial
    | tag tag hw => exact sharesSetpoint_tag board tag hw h
    | poll enable => exact sharesSetpoint_poll board h
  refine along_iff_of_invariant SharesSetpoint
    (fun s op h hkeeps => (hstep s op h).mpr hkeeps) hstep ?_ ops
  intro i hi hready
  have haccepted : initRefused hw .slave = false := by simp [initRefused]
  rw [step, spllInit_accepted board _ slaveRefChannel alignPps haccepted] at hi hready
  simp [spllInitLoops] at hi hready
  simp [hi] at hready

/-- The events of a slave that are not initialisations, shutdowns or calls on one
channel. -/
def SlaveOp.ofEvent : Event → Option SlaveOp
  | .setPhaseShift .all value => some (.setPhaseShift value)
  | .tag word hw => some (.tag word hw)
  | .updateAuxClocks enable => some (.poll enable)
  | _ => none

theorem SlaveOp.event_ofEvent {e : Event} {op : SlaveOp} (h : SlaveOp.ofEvent e = some op) :
    op.event = e := by
  unfold SlaveOp.ofEvent at h
  split at h <;> first | (obtain rfl := Option.some.inj h; rfl) | simp at h

/-- A run of a slave, by its events. -/
theorem slaveOp_run (board : Board) (s : SoftpllState) (es : List Event)
    (hes : ∀ e ∈ es, (SlaveOp.ofEvent e).isSome = true) :
    run (fun s op => step board s (SlaveOp.event op)) s (es.filterMap SlaveOp.ofEvent) =
      run (step board) s es := by
  induction es generalizing s with
  | nil => rfl
  | cons e es ih =>
      obtain ⟨op, hop⟩ := Option.isSome_iff_exists.mp (hes e (List.mem_cons_self ..))
      rw [List.filterMap_cons_some hop, run_cons, run_cons, SlaveOp.event_ofEvent hop]
      exact ih _ fun e he => hes e (List.mem_cons_of_mem _ he)

/-- The slave up to the alignment of its aux channel, after its initialisation. -/
def alignedSlave : List SlaveOp := slaveToAlign.tail.filterMap SlaveOp.ofEvent

theorem alignedSlave_run :
    run (fun s op => step Board.wrc s (SlaveOp.event op))
        (step Board.wrc powerUp (.init .slave 0 false ⟨0x20100, false⟩)) alignedSlave =
      run (step Board.wrc) powerUp slaveToAlign := by
  have hcons : slaveToAlign = .init .slave 0 false ⟨0x20100, false⟩ :: slaveToAlign.tail := rfl
  rw [alignedSlave, slaveOp_run, ← run_cons, ← hcons]
  intro e he
  rcases mem_slaveToAlign he with ⟨tag, hw, rfl⟩ | rfl <;> rfl

/-- A setpoint that arrives while the channel is idle in its alignment is missed by
the promotion. -/
theorem not_sharesSetpoint {board : Board} {s : SoftpllState} {value : Int}
    {enable : AuxEnable} (hout : 1 < s.view.nChanOut) (hpromotes : Promotes enable 0 s.view.aux)
    (hmoved : s.view.aux.dmtd.phaseShiftTarget ≠ shiftUnits board value) :
    ¬ SharesSetpoint
      (step board (step board s (.setPhaseShift .all value)) (.updateAuxClocks enable)) := by
  have hset : (step board s (.setPhaseShift .all value)).view =
      { s.view with
        shiftPs := value
        mpll := mpllSetPhaseShift s.view.mpll (shiftUnits board value)
        aux := s.view.aux } := by
    rw [view_setPhaseShift_all board s value hout, auxSetpoint, if_neg (by simp [hpromotes.2.1])]
  generalize step board s (.setPhaseShift .all value) = t at hset ⊢
  have hpromotes' : Promotes enable 0 t.view.aux := by
    rw [hset]
    exact hpromotes
  have hpoll := view_poll board t enable (by rw [hset]; exact hout)
  obtain ⟨hready, hsame⟩ := auxNext_ready board enable t 0 t.view.aux
  have hnext := hready.mpr (Or.inl hpromotes')
  intro hshares
  have hchannel : 0 < (step board t (.updateAuxClocks enable)).nChanOut - 1 := by
    show 0 < (step board t (.updateAuxClocks enable)).view.nChanOut - 1
    rw [hpoll, hset]
    exact Nat.sub_pos_of_lt hout
  have htarget : (step board t (.updateAuxClocks enable)).view.aux.dmtd.phaseShiftTarget =
      (step board t (.updateAuxClocks enable)).view.mpll.phaseShiftTarget := by
    apply hshares 0 hchannel
    show (step board t (.updateAuxClocks enable)).view.aux.seqState = .ready
    rw [hpoll]
    exact hnext
  rw [hpoll] at htarget
  dsimp only at htarget
  rw [hsame hnext, hset] at htarget
  exact hmoved htarget

/-- A slave whose setpoint changes while the aux channel aligns ends with a ready
channel at the old setpoint. -/
theorem setpoint_not_shared :
    ¬ Along (fun s op => step Board.wrc s (SlaveOp.event op))
      (fun s op => SharesSetpoint (step Board.wrc s op.event))
      (step Board.wrc powerUp (.init .slave 0 false ⟨0x20100, false⟩))
      (alignedSlave ++ [.setPhaseShift 8000] ++ [.poll allEnabled]) := by
  intro halong
  obtain ⟨h, m, a, hview, -, -, haux⟩ := slaveToAlign_view
  obtain ⟨hout, -, -⟩ := startView_main
  have hlast := along_last halong
  rw [run_append, alignedSlave_run, run_cons, run_nil] at hlast
  generalize run (step Board.wrc) powerUp slaveToAlign = s at hview hlast
  refine not_sharesSetpoint ?_ ?_ ?_ hlast
  · rw [hview]
    exact hout ▸ (by decide)
  · rw [hview]
    exact ⟨rfl, rfl, by simp [mpllShifterBusy, haux.shift.1, haux.shift.2]⟩
  · rw [hview]
    show a.phaseShiftTarget ≠ _
    rw [haux.shift.1]
    decide

end Softpll
end WrpcSw
