import WrpcSw.Softpll.Averaging

/-!
# The real-time subsystem of the switch (`ipc/rt_ipc.c`, `ipc/rt_ipc.h`)

On the switch the PLL is driven by another processor, which calls six procedures: it sets the mode,
chooses the port to lock to, adjusts the phase, starts the phase trackers and reads the state that
the main loop collects.  Tags arrive between the calls.

* `RtsNode.call`, `RtsNode.step` — the code: a call, a round of the main loop, or a tag.
* `Orders.step` — what the calls are for: a mode, and the task of the PLL.
* `rts_follows_orders` — in every run the PLL does what it was told last, and each reply says so.
-/

namespace WrpcSw
namespace Ipc

open Softpll CInt

/-! ## The state -/

def rtsPllChannels : Nat := 18

def chanRefValid : UInt32 := 0x01
def chanPmeasReady : UInt32 := 0x08
def chanDisabled : UInt32 := 0x10
def chanShifting : UInt32 := 0x20
def chanPtrackerEnabled : UInt32 := 0x40

def rtsDmtdLocked : UInt32 := 0x01
def rtsRefLocked : UInt32 := 0x02

def rtsModeGmExternal : UInt32 := 1
def rtsModeGmFreerunning : UInt32 := 2
def rtsModeBc : UInt32 := 3
def rtsModeDisabled : UInt32 := 4

structure Channel where
  priority : UInt32 := 0
  phaseSetpoint : Int := 0
  phaseCurrent : Int := 0
  phaseLoopback : Int := 0
  flags : UInt32 := 0

/-- `struct rts_pll_state`, without the data that nothing uses. -/
structure RtsPllState where
  channels : Fin rtsPllChannels → Channel := fun _ => {}
  flags : UInt32 := 0
  holdoverDuration : Int := 0
  currentRef : UInt32 := 0
  mode : UInt32 := 0
  delockCount : Int := 0
  ipcCount : UInt32 := 0

/-- `clear_state`, which is all of `rts_init`. -/
def clearState (p : RtsPllState) : RtsPllState :=
  { p with
    channels := fun i => { p.channels i with
      priority := 0
      phaseSetpoint := 0
      phaseLoopback := 0
      flags := chanRefValid }
    flags := 0
    currentRef := 0
    mode := rtsModeDisabled
    ipcCount := 0 }

/-! ## The procedures -/

structure RtsNode where
  pstate : RtsPllState
  softpll : SoftpllState

/-- The node when the main loop starts. -/
def RtsNode.boot : RtsNode := ⟨clearState {}, powerUp⟩

/-- The rows of `options`: the mode of the PLL, and whether it is started in it. -/
def options (mode : UInt32) : Option (SpllMode × Bool) :=
  if mode = rtsModeGmExternal then some (.grandMaster, true)
  else if mode = rtsModeGmFreerunning then some (.freeRunningMaster, true)
  else if mode = rtsModeBc then some (.slave, false)
  else if mode = rtsModeDisabled then some (.disabled, true)
  else none

/-- The requests of the other processor, with their arguments as words, and what the hardware
answers to `spll_init`. -/
inductive Request
  | getState
  | setMode (mode : UInt32) (hw : InitStatus)
  | lockChannel (channel priority : UInt32) (hw : InitStatus)
  | adjustPhase (channel phaseSetpoint : UInt32)
  | enablePtracker (channel enable : UInt32)

inductive Reply
  | int (value : Int)
  | state (pstate : RtsPllState)

inductive RtsEvent
  | request (r : Request)
  | update
  | tag (tag : Tag) (hw : HwStatus)

/-- A word as an `int`. -/
def asInt (word : UInt32) : Int := i32 word.toNat

/-- No channel outside the arrays is named. -/
def RtsEvent.InRange : RtsEvent → Prop
  | .request (.adjustPhase channel _) => 0 ≤ asInt channel ∧ asInt channel < rtsPllChannels
  | .request (.enablePtracker channel _) => 0 ≤ asInt channel ∧ asInt channel < rtsPllChannels
  | _ => True

namespace RtsNode

variable (board : Board) (node : RtsNode)

/-- A call of the PLL. -/
def spll (e : Event) : RtsNode := { node with softpll := Softpll.step board node.softpll e }

def rtsSetMode (mode : UInt32) (hw : InitStatus) : RtsNode :=
  let node := { node with pstate := { node.pstate with mode := mode } }
  match options mode with
  | some (modeSpll, true) => node.spll board (.init modeSpll 0 true hw)
  | some (_, false) => node.spll board (.init .disabled 0 false hw)
  | none => node

def rtsLockChannel (channel : UInt32) (hw : InitStatus) : RtsNode × Int :=
  if node.pstate.mode ≠ rtsModeBc then (node, -1)
  else
    let node := node.spll board (.init .slave (asInt channel) false hw)
    ({ node with pstate := { node.pstate with currentRef := channel } }, 0)

/-- The setpoint goes into the entry of the channel, which must be one of the array. -/
def rtsAdjustPhase (channel phaseSetpoint : Int) : Option RtsNode :=
  let node := node.spll board (.setPhaseShift (.one 0) phaseSetpoint)
  if h : channel.toNat < rtsPllChannels then
    if channel < 0 then none
    else
      let i : Fin rtsPllChannels := ⟨channel.toNat, h⟩
      some { node with
        pstate := { node.pstate with
          channels := Function.update node.pstate.channels i
            { node.pstate.channels i with phaseSetpoint := phaseSetpoint } } }
  else none

/-- The entry of a channel in a round of `rts_update`. -/
def updateChannel (s : SoftpllState) (currentRef : UInt32) (i : Nat) (ch : Channel) : Channel :=
  let ch := { ch with flags := 0, phaseLoopback := 0, phaseCurrent := 0 }
  if i ≥ s.nChanRef then { ch with flags := chanDisabled }
  else
    let ch :=
      if UInt32.ofNat i = currentRef then
        { ch with
          phaseCurrent := (spllGetPhaseShift board s 0).1
          flags := if mpllShifterBusy s.mpll then ch.flags ||| chanShifting else ch.flags }
      else ch
    let (phase, enabled, ready) := spllReadPtracker board s i
    let flags := if ready then ch.flags ||| chanPmeasReady else ch.flags
    { ch with
      phaseLoopback := phase
      flags := if enabled then flags ||| chanPtrackerEnabled else flags }

def rtsUpdate : RtsNode :=
  { node with
    pstate := { node.pstate with
      flags := if spllCheckLock node.softpll 0 then rtsDmtdLocked ||| rtsRefLocked else 0
      channels := fun i =>
        updateChannel board node.softpll node.pstate.currentRef i (node.pstate.channels i) } }

/-- What `rts_get_state_func` copies. -/
def report : RtsPllState := { node.pstate with delockCount := node.softpll.delockCount }

/-- A request and its reply, unless it writes outside an array. -/
def call (r : Request) : Option (RtsNode × Reply) :=
  let node := { node with pstate := { node.pstate with ipcCount := node.pstate.ipcCount + 1 } }
  match r with
  | .getState => some (node, .state node.report)
  | .setMode mode hw => some (node.rtsSetMode board mode hw, .int 0)
  | .lockChannel channel _ hw =>
      let r := node.rtsLockChannel board channel hw
      some (r.1, .int r.2)
  | .adjustPhase channel phaseSetpoint =>
      (node.rtsAdjustPhase board (asInt channel) (asInt phaseSetpoint)).map fun node =>
        (node, .int 0)
  | .enablePtracker channel enable =>
      if asInt channel < 0 ∨ rtsPllChannels ≤ asInt channel then none
      else some (node.spll board (.enablePtracker (asInt channel).toNat (enable ≠ 0)), .int 0)

/-- One event, and the reply to a request. -/
def step : RtsEvent → Option (RtsNode × Option Reply)
  | .request r => (node.call board r).map fun x => (x.1, some x.2)
  | .update => some (node.rtsUpdate board, none)
  | .tag tag hw => some (node.spll board (.tag tag hw), none)

end RtsNode

/-- A run, with the reply to each of its events. -/
def RtsNode.run (board : Board) : RtsNode → List RtsEvent → Option (RtsNode × List (Option Reply))
  | node, [] => some (node, [])
  | node, e :: es =>
      match node.step board e with
      | none => none
      | some (node, reply) => (RtsNode.run board node es).map fun x => (x.1, reply :: x.2)

/-! ## The orders -/

/-- What the PLL is to do. -/
inductive Task
  | nothing
  | stop
  | holdExternal
  | runFree
  | follow (channel : Int)
deriving DecidableEq, Repr

/-- The mode that was set and the task that follows from the requests. -/
structure Orders where
  mode : UInt32
  task : Task
deriving DecidableEq, Repr

/-- At the beginning nothing was asked of the PLL. -/
def Orders.start : Orders := ⟨rtsModeDisabled, .nothing⟩

/-- A boundary clock waits for its port; a mode that does not exist changes nothing. -/
def Orders.setMode (o : Orders) (mode : UInt32) : Orders where
  mode := mode
  task :=
    if mode = rtsModeGmExternal then .holdExternal
    else if mode = rtsModeGmFreerunning then .runFree
    else if mode = rtsModeBc ∨ mode = rtsModeDisabled then .stop
    else o.task

def Orders.step (o : Orders) : RtsEvent → Orders
  | .request (.setMode mode _) => o.setMode mode
  | .request (.lockChannel channel _ _) =>
      if o.mode = rtsModeBc then { o with task := .follow (asInt channel) } else o
  | _ => o

/-- The PLL does the task. -/
def Follows (s : SoftpllState) : Task → Prop
  | .nothing => s.mode = .none
  | .stop => s.mode = .disabled ∧ s.seqState = .disabled
  | .holdExternal => s.mode = .grandMaster
  | .runFree => s.mode = .freeRunningMaster ∧ s.helper.refSrc = s.nChanRef
  | .follow channel => s.mode = .slave ∧ s.helper.refSrc = channel ∧ s.mpll.idRef = channel

/-! ## The PLL -/

section Pll

variable (board : Board) {s : SoftpllState}

/-- Nothing but `spll_init` gives the PLLs other references. -/
structure SameReferences (s t : SoftpllState) : Prop where
  mode : t.mode = s.mode
  disabled : s.seqState = .disabled → t.seqState = .disabled
  nChanRef : t.nChanRef = s.nChanRef
  refSrc : t.helper.refSrc = s.helper.refSrc
  idRef : t.mpll.idRef = s.mpll.idRef

theorem Follows.same {s t : SoftpllState} (h : SameReferences s t) {task : Task}
    (hs : Follows s task) : Follows t task := by
  cases task with
  | nothing => exact h.mode.trans hs
  | stop => exact ⟨h.mode.trans hs.1, h.disabled hs.2⟩
  | holdExternal => exact h.mode.trans hs
  | runFree =>
      refine ⟨h.mode.trans hs.1, h.refSrc.trans (hs.2.trans ?_)⟩
      rw [h.nChanRef]
  | follow channel => exact ⟨h.mode.trans hs.1, h.refSrc.trans hs.2.1, h.idRef.trans hs.2.2⟩

/-- A tag. -/
theorem tagStep_references (hw : HwStatus) (s : SoftpllState) (tag : Tag) :
    SameReferences s (tagStep board hw s tag) := by
  have hdone := updateLoops_done board hw (sequencingFsm board hw s) tag
  have hsession := tagStep_session board hw s tag
  refine ⟨hsession.mode, ?_, hsession.nChanRef, ?_, ?_⟩
  · intro hdisabled
    rw [tagStep_seqState]
    simp only [sequencingFsm, hdisabled]
  · rw [tagStep, hdone.helper]
    split_ifs
    · rw [helperUpdate_refSrc, sequencingFsm_refSrc]
    · exact sequencingFsm_refSrc board hw s
  · have hsequencer : (sequencingFsm board hw s).mpll.idRef = s.mpll.idRef := by
      rw [sequencingFsm_mpll]
      split_ifs <;> rfl
    rw [tagStep, hdone.mpll]
    split_ifs
    · exact (mpllUpdate_config _ _ _).1.trans hsequencer
    · exact hsequencer

/-- The calls on the channels. -/
theorem setPhaseShift_references (s : SoftpllState) (value : Int) :
    SameReferences s (Softpll.step board s (.setPhaseShift (.one 0) value)) := by
  have h := step_channelCall board s (.setPhaseShift (.one 0) value) rfl
  exact ⟨h.mode, h.seqState.trans, h.nChanRef, by rw [h.helper], rfl⟩

theorem enablePtracker_references (s : SoftpllState) (refChannel : Nat) (enable : Bool) :
    SameReferences s (Softpll.step board s (.enablePtracker refChannel enable)) := by
  have h := step_channelCall board s (.enablePtracker refChannel enable) rfl
  refine ⟨h.mode, h.seqState.trans, h.nChanRef, by rw [h.helper], ?_⟩
  cases enable <;> rfl

theorem tag_references (s : SoftpllState) (tag : Tag) (hw : HwStatus) :
    SameReferences s (Softpll.step board s (.tag tag hw)) := by
  simp only [Softpll.step]
  split_ifs
  · have h := tagStep_references board hw { s with log := [] } tag
    exact ⟨h.mode, h.disabled, h.nChanRef, h.refSrc, h.idRef⟩
  · exact ⟨rfl, id, rfl, rfl, rfl⟩

/-- `spll_init` in one of the modes of the orders. -/
theorem init_follows (s : SoftpllState) (hw : InitStatus) :
    Follows (Softpll.step board s (.init .disabled 0 false hw)) .stop ∧
      Follows (Softpll.step board s (.init .disabled 0 true hw)) .stop ∧
      Follows (Softpll.step board s (.init .grandMaster 0 true hw)) .holdExternal ∧
      Follows (Softpll.step board s (.init .freeRunningMaster 0 true hw)) .runFree ∧
      ∀ channel : Int, Follows (Softpll.step board s (.init .slave channel false hw))
        (.follow channel) := by
  refine ⟨⟨rfl, rfl⟩, ⟨rfl, rfl⟩, ?_, ⟨rfl, rfl⟩, fun channel => ⟨rfl, rfl, rfl⟩⟩
  -- also when it is refused
  show (spllInit board hw { s with log := [] } .grandMaster 0 true).mode = .grandMaster
  unfold spllInit
  dsimp only
  split_ifs <;> rfl

/-- The sequencer and the loops do nothing when the PLL is stopped. -/
theorem tagStep_log_disabled (hw : HwStatus) (tag : Tag) (h : s.seqState = .disabled) :
    (tagStep board hw s tag).log = s.log := by
  have hsequencer : sequencingFsm board hw s = s := by
    simp only [sequencingFsm, h]
  have hactions : sequencerActions s = [] := by
    simp only [sequencerActions, h]
  have hwords : loopWords board hw s tag = [] := by
    simp [loopWords, h, SeqState.runsExternal, SeqState.runsHelper, SoftpllState.RunsMpll,
      SoftpllState.RunsAuxs]
  rw [tagStep_log, hsequencer, hactions, hwords, List.append_nil, List.append_nil]

/-- A PLL that was stopped writes no DAC. -/
theorem Follows.silent (h : Follows s .stop) (tag : Tag) (hw : HwStatus) :
    (Softpll.step board s (.tag tag hw)).log = [] := by
  simp only [Softpll.step]
  split_ifs
  · exact tagStep_log_disabled board hw tag h.2
  · rfl

end Pll

/-! ## The server -/

section Server

variable (board : Board)

/-- The node does what it was told, and shows it. -/
structure Obeys (o : Orders) (node : RtsNode) : Prop where
  mode : node.pstate.mode = o.mode
  task : Follows node.softpll o.task
  currentRef : ∀ channel, o.task = .follow channel → asInt node.pstate.currentRef = channel
  trackers : ∀ c, TrackerBounded (node.softpll.ptrackers c)
  loopback : ∀ i, 0 ≤ (node.pstate.channels i).phaseLoopback ∧
    (node.pstate.channels i).phaseLoopback < board.clockPeriodPicoseconds

/-- A report under these orders. -/
structure Reports (o : Orders) (p : RtsPllState) : Prop where
  mode : p.mode = o.mode
  currentRef : ∀ channel, o.task = .follow channel → asInt p.currentRef = channel
  loopback : ∀ i, 0 ≤ (p.channels i).phaseLoopback ∧
    (p.channels i).phaseLoopback < board.clockPeriodPicoseconds

/-- The reply to an event under these orders. -/
def Answers (o : Orders) : RtsEvent → Option Reply → Prop
  | .request .getState, some (.state p) => Reports board o p
  | .request (.lockChannel _ _ _), some (.int value) =>
      value = if o.mode = rtsModeBc then 0 else -1
  | .request (.setMode _ _), some (.int value) => value = 0
  | .request (.adjustPhase _ _), some (.int value) => value = 0
  | .request (.enablePtracker _ _), some (.int value) => value = 0
  | .update, none => True
  | .tag _ _, none => True
  | _, _ => False

def AnswersAll : Orders → List RtsEvent → List (Option Reply) → Prop
  | _, [], [] => True
  | o, e :: es, r :: rs => Answers board o e r ∧ AnswersAll (o.step e) es rs
  | _, _, _ => False

variable {board} {o : Orders} {node : RtsNode}

theorem Obeys.reports (h : Obeys board o node) : Reports board o node.report :=
  ⟨h.mode, h.currentRef, h.loopback⟩

/-- A call of the PLL that keeps its references. -/
theorem Obeys.spll (h : Obeys board o node) {e : Event}
    (he : SameReferences node.softpll (Softpll.step board node.softpll e)) :
    Obeys board o (node.spll board e) :=
  ⟨h.mode, h.task.same he, h.currentRef, trackerBounded_step board node.softpll e h.trackers,
    h.loopback⟩

/-- The entry that a round of the main loop leaves. -/
theorem updateChannel_loopback (hboard : Supported board) {s : SoftpllState}
    (h : ∀ c, TrackerBounded (s.ptrackers c)) (currentRef : UInt32) (i : Nat) (ch : Channel) :
    0 ≤ (RtsNode.updateChannel board s currentRef i ch).phaseLoopback ∧
      (RtsNode.updateChannel board s currentRef i ch).phaseLoopback <
        board.clockPeriodPicoseconds := by
  have hbounded := spllReadPtracker_bounded hboard (h i)
  have hperiod : 0 < board.clockPeriodPicoseconds := by omega
  unfold RtsNode.updateChannel
  dsimp only
  split_ifs
  all_goals first | exact hbounded | exact ⟨Int.le_refl 0, hperiod⟩

/-- A start of the PLL for other orders. -/
theorem Obeys.restart (h : Obeys board o node) {p : RtsPllState} {e : Event} {o' : Orders}
    (hchannels : p.channels = node.pstate.channels) (hmode : p.mode = o'.mode)
    (htask : Follows (Softpll.step board node.softpll e) o'.task)
    (href : ∀ channel, o'.task = .follow channel → asInt p.currentRef = channel) :
    Obeys board o' ⟨p, Softpll.step board node.softpll e⟩ where
  mode := hmode
  task := htask
  currentRef := href
  trackers := trackerBounded_step board node.softpll e h.trackers
  loopback := by
    show ∀ i, 0 ≤ (p.channels i).phaseLoopback ∧ _
    rw [hchannels]
    exact h.loopback

theorem rtsSetMode_obeys (h : Obeys board o node) (mode : UInt32) (hw : InitStatus) :
    Obeys board (o.setMode mode) (node.rtsSetMode board mode hw) := by
  obtain ⟨hstop, hstop', hexternal, hfree, -⟩ := init_follows board node.softpll hw
  unfold RtsNode.rtsSetMode options
  by_cases hgm : mode = rtsModeGmExternal
  · subst hgm
    exact h.restart rfl rfl hexternal nofun
  by_cases hfr : mode = rtsModeGmFreerunning
  · subst hfr
    exact h.restart rfl rfl hfree nofun
  by_cases hbc : mode = rtsModeBc
  · subst hbc
    exact h.restart rfl rfl hstop nofun
  by_cases hdisabled : mode = rtsModeDisabled
  · subst hdisabled
    exact h.restart rfl rfl hstop' nofun
  -- the mode does not exist
  have hsame : (o.setMode mode).task = o.task := by
    unfold Orders.setMode
    dsimp only
    rw [if_neg hgm, if_neg hfr, if_neg (not_or.mpr ⟨hbc, hdisabled⟩)]
  rw [if_neg hgm, if_neg hfr, if_neg hbc, if_neg hdisabled]
  exact ⟨rfl, hsame.symm ▸ h.task, hsame.symm ▸ h.currentRef, h.trackers, h.loopback⟩

theorem rtsLockChannel_obeys (h : Obeys board o node) (channel priority : UInt32)
    (hw : InitStatus) :
    Obeys board (o.step (.request (.lockChannel channel priority hw)))
        (node.rtsLockChannel board channel hw).1 ∧
      (node.rtsLockChannel board channel hw).2 = if o.mode = rtsModeBc then 0 else -1 := by
  have horders : o.step (.request (.lockChannel channel priority hw)) =
      if o.mode = rtsModeBc then { o with task := .follow (asInt channel) } else o := rfl
  rw [horders]
  unfold RtsNode.rtsLockChannel
  rw [h.mode]
  by_cases hbc : o.mode = rtsModeBc
  · rw [if_neg (not_not.mpr hbc), if_pos hbc, if_pos hbc]
    have htask := (init_follows board node.softpll hw).2.2.2.2 (asInt channel)
    have hnext : Obeys board { o with task := .follow (asInt channel) }
        ⟨{ node.pstate with currentRef := channel },
          Softpll.step board node.softpll (.init .slave (asInt channel) false hw)⟩ :=
      h.restart rfl h.mode htask fun _ htask => Task.follow.inj htask
    exact ⟨hnext, rfl⟩
  · rw [if_pos hbc, if_neg hbc, if_neg hbc]
    exact ⟨h, rfl⟩

theorem rtsAdjustPhase_obeys (h : Obeys board o node) {channel phaseSetpoint : Int}
    {node' : RtsNode} (hadjust : node.rtsAdjustPhase board channel phaseSetpoint = some node') :
    Obeys board o node' := by
  have hspll := h.spll (setPhaseShift_references board node.softpll phaseSetpoint)
  unfold RtsNode.rtsAdjustPhase at hadjust
  dsimp only at hadjust
  split_ifs at hadjust with hin hneg
  obtain rfl := Option.some.inj hadjust
  refine ⟨hspll.mode, hspll.task, hspll.currentRef, hspll.trackers, fun i => ?_⟩
  by_cases hi : i = ⟨channel.toNat, hin⟩
  · subst hi
    dsimp only
    rw [Function.update_self]
    exact hspll.loopback _
  · dsimp only
    rw [Function.update_of_ne hi]
    exact hspll.loopback i

/-- One event is one event of the orders. -/
theorem step_obeys (hboard : Supported board) (h : Obeys board o node) {e : RtsEvent}
    {node' : RtsNode} {reply : Option Reply} (hstep : node.step board e = some (node', reply)) :
    Obeys board (o.step e) node' ∧ Answers board o e reply := by
  cases e with
  | update =>
      obtain ⟨rfl, rfl⟩ := Prod.mk.inj (Option.some.inj hstep)
      exact ⟨⟨h.mode, h.task, h.currentRef, h.trackers,
        fun i => updateChannel_loopback hboard h.trackers _ i _⟩, trivial⟩
  | tag tag hw =>
      obtain ⟨rfl, rfl⟩ := Prod.mk.inj (Option.some.inj hstep)
      exact ⟨h.spll (tag_references board node.softpll tag hw), trivial⟩
  | request r =>
      -- the call is counted first
      have hcounted : Obeys board o { node with
          pstate := { node.pstate with ipcCount := node.pstate.ipcCount + 1 } } :=
        ⟨h.mode, h.task, h.currentRef, h.trackers, h.loopback⟩
      cases r with
      | getState =>
          obtain ⟨rfl, rfl⟩ := Prod.mk.inj (Option.some.inj hstep)
          exact ⟨hcounted, hcounted.reports⟩
      | setMode mode hw =>
          obtain ⟨rfl, rfl⟩ := Prod.mk.inj (Option.some.inj hstep)
          exact ⟨rtsSetMode_obeys hcounted mode hw, rfl⟩
      | lockChannel channel priority hw =>
          obtain ⟨rfl, rfl⟩ := Prod.mk.inj (Option.some.inj hstep)
          exact rtsLockChannel_obeys hcounted channel priority hw
      | adjustPhase channel phaseSetpoint =>
          have hstep : (node.call board (.adjustPhase channel phaseSetpoint)).map
              (fun x => (x.1, some x.2)) = some (node', reply) := hstep
          obtain ⟨x, hcall, hx⟩ := Option.map_eq_some_iff.mp hstep
          unfold RtsNode.call at hcall
          obtain ⟨y, hadjust, hy⟩ := Option.map_eq_some_iff.mp hcall
          subst hy
          obtain ⟨rfl, rfl⟩ := Prod.mk.inj hx
          exact ⟨rtsAdjustPhase_obeys hcounted hadjust, rfl⟩
      | enablePtracker channel enable =>
          have hstep : (node.call board (.enablePtracker channel enable)).map
              (fun x => (x.1, some x.2)) = some (node', reply) := hstep
          obtain ⟨x, hcall, hx⟩ := Option.map_eq_some_iff.mp hstep
          unfold RtsNode.call at hcall
          dsimp only at hcall
          split_ifs at hcall
          obtain rfl := Option.some.inj hcall
          obtain ⟨rfl, rfl⟩ := Prod.mk.inj hx
          exact ⟨hcounted.spll (enablePtracker_references board _ _ _), rfl⟩

theorem run_obeys (hboard : Supported board) (es : List RtsEvent) (h : Obeys board o node)
    {last : RtsNode} {replies : List (Option Reply)}
    (hrun : node.run board es = some (last, replies)) :
    Obeys board (es.foldl Orders.step o) last ∧ AnswersAll board o es replies := by
  induction es generalizing o node replies with
  | nil =>
      obtain ⟨rfl, rfl⟩ := Prod.mk.inj (Option.some.inj hrun)
      exact ⟨h, trivial⟩
  | cons e es ih =>
      unfold RtsNode.run at hrun
      cases hstep : node.step board e with
      | none =>
          rw [hstep] at hrun
          exact absurd hrun nofun
      | some x =>
          rw [hstep] at hrun
          obtain ⟨y, hrest, hy⟩ := Option.map_eq_some_iff.mp hrun
          obtain ⟨rfl, rfl⟩ := Prod.mk.inj hy
          obtain ⟨hnext, hanswer⟩ := step_obeys hboard h hstep
          obtain ⟨hlast, hanswers⟩ := ih hnext hrest
          exact ⟨hlast, hanswer, hanswers⟩

theorem boot_obeys (hboard : Supported board) : Obeys board Orders.start RtsNode.boot where
  mode := rfl
  task := rfl
  currentRef := nofun
  trackers _ := trackerBounded_default
  loopback _ := by
    refine ⟨Int.le_refl 0, ?_⟩
    show 0 < board.clockPeriodPicoseconds
    rcases hboard with rfl | rfl <;> decide

/-- A request that stays inside the arrays is served. -/
theorem step_serves (board : Board) (node : RtsNode) {e : RtsEvent} (he : e.InRange) :
    ∃ node' reply, node.step board e = some (node', reply) := by
  cases e with
  | update => exact ⟨_, _, rfl⟩
  | tag tag hw => exact ⟨_, _, rfl⟩
  | request r =>
      cases r with
      | getState => exact ⟨_, _, rfl⟩
      | setMode mode hw => exact ⟨_, _, rfl⟩
      | lockChannel channel priority hw => exact ⟨_, _, rfl⟩
      | adjustPhase channel phaseSetpoint =>
          have hin : (asInt channel).toNat < rtsPllChannels ∧ ¬ asInt channel < 0 :=
            ⟨Int.toNat_lt' (by decide) |>.mpr he.2, not_lt.mpr he.1⟩
          unfold RtsNode.step RtsNode.call RtsNode.rtsAdjustPhase
          dsimp only
          rw [dif_pos hin.1, if_neg hin.2]
          exact ⟨_, _, rfl⟩
      | enablePtracker channel enable =>
          unfold RtsNode.step RtsNode.call
          dsimp only
          rw [if_neg (not_or.mpr ⟨not_lt.mpr he.1, not_le.mpr he.2⟩)]
          exact ⟨_, _, rfl⟩

theorem run_serves (board : Board) (node : RtsNode) {es : List RtsEvent} (hes : ∀ e ∈ es, e.InRange) :
    ∃ last replies, node.run board es = some (last, replies) := by
  induction es generalizing node with
  | nil => exact ⟨_, _, rfl⟩
  | cons e es ih =>
      obtain ⟨node', reply, hstep⟩ := step_serves board node
        (hes e (List.mem_cons_self ..))
      obtain ⟨last, replies, hrest⟩ := ih node' fun e he => hes e (List.mem_cons_of_mem _ he)
      refine ⟨last, reply :: replies, ?_⟩
      unfold RtsNode.run
      rw [hstep]
      dsimp only
      rw [hrest]
      rfl

/-- A boundary clock on port 2. -/
def lockPort (hw : InitStatus) : List RtsEvent :=
  [.request (.setMode rtsModeBc hw), .request (.lockChannel 2 0 hw), .update,
    .request (.adjustPhase 2 1000), .request .getState]

end Server

end Ipc
end WrpcSw
