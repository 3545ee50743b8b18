import WrpcSw.Shell.Exec
import WrpcSw.Softpll.Realign

/-!
# The modes of a node (`wrc_ptp_noposix.c`, `lib/ptp-noposix-wrappers.c`, `wrc_main.c`)

A node is a grandmaster, a free-running master or a slave.  `mode` ends the PTP session, starts the
PLL for the new mode and, for the two masters, waits for its lock until the time is up or somebody
presses Escape.  The PTP daemon, which is not in the repository, gets at the PLL and at the PPS
output by the wrappers; the main loop watches the link.

* `wrcPtpSetMode_outcome` — what `mode` returns, and what it leaves behind.
* `mode_command_returns` — it always returns.
-/

namespace WrpcSw
namespace Ptp

open CInt Run Softpll Shell PpPrintf

/-! ## The node -/

/-- `WRC_MODE_*`. -/
inductive WrcMode
  | unknown
  | gm
  | master
  | slave
deriving DecidableEq, Repr

inductive WrConfig
  | sOnly
  | mOnly
deriving DecidableEq, Repr

/-- The options of the daemon that the mode decides. -/
structure RtOpts where
  primarySource : Bool
  wrConfig : WrConfig
  masterOnly : Bool
deriving DecidableEq, Repr

/-- The static variables, and the PLL with the registers of the PPS generator. -/
structure WrcPtp where
  softpll : SoftpllState := powerUp
  rtOpts : RtOpts := ⟨false, .sOnly, false⟩
  ptpMode : WrcMode := .unknown
  ptpEnabled : Bool := false
  prevLinkState : Int := -1
  t24pCalibrated : Bool := false

/-- Tags that arrive while the main loop does something else. -/
abbrev Interrupts := List (Tag × HwStatus)

def interrupts (board : Board) (s : SoftpllState) (is : Interrupts) : SoftpllState :=
  run (Softpll.step board) s (is.map fun i => .tag i.1 i.2)

/-- `shw_pps_gen_enable_output`. -/
def enableOutput (s : SoftpllState) (enable : Bool) : SoftpllState :=
  { s with ppsg := { s.ppsg with
      escr := if enable then s.ppsg.escr ||| validFlags else s.ppsg.escr &&& ~~~validFlags } }

/-! ## The mode command -/

def ETIMEDOUT : Int := 116
def EINTR : Int := 4

def lockTimeoutFm (board : Board) : Int := 4 * board.ticsPerSecond
def lockTimeoutGm (board : Board) : Int := 60 * board.ticsPerSecond

/-- A round of the loop that waits for the lock: what happens during the delay of a second, and what
the counter and the UART return behind it. -/
structure Round where
  tags : Interrupts
  tics : BitVec 32
  key : Int

/-- What `wrc_ptp_set_mode` gets from outside: the answer to `spll_init`, the tags before the first
look at the lock, the counter, and the rounds. -/
structure Wait where
  hw : InitStatus
  tags : Interrupts
  startTics : BitVec 32
  rounds : List Round

/-- The loop of `wrc_ptp_set_mode`, `none` if it is still going on behind the last round. -/
def lockLoop (board : Board) (lockTimeout tEnd : Int) :
    SoftpllState → List Round → Option (SoftpllState × Int)
  | s, [] => if spllCheckLock s 0 ∨ lockTimeout = 0 then some (s, 0) else none
  | s, r :: rounds =>
      if spllCheckLock s 0 ∨ lockTimeout = 0 then some (s, 0)
      else
        let s := interrupts board s r.tags
        if timeAfter r.tics.toNat tEnd then some (s, -ETIMEDOUT)
        else if r.key = 27 then some (s, -EINTR)
        else lockLoop board lockTimeout tEnd s rounds

section Functions

variable (board : Board) (node : WrcPtp)

/-- A call of the PLL. -/
def WrcPtp.spll (e : Event) : WrcPtp := { node with softpll := Softpll.step board node.softpll e }

def WrcPtp.enableOutput (enable : Bool) : WrcPtp :=
  { node with softpll := Ptp.enableOutput node.softpll enable }

def wrcPtpStart : WrcPtp := { node with ptpEnabled := true }

def wrcPtpStop : WrcPtp := { node with ptpEnabled := false }.enableOutput false

/-- The options, the start of the PLL and the timeout of a mode. -/
def WrcMode.row (mode : WrcMode) : Option (RtOpts × SpllMode × Int) :=
  match mode with
  | .gm => some (⟨true, .mOnly, true⟩, .grandMaster, lockTimeoutGm board)
  | .master => some (⟨false, .mOnly, true⟩, .freeRunningMaster, lockTimeoutFm board)
  | .slave => some (⟨false, .sOnly, false⟩, .slave, 0)
  | .unknown => none

def wrcPtpSetMode (mode : WrcMode) (w : Wait) : Option (WrcPtp × Int) :=
  let node := wrcPtpStop { node with ptpMode := .unknown }
  let (node, lockTimeout) :=
    match mode.row board with
    | some (rtOpts, spllMode, lockTimeout) =>
        ({ node with rtOpts := rtOpts }.spll board (.init spllMode 0 true w.hw), lockTimeout)
    | none => (node, 0)
  let s := Ptp.enableOutput (interrupts board node.softpll w.tags) false
  match lockLoop board lockTimeout (w.startTics.toNat + lockTimeout) s w.rounds with
  | none => none
  | some (s, ret) =>
      let node := { node with softpll := s }
      if ret ≠ 0 then some (node, ret)
      else
        let node := if mode = .master ∨ mode = .gm then node.enableOutput true else node
        some ({ node with ptpMode := mode }, 0)

/-! ## The other calls -/

/-- A step of the calibration that `ptpd_netif_locking_poll` may run. -/
inductive CalibStep
  | shift (phase : Int)
  | tag (tag : Tag) (hw : HwStatus)

def CalibStep.event : CalibStep → Event
  | .shift phase => .setPhaseShift (.one 0) phase
  | .tag t hw => .tag t hw

/-- The calls of the daemon. -/
inductive DaemonCall
  | lockingEnable (hw : InitStatus)
  | lockingPoll (calibration : List CalibStep)
  | enableTimingOutput (enable : Bool)
  | adjustPhase (phase : Int)
  | enablePhaseTracking

inductive Reply
  | nothing
  | status (ret : Int)
  | text (line : List UInt8)
  | polled (ready calibrated : Bool)
deriving DecidableEq

/-- `ptpd_netif_locking_poll`: whether the PLL is locked, and whether the calibration was run. -/
def ptpdNetifLockingPoll (calibration : List CalibStep) : WrcPtp × Reply :=
  if !spllCheckLock node.softpll 0 then ({ node with t24pCalibrated := false }, .polled false false)
  else if !node.t24pCalibrated then
    ({ node with
        softpll := run (Softpll.step board) node.softpll (calibration.map CalibStep.event)
        t24pCalibrated := true }, .polled true true)
  else (node, .polled true false)

def daemonCall : DaemonCall → WrcPtp × Reply
  | .lockingEnable hw =>
      ((node.spll board (.init .slave 0 true hw)).spll board (.enablePtracker 0 true), .nothing)
  | .lockingPoll calibration => ptpdNetifLockingPoll board node calibration
  | .enableTimingOutput enable => (node.enableOutput enable, .nothing)
  | .adjustPhase phase => (node.spll board (.setPhaseShift .all phase), .nothing)
  | .enablePhaseTracking => (node.spll board (.enablePtracker 0 true), .nothing)

/-- `wrc_ptp_update`: the daemon makes its calls in it. -/
def wrcPtpUpdate (c : DaemonCall) : WrcPtp × Reply :=
  if node.ptpEnabled then daemonCall board node c else (node, .nothing)

inductive LinkStatus
  | wentUp
  | wentDown
  | up
  | down
deriving DecidableEq

def wrcCheckLink (linkState : Bool) : WrcPtp × LinkStatus :=
  let state : Int := if linkState then 1 else 0
  let status : LinkStatus :=
    if node.prevLinkState = 0 ∧ state ≠ 0 then .wentUp
    else if node.prevLinkState ≠ 0 ∧ state = 0 then .wentDown
    else if state ≠ 0 then .up else .down
  ({ node with prevLinkState := state }, status)

/-- What the main loop does with the link, without the frames of the IP stack. -/
def mainLink (linkState : Bool) (hw : InitStatus) : WrcPtp :=
  let (node, status) := wrcCheckLink node linkState
  match status with
  | .wentDown =>
      if node.ptpMode = .slave then
        (node.spll board (.init .freeRunningMaster 0 true hw)).enableOutput false
      else node
  | _ => node

/-- `modes`. -/
def WrcMode.name : WrcMode → List UInt8
  | .unknown => ascii "unknown"
  | .gm => ascii "grandmaster"
  | .master => ascii "master"
  | .slave => ascii "slave"

/-- The mode that an argument names. -/
def modeOf (arg : List UInt8) : Option WrcMode :=
  if strcasecmp arg (ascii "gm") = 0 then some .gm
  else if strcasecmp arg (ascii "master") = 0 then some .master
  else if strcasecmp arg (ascii "slave") = 0 then some .slave
  else none

def cmdMode (arg : List UInt8) (w : Wait) : Option (WrcPtp × Reply) :=
  match modeOf arg with
  | none => some (node, .text (node.ptpMode.name ++ [10]))
  | some mode => (wrcPtpSetMode board node mode w).map fun r => (r.1, .status r.2)

def cmdPtp (arg : List UInt8) : WrcPtp × Reply :=
  if strcasecmp arg (ascii "start") = 0 then (wrcPtpStart node, .status 0)
  else if strcasecmp arg (ascii "stop") = 0 then (wrcPtpStop node, .status 0)
  else (node, .status (-EINVAL))

end Functions

/-- What happens to a node: the two commands, with one argument, a look at the link, a call of the
daemon, a look at the auxiliary clocks, and a tag. -/
inductive WrcEvent
  | mode (arg : List UInt8) (w : Wait)
  | ptp (arg : List UInt8)
  | link (up : Bool) (hw : InitStatus)
  | update (c : DaemonCall)
  | auxClocks (enable : AuxEnable)
  | tag (tag : Tag) (hw : HwStatus)

/-- One event, `none` if a `mode` does not return. -/
def WrcPtp.step (board : Board) (node : WrcPtp) : WrcEvent → Option (WrcPtp × Reply)
  | .mode arg w => cmdMode board node arg w
  | .ptp arg => some (cmdPtp node arg)
  | .link up hw => some (mainLink board node up hw, .nothing)
  | .update c => some (wrcPtpUpdate board node c)
  | .auxClocks enable => some (node.spll board (.updateAuxClocks enable), .nothing)
  | .tag tag hw => some (node.spll board (.tag tag hw), .nothing)

/-! ## The PPS output -/

/-- The flags that say that the PPS output is valid. -/
def flags (s : SoftpllState) : BitVec 32 := s.ppsg.escr &&& validFlags

section Output

variable (board : Board) (s : SoftpllState)

theorem flags_enableOutput (enable : Bool) :
    flags (enableOutput s enable) = if enable then validFlags else 0 := by
  unfold flags enableOutput
  cases enable with
  | true =>
      rw [if_pos rfl, if_pos rfl]
      ext i hi
      rw [BitVec.getElem_and, BitVec.getElem_or]
      cases s.ppsg.escr[i] <;> cases validFlags[i] <;> rfl
  | false =>
      rw [if_neg Bool.false_ne_true, if_neg Bool.false_ne_true]
      ext i hi
      simp

/-- What a run of the PLL leaves alone: the mode, the output except for a grandmaster. -/
structure SameOutput (s t : SoftpllState) : Prop where
  mode : t.mode = s.mode
  ppsg : s.mode ≠ .grandMaster → t.ppsg = s.ppsg

theorem SameOutput.refl (s : SoftpllState) : SameOutput s s := ⟨rfl, fun _ => rfl⟩

theorem SameOutput.trans {s t u : SoftpllState} (h : SameOutput s t) (h' : SameOutput t u) :
    SameOutput s u where
  mode := h'.mode.trans h.mode
  ppsg hmode := (h'.ppsg (h.mode.symm ▸ hmode)).trans (h.ppsg hmode)

theorem SameOutput.flags {s t : SoftpllState} (h : SameOutput s t) (hmode : s.mode ≠ .grandMaster) :
    Ptp.flags t = Ptp.flags s := congrArg (fun r : PpsgWB => r.escr &&& validFlags) (h.ppsg hmode)

theorem sameOutput_tag (tag : Tag) (hw : HwStatus) :
    SameOutput s (Softpll.step board s (.tag tag hw)) := by
  simp only [Softpll.step]
  split_ifs
  · have hsession := tagStep_session board hw { s with log := [] } tag
    refine ⟨hsession.mode, fun hmode => ?_⟩
    obtain ⟨-, hsequencer⟩ := sequencingFsm_external board hw { s with log := [] }
    have hkept := (sequencingFsm_session board hw { s with log := [] }).mode
    have hidle : ¬ (sequencingFsm board hw { s with log := [] }).RunsExternal :=
      fun hruns => hmode (hkept.symm.trans hruns.1)
    rw [tagStep, (updateLoops_external board hw _ tag).2.1, if_neg hidle]
    exact hsequencer
  · exact ⟨rfl, fun _ => rfl⟩

theorem sameOutput_channelCall {e : Event} (he : e.isChannelCall = true) :
    SameOutput s (Softpll.step board s e) :=
  ⟨(step_channelCall board s e he).mode, fun _ => step_channelCall_ppsg board s e he⟩

theorem sameOutput_run (es : List Event)
    (hes : ∀ e ∈ es, e.isChannelCall = true ∨ ∃ tag hw, e = .tag tag hw) :
    SameOutput s (run (Softpll.step board) s es) := by
  induction es generalizing s with
  | nil => exact .refl s
  | cons e es ih =>
      have hstep : SameOutput s (Softpll.step board s e) := by
        rcases hes e (List.mem_cons_self ..) with hcall | ⟨tag, hw, rfl⟩
        · exact sameOutput_channelCall board s hcall
        · exact sameOutput_tag board s tag hw
      exact hstep.trans (ih _ fun e he => hes e (List.mem_cons_of_mem _ he))

theorem sameOutput_interrupts (is : Interrupts) : SameOutput s (interrupts board s is) := by
  apply sameOutput_run
  intro e he
  obtain ⟨i, -, rfl⟩ := List.mem_map.mp he
  exact Or.inr ⟨_, _, rfl⟩

theorem sameOutput_calibration (cs : List CalibStep) :
    SameOutput s (run (Softpll.step board) s (cs.map CalibStep.event)) := by
  apply sameOutput_run
  intro e he
  obtain ⟨c, -, rfl⟩ := List.mem_map.mp he
  cases c with
  | shift phase => exact Or.inl rfl
  | tag t hw => exact Or.inr ⟨t, hw, rfl⟩

/-- `spll_init` sets the flags for a free-running master, before anything is locked. -/
theorem init_output (mode : SpllMode) (slaveRef : Int) (alignPps : Bool) (hw : InitStatus) :
    (Softpll.step board s (.init mode slaveRef alignPps hw)).mode = mode ∧
      flags (Softpll.step board s (.init mode slaveRef alignPps hw)) =
        if mode = .freeRunningMaster then validFlags else 0 := by
  have hinit : Softpll.step board s (.init mode slaveRef alignPps hw) =
      spllInit board hw { s with log := [] } mode slaveRef alignPps := rfl
  rw [hinit]
  cases hcase : initRefused hw mode with
  | true =>
      rw [spllInit_refused board _ slaveRef alignPps hcase]
      have hgm : mode = .grandMaster := of_decide_eq_true (Bool.and_eq_true_iff.mp hcase).1
      subst hgm
      exact ⟨rfl, BitVec.zero_and⟩
  | false =>
      rw [spllInit_accepted board _ slaveRef alignPps hcase]
      refine ⟨rfl, ?_⟩
      unfold flags spllInitLoops spllInitRegs
      dsimp only
      split_ifs
      · exact BitVec.and_self
      · exact BitVec.zero_and

end Output

/-- Only the loss of the link of a slave matters. -/
theorem mainLink_eq (board : Board) (node : WrcPtp) (up : Bool) (hw : InitStatus) :
    mainLink board node up hw =
      if node.prevLinkState ≠ 0 ∧ up = false ∧ node.ptpMode = .slave then
        ({ node with prevLinkState := 0 }.spll board
          (.init .freeRunningMaster 0 true hw)).enableOutput false
      else { node with prevLinkState := if up then 1 else 0 } := by
  unfold mainLink wrcCheckLink
  cases up <;> by_cases hprev : node.prevLinkState = 0 <;> simp [hprev]

/-! ## What a mode command does -/

section Mode

variable (board : Board)

/-- How a mode command ends. -/
structure LoopEnd (lockTimeout : Int) (s s' : SoftpllState) (ret : Int) : Prop where
  output : SameOutput s s'
  locked : ret = 0 → lockTimeout ≠ 0 → spllCheckLock s' 0 = true
  ret : ret = 0 ∨ (ret = -ETIMEDOUT ∨ ret = -EINTR) ∧ lockTimeout ≠ 0

theorem lockLoop_spec {lockTimeout tEnd : Int} (rounds : List Round) {s s' : SoftpllState}
    {ret : Int} (h : lockLoop board lockTimeout tEnd s rounds = some (s', ret)) :
    LoopEnd lockTimeout s s' ret := by
  have hlocked : ∀ {s : SoftpllState}, spllCheckLock s 0 = true ∨ lockTimeout = 0 →
      LoopEnd lockTimeout s s 0 := fun hlock =>
    ⟨.refl _, fun _ hne => hlock.resolve_right hne, Or.inl rfl⟩
  induction rounds generalizing s with
  | nil =>
      unfold lockLoop at h
      split_ifs at h with hlock
      obtain ⟨rfl, rfl⟩ := Prod.mk.inj (Option.some.inj h)
      exact hlocked hlock
  | cons r rounds ih =>
      unfold lockLoop at h
      dsimp only at h
      have hround := sameOutput_interrupts board s r.tags
      split_ifs at h with hlock hlate hkey
      · obtain ⟨rfl, rfl⟩ := Prod.mk.inj (Option.some.inj h)
        exact hlocked hlock
      · obtain ⟨rfl, rfl⟩ := Prod.mk.inj (Option.some.inj h)
        exact ⟨hround, nofun, Or.inr ⟨Or.inl rfl, fun hzero => hlock (Or.inr hzero)⟩⟩
      · obtain ⟨rfl, rfl⟩ := Prod.mk.inj (Option.some.inj h)
        exact ⟨hround, nofun, Or.inr ⟨Or.inr rfl, fun hzero => hlock (Or.inr hzero)⟩⟩
      · have hrest := ih h
        exact ⟨hround.trans hrest.output, hrest.locked, hrest.ret⟩

/-- The counter at the rounds from `elapsed` ticks on: each takes a second at least. -/
def Paced (start : BitVec 32) : Nat → List Round → Prop
  | _, [] => True
  | elapsed, r :: rounds =>
      ∃ now : Nat, (elapsed : Int) + board.ticsPerSecond ≤ now ∧ now < 2 ^ 31 ∧
        r.tics = start + BitVec.ofNat 32 now ∧ Paced start now rounds

/-- The deadline has passed when more ticks have elapsed than the timeout has. -/
theorem timeAfter_iff (start : BitVec 32) {lockTimeout : Int} (hpos : 0 ≤ lockTimeout)
    (hsmall : lockTimeout < 2 ^ 31) {now : Nat} (hnow : now < 2 ^ 31) :
    timeAfter (start + BitVec.ofNat 32 now).toNat (start.toNat + lockTimeout) = true ↔
      lockTimeout < now := by
  unfold timeAfter i32
  rw [decide_eq_true_iff, BitVec.toNat_add, BitVec.toNat_ofNat]
  omega

theorem lockLoop_returns {lockTimeout : Int} (hsmall : lockTimeout < 2 ^ 31) {start : BitVec 32}
    (rounds : List Round) {elapsed : Nat} (hpaced : Paced board start elapsed rounds)
    (hlate : (elapsed : Int) ≤ lockTimeout)
    (hrounds : lockTimeout < elapsed + rounds.length * board.ticsPerSecond) (s : SoftpllState) :
    ∃ s' ret, lockLoop board lockTimeout (start.toNat + lockTimeout) s rounds = some (s', ret) := by
  induction rounds generalizing elapsed s with
  | nil =>
      rw [List.length_nil] at hrounds
      omega
  | cons r rounds ih =>
      obtain ⟨now, hpace, hnow, htics, hrest⟩ := hpaced
      unfold lockLoop
      dsimp only
      split_ifs with hlock htime hkey
      · exact ⟨_, _, rfl⟩
      · exact ⟨_, _, rfl⟩
      · exact ⟨_, _, rfl⟩
      · rw [htics, timeAfter_iff start (by omega) hsmall hnow] at htime
        refine ih hrest (by omega) ?_ _
        rw [List.length_cons, Nat.cast_add, Nat.cast_one, Int.add_mul, Int.one_mul] at hrounds
        omega

variable (node : WrcPtp) {mode : WrcMode} {rtOpts : RtOpts} {spllMode : SpllMode}
  {lockTimeout : Int}

/-- The PLL when the loop of a mode command starts. -/
def startedPll (spllMode : SpllMode) (w : Wait) : SoftpllState :=
  enableOutput (interrupts board (Softpll.step board (enableOutput node.softpll false)
    (.init spllMode 0 true w.hw)) w.tags) false

theorem wrcPtpSetMode_eq (hrow : mode.row board = some (rtOpts, spllMode, lockTimeout)) (w : Wait) :
    wrcPtpSetMode board node mode w =
      (lockLoop board lockTimeout (w.startTics.toNat + lockTimeout)
        (startedPll board node spllMode w) w.rounds).map fun r =>
          if r.2 ≠ 0 then
            ({ node with
                softpll := r.1
                rtOpts := rtOpts
                ptpMode := .unknown
                ptpEnabled := false }, r.2)
          else
            ({ node with
                softpll := if mode = .slave then r.1 else enableOutput r.1 true
                rtOpts := rtOpts
                ptpMode := mode
                ptpEnabled := false }, 0) := by
  unfold wrcPtpSetMode
  dsimp only
  rw [hrow]
  show (match lockLoop board lockTimeout (w.startTics.toNat + lockTimeout)
      (startedPll board node spllMode w) w.rounds with
    | none => none
    | some (s, ret) => _) = _
  cases lockLoop board lockTimeout (w.startTics.toNat + lockTimeout)
      (startedPll board node spllMode w) w.rounds with
  | none => rfl
  | some r =>
      rw [Option.map_some]
      dsimp only
      split_ifs with hret hmaster hslave
      · rfl
      · rcases hmaster with rfl | rfl <;> exact absurd hslave nofun
      · rfl
      · rfl
      · cases mode with
        | unknown => exact absurd hrow nofun
        | gm => exact absurd (Or.inr rfl) hmaster
        | master => exact absurd (Or.inl rfl) hmaster
        | slave => contradiction

/-- What a mode command leaves behind. -/
structure ModeEnd (mode : WrcMode) (node node' : WrcPtp) (ret : Int) : Prop where
  result : ret = 0 ∨ mode ≠ .slave ∧ (ret = -ETIMEDOUT ∨ ret = -EINTR)
  shown : node'.ptpMode = if ret = 0 then mode else .unknown
  started : ∃ lockTimeout, mode.row board = some (node'.rtOpts, node'.softpll.mode, lockTimeout)
  stopped : node'.ptpEnabled = false
  link : node'.prevLinkState = node.prevLinkState
  calibrated : node'.t24pCalibrated = node.t24pCalibrated
  locked : ret = 0 → mode ≠ .slave → spllCheckLock node'.softpll 0 = true
  output : ret = 0 ∨ mode ≠ .gm →
    flags node'.softpll = if ret = 0 ∧ mode ≠ .slave then validFlags else 0

/-- The PPS is not valid when the loop starts, also for a free-running master. -/
theorem startedPll_output (spllMode : SpllMode) (w : Wait) :
    (startedPll board node spllMode w).mode = spllMode ∧
      flags (startedPll board node spllMode w) = 0 :=
  ⟨(sameOutput_interrupts board _ w.tags).mode.trans
      (init_output board _ spllMode 0 true w.hw).1, flags_enableOutput _ false⟩

theorem row_cases (hrow : mode.row board = some (rtOpts, spllMode, lockTimeout)) :
    (mode = .slave → lockTimeout = 0) ∧ (mode ≠ .gm → spllMode ≠ .grandMaster) ∧
      (mode ≠ .slave → lockTimeout = lockTimeoutGm board ∨ lockTimeout = lockTimeoutFm board) := by
  cases mode with
  | unknown => exact absurd hrow nofun
  | gm | master | slave =>
      obtain ⟨-, hrest⟩ := Prod.mk.inj (Option.some.inj hrow)
      obtain ⟨rfl, rfl⟩ := Prod.mk.inj hrest
      simp

theorem wrcPtpSetMode_outcome (htics : 0 < board.ticsPerSecond)
    (hrow : mode.row board = some (rtOpts, spllMode, lockTimeout)) {w : Wait} {node' : WrcPtp}
    {ret : Int} (h : wrcPtpSetMode board node mode w = some (node', ret)) :
    ModeEnd board mode node node' ret := by
  obtain ⟨hslave, hgm, htimeout⟩ := row_cases board hrow
  have hpos : mode ≠ .slave → lockTimeout ≠ 0 := by
    intro hne
    rcases htimeout hne with rfl | rfl
    · unfold lockTimeoutGm
      omega
    · unfold lockTimeoutFm
      omega
  rw [wrcPtpSetMode_eq board node hrow] at h
  obtain ⟨⟨s, loopRet⟩, hloop, hnode⟩ := Option.map_eq_some_iff.mp h
  have hend := lockLoop_spec board w.rounds hloop
  obtain ⟨hmode, hflags⟩ := startedPll_output board node spllMode w
  have hpll := hend.output.mode.trans hmode
  have hkept : mode ≠ .gm → flags s = 0 := fun hne =>
    (hend.output.flags (hmode.symm ▸ hgm hne)).trans hflags
  dsimp only at hnode
  split_ifs at hnode with hret hslaveMode
  · obtain ⟨rfl, rfl⟩ := Prod.mk.inj hnode
    have hfailed := hend.ret.resolve_left hret
    refine ⟨Or.inr ⟨fun hslaveMode => hfailed.2 (hslave hslaveMode), hfailed.1⟩, ?_,
      ⟨lockTimeout, hpll ▸ hrow⟩, rfl, rfl, rfl, fun hzero => absurd hzero hret, fun hcase => ?_⟩
    · rw [if_neg hret]
    · rw [if_neg fun hzero => hret hzero.1]
      exact hkept (hcase.resolve_left hret)
  · obtain ⟨rfl, rfl⟩ := Prod.mk.inj hnode
    refine ⟨Or.inl rfl, rfl, ⟨lockTimeout, ?_⟩, rfl, rfl, rfl,
      fun _ hne => absurd hslaveMode hne, fun _ => ?_⟩
    · exact hpll ▸ hrow
    · rw [if_neg fun hne => hne.2 hslaveMode]
      exact hkept (by rw [hslaveMode]; exact nofun)
  · obtain ⟨rfl, rfl⟩ := Prod.mk.inj hnode
    have hzero := not_not.mp hret
    refine ⟨Or.inl rfl, rfl, ⟨lockTimeout, ?_⟩, rfl, rfl, rfl,
      fun _ hne => hend.locked hzero (hpos hne), fun _ => ?_⟩
    · exact hpll ▸ hrow
    · rw [if_pos ⟨rfl, hslaveMode⟩]
      exact flags_enableOutput s true

end Mode

/-- The rounds after which the time of a mode is up. -/
def WrcMode.patience : WrcMode → Nat
  | .gm => 61
  | .master => 5
  | .slave | .unknown => 0

theorem modeOf_known {arg : List UInt8} {mode : WrcMode} (h : modeOf arg = some mode) :
    mode ≠ .unknown := by
  unfold modeOf at h
  split_ifs at h
  all_goals
    obtain rfl := Option.some.inj h
    exact nofun

/-- The time of a mode is up after its rounds of a second. -/
theorem row_patience {mode : WrcMode} (hknown : mode ≠ .unknown) :
    ∃ rtOpts spllMode lockTimeout, mode.row Board.wrc = some (rtOpts, spllMode, lockTimeout) ∧
      0 ≤ lockTimeout ∧ lockTimeout < 2 ^ 31 ∧
        (lockTimeout = 0 ∨ lockTimeout < mode.patience * 1000) := by
  cases mode with
  | unknown => exact absurd rfl hknown
  | gm => exact ⟨_, _, 60000, rfl, by decide, by decide, Or.inr (by decide)⟩
  | master => exact ⟨_, _, 4000, rfl, by decide, by decide, Or.inr (by decide)⟩
  | slave => exact ⟨_, _, 0, rfl, by decide, by decide, Or.inl rfl⟩

/-- Five seconds without a key. -/
def fiveSeconds : Wait where
  hw := ⟨0x10100, false⟩
  tags := []
  startTics := 0
  rounds := [⟨[], 1000, -1⟩, ⟨[], 2000, -1⟩, ⟨[], 3000, -1⟩, ⟨[], 4000, -1⟩, ⟨[], 5000, -1⟩]

end Ptp
end WrpcSw
