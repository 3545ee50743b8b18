import WrpcSw.Ptp.WrcPtp

/-!
# What a node tells about its time

Over whole runs of a node: the commands and the link decide what the PLL is for and whether the PPS
output is valid, the daemon has a say in it during a session only.

* `Timing.step` — the node without its PLL: who asked for what, and what the replies were.
* `node_refines_timing` — the code does exactly that, in every run.
-/

namespace WrpcSw
namespace Ptp

open CInt Run Softpll Shell PpPrintf

/-! ## The abstract node -/

/-- The mode that is shown and the one that was asked for last, what the PLL is for, whether there
is a session, whether the PPS is valid, the link as it was seen last, and whether the last poll of
the daemon found the PLL locked. -/
structure Timing where
  shown : WrcMode
  asked : WrcMode
  duty : SpllMode
  session : Bool
  valid : Bool
  link : Bool
  lockSeen : Bool

/-- At the beginning no mode is shown, the options are those of a slave, and the link is taken to
be up. -/
def Timing.start : Timing := ⟨.unknown, .slave, .none, false, false, true, false⟩

/-- What the PLL is for in a mode. -/
def dutyOf : WrcMode → SpllMode
  | .gm => .grandMaster
  | .master => .freeRunningMaster
  | .slave => .slave
  | .unknown => .none

namespace Timing

variable (t : Timing)

/-- A mode command that returned `ret`. -/
def setMode (mode : WrcMode) (ret : Int) : Timing :=
  { t with
    shown := if ret = 0 then mode else .unknown
    asked := mode
    duty := dutyOf mode
    session := false
    valid := decide (ret = 0 ∧ mode ≠ .slave) }

/-- A slave that loses its link runs freely, without an output. -/
def look (up : Bool) : Timing :=
  if t.link && !up && decide (t.shown = .slave) then
    { t with duty := .freeRunningMaster, valid := false, link := up }
  else { t with link := up }

def daemon : DaemonCall → Reply → Timing
  | .lockingEnable _, _ => { t with duty := .slave, valid := false }
  | .lockingPoll _, .polled ready _ => { t with lockSeen := ready }
  | .enableTimingOutput enable, _ => { t with valid := enable }
  | _, _ => t

/-- One event with its reply. -/
def step : WrcEvent → Reply → Timing
  | .mode arg _, .status ret =>
      match modeOf arg with
      | some mode => t.setMode mode ret
      | none => t
  | .ptp arg, _ =>
      if strcasecmp arg (ascii "start") = 0 then { t with session := true }
      else if strcasecmp arg (ascii "stop") = 0 then { t with session := false, valid := false }
      else t
  | .link up _, _ => t.look up
  | .update c, reply => if t.session then t.daemon c reply else t
  | _, _ => t

end Timing

/-! ## The refinement -/

/-- A node in this state.  A grandmaster sets the flags of its output by itself, when it has aligned
it. -/
structure Shows (t : Timing) (node : WrcPtp) : Prop where
  shown : node.ptpMode = t.shown
  options : ∃ spllMode lockTimeout, t.asked.row Board.wrc =
    some (node.rtOpts, spllMode, lockTimeout)
  duty : node.softpll.mode = t.duty
  session : node.ptpEnabled = t.session
  link : node.prevLinkState ≠ 0 ↔ t.link = true
  lockSeen : node.t24pCalibrated = t.lockSeen
  output : t.duty ≠ .grandMaster → flags node.softpll = if t.valid then validFlags else 0
  permitted : t.valid = true → t.duty ≠ .grandMaster → t.shown = .master ∨ t.session = true

/-- The reply to `mode`: the mode that is shown, or how the command has ended. -/
def AnswersMode (t : Timing) (node' : WrcPtp) (reply : Reply) : Option WrcMode → Prop
  | none => reply = .text (t.shown.name ++ [10])
  | some mode => ∃ ret, reply = .status ret ∧
      (ret = 0 ∨ mode ≠ .slave ∧ (ret = -ETIMEDOUT ∨ ret = -EINTR)) ∧
      (ret = 0 → mode ≠ .slave →
        spllCheckLock node'.softpll 0 = true ∧ flags node'.softpll = validFlags)

/-- The reply to an event, between two states of the node. -/
def Answers (t : Timing) (node node' : WrcPtp) : WrcEvent → Reply → Prop
  | .mode arg _, reply => AnswersMode t node' reply (modeOf arg)
  | .update (.lockingPoll _), reply => t.session = true →
      reply = .polled (spllCheckLock node.softpll 0) (spllCheckLock node.softpll 0 && !t.lockSeen)
  | _, _ => True

/-- A run goes on in these states and with these replies, up to a mode command that does not
return. -/
def Refines : Timing → WrcPtp → List WrcEvent → Prop
  | t, node, [] => Shows t node
  | t, node, e :: es => Shows t node ∧ ∀ node' reply, node.step Board.wrc e = some (node', reply) →
      Answers t node node' e reply ∧ Refines (t.step e reply) node' es

section Steps

variable {t : Timing} {node : WrcPtp}

/-- A call of the PLL that keeps its mode and the output. -/
theorem Shows.spll (h : Shows t node) {s : SoftpllState} (hs : SameOutput node.softpll s) :
    Shows t { node with softpll := s } :=
  { h with
    duty := hs.mode.trans h.duty
    output := fun hduty => (hs.flags (h.duty.symm ▸ hduty)).trans (h.output hduty) }

theorem row_dutyOf {mode : WrcMode} {rtOpts : RtOpts} {spllMode : SpllMode} {lockTimeout : Int}
    (h : mode.row Board.wrc = some (rtOpts, spllMode, lockTimeout)) : spllMode = dutyOf mode := by
  cases mode with
  | unknown => exact absurd h nofun
  | gm | master | slave => exact ((Prod.mk.inj (Prod.mk.inj (Option.some.inj h)).2).1).symm

/-- A mode command. -/
theorem Shows.modeEnd (h : Shows t node) {mode : WrcMode} {node' : WrcPtp} {ret : Int}
    (hend : ModeEnd Board.wrc mode node node' ret) : Shows (t.setMode mode ret) node' := by
  obtain ⟨lockTimeout, hrow⟩ := hend.started
  have hduty := row_dutyOf hrow
  refine ⟨hend.shown, ⟨_, _, hrow⟩, hduty, hend.stopped, ?_, hend.calibrated.trans h.lockSeen, ?_,
    ?_⟩
  · rw [hend.link]
    exact h.link
  · intro hne
    have hcase : ret = 0 ∨ mode ≠ .gm := Or.inr fun hgm => hne (by rw [hgm]; rfl)
    exact (hend.output hcase).trans (if_congr decide_eq_true_iff.symm rfl rfl)
  · intro hvalid hne
    obtain ⟨hret, hslave⟩ := of_decide_eq_true hvalid
    refine Or.inl ?_
    show (if ret = 0 then mode else .unknown) = .master
    rw [if_pos hret]
    cases mode with
    | unknown => exact absurd hrow nofun
    | gm => exact absurd rfl hne
    | master => rfl
    | slave => exact absurd rfl hslave

theorem mode_shows (h : Shows t node) (arg : List UInt8) (w : Wait) {node' : WrcPtp}
    {reply : Reply} (hstep : cmdMode Board.wrc node arg w = some (node', reply)) :
    Shows (t.step (.mode arg w) reply) node' ∧ Answers t node node' (.mode arg w) reply := by
  unfold cmdMode at hstep
  show _ ∧ AnswersMode t node' reply (modeOf arg)
  cases harg : modeOf arg with
  | none =>
      rw [harg] at hstep
      obtain ⟨rfl, rfl⟩ := Prod.mk.inj (Option.some.inj hstep)
      have hshown : AnswersMode t node (.text (node.ptpMode.name ++ [10])) none := by
        rw [h.shown]
        rfl
      exact ⟨h, hshown⟩
  | some mode =>
      rw [harg] at hstep
      obtain ⟨⟨node'', ret⟩, hset, hnode⟩ := Option.map_eq_some_iff.mp hstep
      obtain ⟨rfl, rfl⟩ := Prod.mk.inj hnode
      obtain ⟨rtOpts, spllMode, lockTimeout, hrow, -⟩ := row_patience (modeOf_known harg)
      have hend := wrcPtpSetMode_outcome Board.wrc node (by decide) hrow hset
      have hnext : t.step (.mode arg w) (.status ret) = t.setMode mode ret := by
        unfold Timing.step
        dsimp only
        rw [harg]
      rw [hnext]
      refine ⟨h.modeEnd hend, ret, rfl, hend.result, fun hret hslave => ?_⟩
      refine ⟨hend.locked hret hslave, ?_⟩
      rw [hend.output (Or.inl hret), if_pos ⟨hret, hslave⟩]

theorem ptp_shows (h : Shows t node) (arg : List UInt8) (reply : Reply) :
    Shows (t.step (.ptp arg) reply) (cmdPtp node arg).1 := by
  have hstep : t.step (.ptp arg) reply =
      if strcasecmp arg (ascii "start") = 0 then { t with session := true }
      else if strcasecmp arg (ascii "stop") = 0 then { t with session := false, valid := false }
      else t := rfl
  rw [hstep]
  unfold cmdPtp
  split_ifs with hstart hstop
  · exact { h with session := rfl, permitted := fun _ _ => Or.inr rfl }
  · exact
      { h with
        session := rfl
        output := fun _ => flags_enableOutput node.softpll false
        permitted := fun hvalid => absurd hvalid nofun }
  · exact h

/-- A look at the link. -/
theorem link_shows (h : Shows t node) (up : Bool) (hw : InitStatus) :
    Shows (t.look up) (mainLink Board.wrc node up hw) := by
  have hseen : Shows { t with link := up } { node with prevLinkState := if up then 1 else 0 } := by
    refine { h with link := ?_ }
    cases up with
    | true => exact ⟨fun _ => rfl, fun _ => nofun⟩
    | false => exact ⟨fun hne => absurd rfl hne, nofun⟩
  have hlost : (t.link && !up && decide (t.shown = .slave)) = true ↔
      node.prevLinkState ≠ 0 ∧ up = false ∧ node.ptpMode = .slave := by
    rw [h.link, h.shown, Bool.and_eq_true, Bool.and_eq_true, Bool.not_eq_true', decide_eq_true_iff,
      and_assoc]
  rw [mainLink_eq]
  unfold Timing.look
  by_cases hcase : node.prevLinkState ≠ 0 ∧ up = false ∧ node.ptpMode = .slave
  · rw [if_pos (hlost.mpr hcase), if_pos hcase]
    obtain ⟨-, rfl, -⟩ := hcase
    exact
      { hseen with
        duty := (init_output Board.wrc _ _ 0 true hw).1
        output := fun _ => flags_enableOutput _ false
        permitted := fun hvalid => absurd hvalid nofun }
  · rw [if_neg fun hlink => hcase (hlost.mp hlink), if_neg hcase]
    exact hseen

/-- A call of the daemon during a session. -/
theorem daemon_shows (h : Shows t node) (hsession : t.session = true) (c : DaemonCall) :
    Shows (t.daemon c (daemonCall Board.wrc node c).2) (daemonCall Board.wrc node c).1 := by
  cases c with
  | lockingEnable hw =>
      obtain ⟨hmode, hflags⟩ := init_output Board.wrc node.softpll .slave 0 true hw
      have htracker := sameOutput_channelCall Board.wrc
        (Softpll.step Board.wrc node.softpll (.init .slave 0 true hw))
        (e := .enablePtracker 0 true) rfl
      exact
        { h with
          duty := htracker.mode.trans hmode
          output := fun _ => (htracker.flags (by rw [hmode]; exact nofun)).trans hflags
          permitted := fun hvalid => absurd hvalid nofun }
  | lockingPoll calibration =>
      unfold daemonCall ptpdNetifLockingPoll
      dsimp only
      cases hlock : spllCheckLock node.softpll 0 with
      | false =>
          exact { h with lockSeen := rfl }
      | true =>
          rw [if_neg (by decide)]
          split_ifs with hfirst
          · have hcalibration := h.spll (sameOutput_calibration Board.wrc node.softpll calibration)
            exact { hcalibration with lockSeen := rfl }
          · have hseen : node.t24pCalibrated = true := by simpa using hfirst
            exact { h with lockSeen := hseen }
  | enableTimingOutput enable =>
      exact
        { h with
          output := fun _ => flags_enableOutput node.softpll enable
          permitted := fun _ _ => Or.inr hsession }
  | adjustPhase phase => exact h.spll (sameOutput_channelCall Board.wrc node.softpll rfl)
  | enablePhaseTracking => exact h.spll (sameOutput_channelCall Board.wrc node.softpll rfl)

/-- The receiver is calibrated when a poll finds the PLL locked and the last one did not. -/
theorem daemonCall_answers (h : Shows t node) (c : DaemonCall) :
    Answers t node (daemonCall Board.wrc node c).1 (.update c)
      (daemonCall Board.wrc node c).2 := by
  cases c with
  | lockingPoll calibration =>
      intro _
      show (ptpdNetifLockingPoll Board.wrc node calibration).2 = _
      rw [← h.lockSeen]
      unfold ptpdNetifLockingPoll
      cases spllCheckLock node.softpll 0 <;> cases node.t24pCalibrated <;> rfl
  | lockingEnable | enableTimingOutput | adjustPhase | enablePhaseTracking => trivial

/-- One event is one event of the abstract node. -/
theorem step_shows (h : Shows t node) (e : WrcEvent) {node' : WrcPtp} {reply : Reply}
    (hstep : node.step Board.wrc e = some (node', reply)) :
    Shows (t.step e reply) node' ∧ Answers t node node' e reply := by
  cases e with
  | mode arg w => exact mode_shows h arg w hstep
  | ptp arg =>
      obtain ⟨rfl, rfl⟩ := Prod.mk.inj (Option.some.inj hstep)
      exact ⟨ptp_shows h arg _, trivial⟩
  | link up hw =>
      obtain ⟨rfl, rfl⟩ := Prod.mk.inj (Option.some.inj hstep)
      exact ⟨link_shows h up hw, trivial⟩
  | update c =>
      have hupdate : wrcPtpUpdate Board.wrc node c = (node', reply) := Option.some.inj hstep
      have hnext : t.step (.update c) reply = if t.session then t.daemon c reply else t := rfl
      unfold wrcPtpUpdate at hupdate
      rw [h.session] at hupdate
      rw [hnext]
      cases hsession : t.session with
      | false =>
          rw [hsession, if_neg Bool.false_ne_true] at hupdate
          obtain ⟨rfl, rfl⟩ := Prod.mk.inj hupdate
          refine ⟨h, ?_⟩
          cases c with
          | lockingPoll calibration =>
              exact fun hopen : t.session = true => absurd (hsession.symm.trans hopen) nofun
          | lockingEnable | enableTimingOutput | adjustPhase | enablePhaseTracking => trivial
      | true =>
          rw [hsession, if_pos rfl] at hupdate
          have hshows := daemon_shows h hsession c
          have hanswer := daemonCall_answers h c
          rw [hupdate] at hshows hanswer
          exact ⟨hshows, hanswer⟩
  | auxClocks enable =>
      obtain ⟨rfl, rfl⟩ := Prod.mk.inj (Option.some.inj hstep)
      exact ⟨h.spll (sameOutput_channelCall Board.wrc node.softpll rfl), trivial⟩
  | tag tag hw =>
      obtain ⟨rfl, rfl⟩ := Prod.mk.inj (Option.some.inj hstep)
      exact ⟨h.spll (sameOutput_tag Board.wrc node.softpll tag hw), trivial⟩

end Steps

/-- A run that starts in a state goes on in the states that follow. -/
theorem Shows.refines {t : Timing} {node : WrcPtp} (h : Shows t node) (es : List WrcEvent) :
    Refines t node es := by
  induction es generalizing t node with
  | nil => exact h
  | cons e es ih =>
      refine ⟨h, fun node' reply hstep => ?_⟩
      obtain ⟨hnext, hanswer⟩ := step_shows h e hstep
      exact ⟨hanswer, ih hnext⟩

theorem shows_start : Shows .start {} where
  shown := rfl
  options := ⟨_, _, rfl⟩
  duty := rfl
  session := rfl
  link := ⟨fun _ => rfl, fun _ => nofun⟩
  lockSeen := rfl
  output _ := rfl
  permitted := nofun

/-- In every run from boot, whatever is typed, whatever the daemon calls during its sessions, and
however the link and the tags come in between: the mode that is shown, the options of the daemon,
the task of the PLL and the validity of the PPS are those that follow from the events and the
replies, a master reports success with a locked PLL and a valid PPS only, and the receiver is
calibrated once for each lock that the daemon sees.  Apart from a grandmaster, which sets the flags
of its output by itself, only a master has a valid PPS outside a session. -/
theorem node_refines_timing (es : List WrcEvent) : Refines .start {} es :=
  shows_start.refines es

end Ptp
end WrpcSw
