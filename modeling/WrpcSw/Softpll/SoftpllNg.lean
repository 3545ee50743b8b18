import Mathlib.Logic.Function.Basic
import WrpcSw.Lib.Run
import WrpcSw.Softpll.Helper
import WrpcSw.Softpll.MainPll
import WrpcSw.Softpll.External
import WrpcSw.Softpll.Ptracker

/-!
# The SoftPLL (`softpll/softpll_ng.c`)

One flat state holds `struct softpll_state`, the globals of the file, the
registers it works on and the interrupt enable.  Every public call and every
tag of the interrupt handler is a function on it, and `step` runs them as the
events of a transition system: the tag interrupts and the calls of the main
loop interleave in any order.

`log` collects what one step does to the outside: the words written to the two
DACs, the starts and stops of the channels' PLLs, the assignments to the state
of an aux channel and the lock status reported for it.  Nothing reads it back.
-/

namespace WrpcSw
namespace Softpll

open CInt

/-- `SPLL_MODE_*`; `none` is the value 0 before the first `spll_init`. -/
inductive SpllMode
  | none
  | grandMaster
  | freeRunningMaster
  | slave
  | disabled
deriving DecidableEq, Repr

/-- `SEQ_*`; `none` is the value 0 before the first `spll_init`. -/
inductive SeqState
  | none
  | startExt
  | waitExt
  | startHelper
  | waitHelper
  | startMain
  | waitMain
  | disabled
  | ready
  | clearDacs
  | waitClearDacs
deriving DecidableEq, Repr

/-- `AUX_*`; `none` is the value 0 before the first `spll_init`. -/
inductive AuxSeqState
  | none
  | disabled
  | lockPll
  | alignPhase
  | ready
deriving DecidableEq, Repr

/-- State of an aux channel (`struct spll_aux_state`). -/
structure SpllAuxState where
  seqState : AuxSeqState := .none
  dmtd : SpllMainState := {}

/-- What a step does to the outside.  Channel 0 is the main PLL, channel
`i + 1` the PLL of `aux[i]`. -/
inductive Action
  | dacHpll (y : Int)
  | dacMain (word : DacMain)
  | mpllStart (channel : Nat)
  | mpllStop (channel : Nat)
  | auxSeqState (channel : Nat) (state : AuxSeqState)
  | auxStatus (channel : Nat) (locked : Bool)
deriving DecidableEq, Repr

/-- `struct softpll_state` with the globals, registers and interrupt enable
around it.  The default value is the zero-initialised state at power-up. -/
structure SoftpllState where
  mode : SpllMode := .none
  seqState : SeqState := .none
  dacTimeout : Int := 0
  delockCount : Int := 0
  mpllShiftPs : Int := 0
  helper : SpllHelperState := {}
  ext : SpllExternalState := {}
  mpll : SpllMainState := {}
  aux : Nat → SpllAuxState := fun _ => {}
  ptrackers : Nat → SpllPtrackerState := fun _ => {}
  nChanRef : Nat := 0
  nChanOut : Nat := 0
  ptrackerMask : BitVec 32 := 0
  ptrackerTagRef : Int := -1
  spll : SpllWB := {}
  ppsg : PpsgWB := {}
  irqEnabled : Bool := false
  log : List Action := []

/-- The state at power-up. -/
def powerUp : SoftpllState := {}

/-- One word of the tag FIFO (`TRR_R0`). -/
structure Tag where
  value : BitVec 24
  chanId : BitVec 7
deriving DecidableEq, Repr

/-- `SPLL_TRR_R0_VALUE_R` and `SPLL_TRR_R0_CHAN_ID_R`. -/
def Tag.ofTrr (trr : BitVec 32) : Tag where
  value := trr.extractLsb' 0 24
  chanId := trr.extractLsb' 24 7

/-! ## The sequencer -/

def startPtracker (s : SoftpllState) (i : Nat) : SoftpllState :=
  if s.ptrackerMask.getLsbD i then
    let r := ptrackerStart s.nChanRef (s.ptrackers i) s.spll
    { s with ptrackers := Function.update s.ptrackers i r.1, spll := r.2 }
  else s

def startPtrackers (s : SoftpllState) : SoftpllState :=
  (List.range s.nChanRef).foldl startPtracker s

def startHelper (s : SoftpllState) : SoftpllState :=
  let r := helperStart s.nChanRef s.helper s.spll
  { s with helper := r.1, spll := r.2, seqState := .waitHelper }

def startMain (s : SoftpllState) : SoftpllState :=
  let r := mpllStart s.nChanRef s.mpll s.spll
  { s with mpll := r.1, spll := r.2, seqState := .waitMain, log := s.log ++ [.mpllStart 0] }

def startExternal (s : SoftpllState) : SoftpllState :=
  let r := externalStart s.ext ⟨spllEnableTagger s.nChanRef s.spll s.nChanRef false, s.ppsg⟩
  { s with ext := r.1, spll := r.2.spll, ppsg := r.2.ppsg, seqState := .waitExt }

def sequencingFsm (board : Board) (hw : HwStatus) (s : SoftpllState) : SoftpllState :=
  match s.seqState with
  | .clearDacs =>
      { s with
        spll := spllEnableTagger s.nChanRef s.spll s.nChanRef true
        dacTimeout := i32 (hw.tics.toNat + board.ticsPerSecond / 20)
        seqState := .waitClearDacs
        log := s.log ++ [.dacHpll s.helper.pi.yMax,
          .dacMain (dacMainOfInt ((s.mpll.pi.yMax + s.mpll.pi.yMin).tdiv 2))] }
  | .waitClearDacs =>
      if timeAfter hw.tics.toNat s.dacTimeout then
        if s.mode = .grandMaster then { s with seqState := .startExt }
        else { s with seqState := .startHelper }
      else s
  | .disabled | .none => s
  | .startExt => startExternal s
  | .waitExt => if externalLocked s.ext then { s with seqState := .startHelper } else s
  | .startHelper => startHelper s
  | .waitHelper =>
      if s.helper.ld.locked && s.helper.ld.lockChanged then
        if s.mode = .slave then { s with seqState := .startMain }
        else { startPtrackers s with seqState := .ready }
      else s
  | .startMain => startMain s
  | .waitMain =>
      if s.mpll.ld.locked then { startPtrackers s with seqState := .ready } else s
  | .ready =>
      if !s.helper.ld.locked then
        { s with delockCount := s.delockCount + 1, seqState := .clearDacs }
      else if s.mode = .grandMaster ∧ !externalLocked s.ext then
        { s with delockCount := s.delockCount + 1, seqState := .startExt }
      else if s.mode = .slave ∧ !s.mpll.ld.locked then
        { s with delockCount := s.delockCount + 1, seqState := .clearDacs }
      else s

/-! ## The loops -/

/-- The sequencer states in which the external PLL runs. -/
def SeqState.runsExternal : SeqState → Bool
  | .waitExt | .startHelper | .waitHelper | .startMain | .waitMain | .ready => true
  | _ => false

/-- The sequencer states in which the helper PLL runs. -/
def SeqState.runsHelper : SeqState → Bool
  | .waitHelper | .startMain | .waitMain | .ready => true
  | _ => false

def updateExternal (board : Board) (hw : HwStatus) (s : SoftpllState) (tag : Tag) : SoftpllState :=
  let r := externalUpdate board hw s.ext ⟨s.spll, s.ppsg⟩ tag.value.toNat tag.chanId.toNat
  { s with
    ext := r.1
    spll := r.2.1.spll
    ppsg := r.2.1.ppsg
    log := s.log ++ r.2.2.1.toList.map .dacMain }

def updateHelper (s : SoftpllState) (tag : Tag) : SoftpllState :=
  let r := helperUpdate s.helper tag.value.toNat tag.chanId.toNat
  { s with helper := r.1, log := s.log ++ r.2.1.toList.map .dacHpll }

def updateMpll (s : SoftpllState) (tag : Tag) : SoftpllState :=
  let r := mpllUpdate s.mpll tag.value.toNat tag.chanId.toNat
  { s with mpll := r.1, log := s.log ++ r.2.1.toList.map .dacMain }

/-- Replace the PLL of `aux[i]`. -/
def setDmtd (s : SoftpllState) (i : Nat) (dmtd : SpllMainState) : SoftpllState :=
  { s with aux := Function.update s.aux i { s.aux i with dmtd := dmtd } }

def updateAux (tag : Tag) (s : SoftpllState) (i : Nat) : SoftpllState :=
  let r := mpllUpdate (s.aux i).dmtd tag.value.toNat tag.chanId.toNat
  { setDmtd s i r.1 with log := s.log ++ r.2.1.toList.map .dacMain }

def updateAuxs (tag : Tag) (s : SoftpllState) : SoftpllState :=
  (List.range (s.nChanOut - 1)).foldl (updateAux tag) s

def updatePtrackers (s : SoftpllState) (tag : Tag) : SoftpllState :=
  if tag.chanId.toNat > s.nChanRef then s
  else
    let r := ptrackersUpdate s.nChanRef s.ptrackers s.ptrackerTagRef tag.value.toNat
      tag.chanId.toNat
    { s with ptrackers := r.1, ptrackerTagRef := r.2 }

def updateLoops (board : Board) (hw : HwStatus) (s : SoftpllState) (tag : Tag) : SoftpllState :=
  let s := if s.mode = .grandMaster ∧ s.seqState.runsExternal then
    updateExternal board hw s tag else s
  let s := if s.seqState.runsHelper then updateHelper s tag else s
  let s := if s.seqState = .waitMain then updateMpll s tag else s
  if s.seqState = .ready then
    let s := if s.mode = .slave then updateAuxs tag (updateMpll s tag) else s
    updatePtrackers s tag
  else s

/-- One tag of the interrupt handler. -/
def tagStep (board : Board) (hw : HwStatus) (s : SoftpllState) (tag : Tag) : SoftpllState :=
  updateLoops board hw (sequencingFsm board hw s) tag

/-! ## Start and stop -/

/-- What the hardware answers to `spll_init`. -/
structure InitStatus where
  csr : BitVec 32
  extSupported : Bool
deriving DecidableEq, Repr

/-- `SPLL_CSR_N_REF_R`. -/
def InitStatus.nRef (hw : InitStatus) : Nat := (hw.csr.extractLsb' 8 6).toNat

/-- `SPLL_CSR_N_OUT_R`. -/
def InitStatus.nOut (hw : InitStatus) : Nat := (hw.csr.extractLsb' 16 3).toNat

/-- `PPS_WIDTH`: 10 ms in cycles of the PPS generator. -/
def ppsWidth (board : Board) : BitVec 32 :=
  BitVec.ofNat 32 (10 * 1000 * 1000 / board.nsPerClock)

/-- `spll_init` up to the point where grandmaster mode may be refused. -/
def spllInitRegs (board : Board) (hw : InitStatus) (s : SoftpllState) (mode : SpllMode) :
    SoftpllState :=
  { s with
    irqEnabled := false
    nChanRef := hw.nRef
    nChanOut := hw.nOut
    mode := mode
    delockCount := 0
    spll := { s.spll with
      ocer := 0
      rcer := 0
      eccr := 0
      occr := 0
      deglitchThr := 1000 }
    ppsg := { s.ppsg with
      escr := 0
      cr := ppsgCrCntEn ||| ppsgCrCntRst ||| (ppsWidth board <<< 4) }
    log := s.log ++ [.dacHpll 0, .dacMain (dacMainOfInt 0)] }

/-- The rest of `spll_init`. -/
def spllInitLoops (board : Board) (s : SoftpllState) (slaveRefChannel : Int) (alignPps : Bool) :
    SoftpllState :=
  { s with
    ext := if s.mode = .grandMaster then
        externalInit s.ext (s.nChanRef + s.nChanOut) alignPps
      else s.ext
    seqState := if s.mode = .disabled then .disabled else .clearDacs
    helper := helperInit s.helper (if s.mode = .slave then slaveRefChannel else s.nChanRef)
    mpll := mpllInit board s.nChanRef s.mpll slaveRefChannel s.nChanRef
    aux := fun i =>
      if i < s.nChanOut - 1 then
        { seqState := .disabled
          dmtd := mpllInit board s.nChanRef (s.aux i).dmtd slaveRefChannel (s.nChanRef + i + 1) }
      else s.aux i
    ppsg := { s.ppsg with
      escr := if s.mode = .freeRunningMaster then ppsgEscrPpsValid ||| ppsgEscrTmValid
        else s.ppsg.escr }
    ptrackers := fun i =>
      if i < s.nChanRef then ptrackerInit (s.ptrackers i) i ptrackerAverageSamples
      else s.ptrackers i
    spll := { s.spll with eicTag := true, ocer := s.spll.ocer ||| 1 }
    irqEnabled := true
    log := s.log ++ (List.range (s.nChanOut - 1)).map fun i => .auxSeqState (i + 1) .disabled }

/-- Grandmaster mode is refused on hardware without the external reference. -/
def initRefused (hw : InitStatus) (mode : SpllMode) : Bool :=
  decide (mode = .grandMaster) && !hw.extSupported

def spllInit (board : Board) (hw : InitStatus) (s : SoftpllState) (mode : SpllMode)
    (slaveRefChannel : Int) (alignPps : Bool) : SoftpllState :=
  let s := spllInitRegs board hw s mode
  if initRefused hw mode then s else spllInitLoops board s slaveRefChannel alignPps

def spllShutdown (s : SoftpllState) : SoftpllState :=
  { s with
    irqEnabled := false
    spll := { s.spll with ocer := 0, rcer := 0, eccr := 0, eicTag := false } }

def spllStartChannel (s : SoftpllState) (channel : Nat) : SoftpllState :=
  if s.seqState ≠ .ready ∨ channel = 0 then s
  else
    let r := mpllStart s.nChanRef (s.aux (channel - 1)).dmtd s.spll
    { setDmtd s (channel - 1) r.1 with
      spll := r.2
      log := s.log ++ [.mpllStart channel] }

def spllStopChannel (s : SoftpllState) (channel : Nat) : SoftpllState :=
  if channel = 0 then s
  else
    { s with
      spll := mpllStop s.nChanRef (s.aux (channel - 1)).dmtd s.spll
      log := s.log ++ [.mpllStop channel] }

def spllCheckLock (s : SoftpllState) (channel : Nat) : Bool :=
  if channel = 0 then decide (s.seqState = .ready)
  else decide (s.seqState = .ready) && (s.aux (channel - 1)).dmtd.ld.locked

/-! ## Phase shift -/

/-- The version of `from_picos` with 64-bit intermediate values. -/
def fromPicos (board : Board) (ps : Int) : Int :=
  i32 ((ps * 2 ^ hpllN).tdiv board.clockPeriodPicoseconds)

/-- The setpoint of the phase shifter for a shift in picoseconds. -/
def shiftUnits (board : Board) (valuePicoseconds : Int) : Int :=
  (fromPicos board valuePicoseconds).tdiv (if board.divideDmtdClocksBy2 then 2 else 1)

def setPhaseShift (board : Board) (s : SoftpllState) (channel : Nat) (valuePicoseconds : Int) :
    SoftpllState :=
  let units := shiftUnits board valuePicoseconds
  let s := if channel = 0 then { s with mpll := mpllSetPhaseShift s.mpll units }
    else setDmtd s (channel - 1) (mpllSetPhaseShift (s.aux (channel - 1)).dmtd units)
  { s with mpllShiftPs := valuePicoseconds }

/-- The channel argument of `spll_set_phase_shift`. -/
inductive ShiftChannel
  | all
  | one (channel : Nat)
deriving DecidableEq, Repr

def spllSetPhaseShift (board : Board) (s : SoftpllState) (channel : ShiftChannel)
    (valuePicoseconds : Int) : SoftpllState :=
  match channel with
  | .all =>
      let s := setPhaseShift board s 0 valuePicoseconds
      (List.range (s.nChanOut - 1)).foldl (fun s i =>
        if (s.aux i).seqState = .ready then setPhaseShift board s (i + 1) valuePicoseconds
        else s) s
  | .one channel => setPhaseShift board s channel valuePicoseconds

/-! ## Phase trackers and aux channels -/

def spllEnablePtracker (s : SoftpllState) (refChannel : Nat) (enable : Bool) : SoftpllState :=
  if enable then
    let r := ptrackerStart s.nChanRef (s.ptrackers refChannel)
      (spllEnableTagger s.nChanRef s.spll refChannel true)
    { s with
      ptrackers := Function.update s.ptrackers refChannel r.1
      spll := r.2
      ptrackerMask := s.ptrackerMask ||| 1#32 <<< refChannel }
  else
    { s with
      ptrackerMask := s.ptrackerMask &&& ~~~(1#32 <<< refChannel)
      spll := if (refChannel : Int) ≠ s.mpll.idRef then
          spllEnableTagger s.nChanRef s.spll refChannel false
        else s.spll }

/-- The hardware enable bits of the channels (`OUT_EN` of `OCCR`), which one poll
reads up to twice. -/
structure AuxEnable where
  first : Nat → Bool
  second : Nat → Bool

def auxSetChannelStatus (s : SoftpllState) (channel : Nat) (locked : Bool) : SoftpllState :=
  { s with
    spll := { s.spll with
      occr := assignBits s.spll.occr ((1#32 <<< channel &&& 0xff#32) <<< 8) locked }
    log := s.log ++ [.auxStatus channel locked] }

/-- Assign the state of an aux channel. -/
def setAuxSeqState (s : SoftpllState) (channel : Nat) (state : AuxSeqState) : SoftpllState :=
  { s with
    aux := Function.update s.aux (channel - 1) { s.aux (channel - 1) with seqState := state }
    log := s.log ++ [.auxSeqState channel state] }

/-- The part of a poll that reacts to a channel disabled in hardware. -/
def auxCheckEnabled (enable : AuxEnable) (s : SoftpllState) (channel : Nat) : SoftpllState :=
  if (s.aux (channel - 1)).seqState ≠ .disabled ∧ !enable.first channel then
    setAuxSeqState (auxSetChannelStatus (spllStopChannel s channel) channel false) channel
      .disabled
  else s

/-- The state machine of one aux channel. -/
def auxFsm (board : Board) (enable : AuxEnable) (s : SoftpllState) (channel : Nat) : SoftpllState :=
  match (s.aux (channel - 1)).seqState with
  | .disabled =>
      if s.mpll.ld.locked && enable.second channel then
        setAuxSeqState (spllStartChannel s channel) channel .lockPll
      else s
  | .lockPll =>
      if (s.aux (channel - 1)).dmtd.ld.locked then
        setAuxSeqState (setPhaseShift board s channel s.mpllShiftPs) channel .alignPhase
      else s
  | .alignPhase =>
      if !mpllShifterBusy (s.aux (channel - 1)).dmtd then
        setAuxSeqState (auxSetChannelStatus s channel true) channel .ready
      else s
  | .ready =>
      if !s.mpll.ld.locked || !(s.aux (channel - 1)).dmtd.ld.locked then
        setAuxSeqState (auxSetChannelStatus s channel false) channel .disabled
      else s
  | .none => s

def auxPoll (board : Board) (enable : AuxEnable) (s : SoftpllState) (channel : Nat) :
    SoftpllState :=
  auxFsm board enable (auxCheckEnabled enable s channel) channel

def spllUpdateAuxClocks (board : Board) (enable : AuxEnable) (s : SoftpllState) : SoftpllState :=
  (List.range (s.nChanOut - 1)).foldl (fun s i => auxPoll board enable s (i + 1)) s

/-! ## The transition system -/

/-- The calls of the main loop and the tags of the interrupt handler. -/
inductive Event
  | init (mode : SpllMode) (slaveRefChannel : Int) (alignPps : Bool) (hw : InitStatus)
  | shutdown
  | tag (tag : Tag) (hw : HwStatus)
  | startChannel (channel : Nat)
  | stopChannel (channel : Nat)
  | setPhaseShift (channel : ShiftChannel) (valuePicoseconds : Int)
  | enablePtracker (refChannel : Nat) (enable : Bool)
  | updateAuxClocks (enable : AuxEnable)

/-- Tags are processed while the interrupt is enabled in the CPU and in the
interrupt controller. -/
def SoftpllState.takesTags (s : SoftpllState) : Bool := s.irqEnabled && s.spll.eicTag

/-- One event; the log starts anew. -/
def step (board : Board) (s : SoftpllState) (e : Event) : SoftpllState :=
  let s := { s with log := [] }
  match e with
  | .init mode slaveRefChannel alignPps hw =>
      spllInit board hw s mode slaveRefChannel alignPps
  | .shutdown => spllShutdown s
  | .tag tag hw => if s.takesTags then tagStep board hw s tag else s
  | .startChannel channel => spllStartChannel s channel
  | .stopChannel channel => spllStopChannel s channel
  | .setPhaseShift channel value => spllSetPhaseShift board s channel value
  | .enablePtracker refChannel enable => spllEnablePtracker s refChannel enable
  | .updateAuxClocks enable => spllUpdateAuxClocks board enable s

end Softpll
end WrpcSw
