import WrpcSw.Softpll.Common

/-!
# The external reference PLL (`softpll/spll_external.c`)

In grandmaster mode the local oscillator is locked to an external 10 MHz clock
by a bang-bang detector, and the PPS is realigned to the external one by the
state machine `realignFsm`.  Bits of a register that the hardware sets are
inputs of the step that reads them; bits that the software sets are part of
the register.
-/

namespace WrpcSw
namespace Softpll

open CInt

def bbErrorBits : Nat := 16

/-- Alignment states; `none` is the value 0 of an uninitialised structure. -/
inductive RealignState
  | none
  | stage1
  | stage1Wait
  | stage2
  | stage2Wait
  | ppsInvalid
  | disabled
  | done
deriving DecidableEq, Repr

/-- State of the external PLL (`struct spll_external_state`). -/
structure SpllExternalState where
  refSrc : Int := 0
  phErrOffset : Int := 0
  phErrCur : Int := 0
  phErrD0 : Int := 0
  phRawD0 : Int := 0
  realignClocks : Bool := false
  realignState : RealignState := .none
  realignTimer : Int := 0
  pi : SpllPi := {}
  lpShort : SpllLowpass := {}
  lpLong : SpllLowpass := {}
  ld : SpllLockDet := {}
deriving DecidableEq, Repr

def eccrExtEn : BitVec 32 := 1#32 <<< 0
def eccrExtSupported : BitVec 32 := 1#32 <<< 1
def eccrAlignEn : BitVec 32 := 1#32 <<< 2
def eccrAlignDone : BitVec 32 := 1#32 <<< 3
def eccrExtRefPresent : BitVec 32 := 1#32 <<< 4

def ppsgCrCntRst : BitVec 32 := 1#32 <<< 0
def ppsgCrCntEn : BitVec 32 := 1#32 <<< 1
def ppsgEscrSync : BitVec 32 := 1#32 <<< 0
def ppsgEscrPpsValid : BitVec 32 := 1#32 <<< 1
def ppsgEscrTmValid : BitVec 32 := 1#32 <<< 2

/-- What the hardware answers while one tag is processed: the tick counter and
the status bits of `ECCR` and `ESCR`. -/
structure HwStatus where
  tics : BitVec 32 := 0
  alignDone : Bool := false
  extRefPresent : Bool := false
  ppsSync : Bool := false
deriving DecidableEq, Repr

/-- The registers the external PLL works on. -/
structure ExternalRegs where
  spll : SpllWB
  ppsg : PpsgWB
deriving DecidableEq, Repr

def externalInit (s : SpllExternalState) (extRef : Int) (realignClocks : Bool) :
    SpllExternalState :=
  { s with
    pi := piInit { s.pi with
      yMin := 5
      yMax := 2 ^ dacBits - 5
      kp := 300
      ki := 1
      antiWindup := true
      bias := 32768 }
    ld := ldInit { s.ld with threshold := 400, lockSamples := 10000, delockSamples := 9990 }
    refSrc := extRef
    phErrCur := 0
    phErrD0 := 0
    phRawD0 := 0
    realignClocks := realignClocks
    realignState := if realignClocks then .stage1 else .disabled
    lpShort := lowpassInit 4000
    lpLong := lowpassInit 300 }

def realignFsm (board : Board) (hw : HwStatus) (s : SpllExternalState) (regs : ExternalRegs) :
    SpllExternalState × ExternalRegs :=
  match s.realignState with
  | .stage1 =>
      ({ s with
          realignState := .stage1Wait
          realignTimer := i32 (hw.tics.toNat + 2 * board.ticsPerSecond) },
        { regs with spll := { regs.spll with
            eccr := assignBits regs.spll.eccr eccrAlignEn true } })
  | .stage1Wait =>
      if hw.alignDone then
        ({ s with realignState := .stage2 }, regs)
      else if timeAfter hw.tics.toNat s.realignTimer then
        ({ s with realignState := .ppsInvalid },
          { regs with spll := { regs.spll with
              eccr := assignBits regs.spll.eccr eccrAlignEn false } })
      else (s, regs)
  | .stage2 =>
      if s.ld.locked then
        ({ s with
            realignState := .stage2Wait
            realignTimer := i32 (hw.tics.toNat + 2 * board.ticsPerSecond) },
          { regs with ppsg :=
              { cr := ppsgCrCntRst ||| ppsgCrCntEn
                adjUtclo := 0
                adjUtchi := 0
                adjNsec := 0
                escr := ppsgEscrSync } })
      else (s, regs)
  | .stage2Wait =>
      if hw.ppsSync then
        ({ s with realignState := .done },
          { regs with ppsg := { regs.ppsg with
              escr := ppsgEscrPpsValid ||| ppsgEscrTmValid } })
      else if timeAfter hw.tics.toNat s.realignTimer then
        ({ s with realignState := .ppsInvalid },
          { regs with ppsg := { regs.ppsg with escr := 0 } })
      else (s, regs)
  | .none | .ppsInvalid | .disabled | .done => (s, regs)

/-- The wrap bit moves the offset by one turn, in the direction that keeps the
unwrapped phase continuous. -/
def externalUnwrap (s : SpllExternalState) (raw : Int) (wrap : Bool) : Int :=
  if wrap then
    if raw > s.phRawD0 then i32 (s.phErrOffset - 2 ^ bbErrorBits)
    else i32 (s.phErrOffset + 2 ^ bbErrorBits)
  else s.phErrOffset

/-- One tag of the bang-bang detector: the new state and registers, the word
written to `DAC_MAIN`, if any, and the return value. -/
def externalUpdate (board : Board) (hw : HwStatus) (s : SpllExternalState)
    (regs : ExternalRegs) (tag source : Int) :
    SpllExternalState × ExternalRegs × Option DacMain × Int :=
  if source = s.refSrc then
    let wrap := decide (tag / 2 ^ bbErrorBits % 2 = 1)
    let aligned := realignFsm board hw s regs
    let raw := tag % 2 ^ bbErrorBits
    let offset := externalUnwrap aligned.1 raw wrap
    let phase := i32 (raw + offset)
    let err := i32 (phase - aligned.1.phErrD0)
    let pi := piUpdate aligned.1.pi err
    let short := lowpassUpdate aligned.1.lpShort pi.2
    let long := lowpassUpdate aligned.1.lpLong pi.2
    -- without a reference the loop is de-locked at once
    let y2 := if hw.extRefPresent then short.2 else 32000
    let ld := ldUpdate (if hw.extRefPresent then aligned.1.ld else ldInit aligned.1.ld)
      (i32 (y2 - long.2))
    ({ aligned.1 with
        phErrOffset := offset
        phRawD0 := raw
        phErrD0 := phase
        pi := pi.1
        lpShort := short.1
        lpLong := long.1
        ld := ld.1 },
      aligned.2, some (dacMainW y2 0),
      if ld.2 ≠ 0 then spllLocked else spllLocking)
  else (s, regs, none, spllLocking)

def externalStart (s : SpllExternalState) (regs : ExternalRegs) :
    SpllExternalState × ExternalRegs :=
  ({ s with realignState := if s.realignClocks then .stage1 else .disabled },
    { regs with spll := { regs.spll with eccr := eccrExtEn } })

def externalLocked (s : SpllExternalState) : Bool :=
  s.ld.locked && (if s.realignClocks then decide (s.realignState = .done) else true)

/-! ## Frame lemmas -/

/-- The realignment leaves the interrupt enable alone. -/
theorem realignFsm_eicTag (board : Board) (hw : HwStatus) (s : SpllExternalState)
    (regs : ExternalRegs) : (realignFsm board hw s regs).2.spll.eicTag = regs.spll.eicTag := by
  unfold realignFsm
  split <;> (try split_ifs) <;> rfl

theorem externalUpdate_eicTag (board : Board) (hw : HwStatus) (s : SpllExternalState)
    (regs : ExternalRegs) (tag source : Int) :
    (externalUpdate board hw s regs tag source).2.1.spll.eicTag = regs.spll.eicTag := by
  unfold externalUpdate
  split
  · exact realignFsm_eicTag board hw s regs
  · rfl

/-- Of the registers, the external PLL writes what it does not read. -/
theorem realignFsm_regs (board : Board) (hw : HwStatus) (s : SpllExternalState)
    (regs regs' : ExternalRegs) :
    (realignFsm board hw s regs).1 = (realignFsm board hw s regs').1 := by
  unfold realignFsm
  split <;> (try split_ifs) <;> rfl

theorem externalUpdate_regs (board : Board) (hw : HwStatus) (s : SpllExternalState)
    (regs regs' : ExternalRegs) (tag source : Int) :
    (externalUpdate board hw s regs tag source).1 =
        (externalUpdate board hw s regs' tag source).1 ∧
      (externalUpdate board hw s regs tag source).2.2 =
        (externalUpdate board hw s regs' tag source).2.2 := by
  simp only [externalUpdate, realignFsm_regs board hw s regs regs']
  split_ifs <;> exact ⟨rfl, rfl⟩

/-- The words of the external PLL go to the DAC of the main channel. -/
theorem externalUpdate_dac (board : Board) (hw : HwStatus) (s : SpllExternalState)
    (regs : ExternalRegs) (tag source : Int) :
    ∀ word ∈ (externalUpdate board hw s regs tag source).2.2.1, word.dacSel = 0 := by
  unfold externalUpdate
  split
  · rintro word hword
    obtain rfl := Option.some.inj hword
    rfl
  · simp

end Softpll
end WrpcSw
