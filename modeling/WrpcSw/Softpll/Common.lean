import WrpcSw.Lib.CInt

/-!
# Common SoftPLL blocks (`softpll/spll_common.c`)

The PI regulator, the lock detector, the low-pass filter and the tag enable
registers, which every loop of the SoftPLL is built from.  An `int` is an
`Int` with the conversion `i32` after each operation that can overflow, a flag
is a `Bool`, and `>>` on a signed value is the arithmetic shift.

The lock detector is the block that decides what the rest of the firmware is
told, so its lemmas come here too: what a sample inside the threshold does,
what a sample outside does, and how far an arbitrary sample can move it.
-/

namespace WrpcSw
namespace Softpll

open CInt

/-- Number of bits in the phase tags generated by the DMTDs. -/
def tagBits : Nat := 22

/-- Helper PLL N divider. -/
def hpllN : Nat := 14

/-- Fractional bits in PI controller coefficients. -/
def piFracbits : Nat := 12

/-- Number of bits of the DACs driving the oscillators. -/
def dacBits : Nat := 16

/-- Number of samples in a single ptracker averaging bin. -/
def ptrackerAverageSamples : Int := 512

def spllLocked : Int := 1
def spllLocking : Int := 0

/-- The parameters in which the boards of the node and of the switch differ. -/
structure Board where
  ticsPerSecond : Int
  nsPerClock : Nat
  clockPeriodPicoseconds : Int
  divideDmtdClocksBy2 : Bool
  mpllKp : Int
  mpllKi : Int

/-- `board-wrc.h`, built with `CONFIG_WR_NODE`. -/
def Board.wrc : Board where
  ticsPerSecond := 1000
  nsPerClock := 8
  clockPeriodPicoseconds := 8000
  divideDmtdClocksBy2 := true
  mpllKp := 1100
  mpllKi := 30

/-- `board-wrs.h`, built with `CONFIG_WR_SWITCH`. -/
def Board.wrs : Board where
  ticsPerSecond := 100000
  nsPerClock := 16
  clockPeriodPicoseconds := 16000
  divideDmtdClocksBy2 := false
  mpllKp := 1500
  mpllKi := 7

/-! ## PI regulator -/

/-- PI regulator state (`spll_pi_t`). -/
structure SpllPi where
  ki : Int := 0
  kp : Int := 0
  integrator : Int := 0
  bias : Int := 0
  antiWindup : Bool := false
  yMin : Int := 0
  yMax : Int := 0
  x : Int := 0
  y : Int := 0
deriving DecidableEq, Repr

/-- One sample of the PI regulator: the new state and the value that drives the
actuator. -/
def piUpdate (pi : SpllPi) (x : Int) : SpllPi × Int :=
  let iNew := i32 (pi.integrator + x)
  let y := i32 (i32 (i32 (iNew * pi.ki) + i32 (x * pi.kp)) >>> piFracbits + pi.bias)
  if y < pi.yMin then
    let moves := (pi.antiWindup && decide (iNew > pi.integrator)) || !pi.antiWindup
    ({ pi with
        x := x
        y := pi.yMin
        integrator := if moves then iNew else pi.integrator }, pi.yMin)
  else if y > pi.yMax then
    let moves := (pi.antiWindup && decide (iNew < pi.integrator)) || !pi.antiWindup
    ({ pi with
        x := x
        y := pi.yMax
        integrator := if moves then iNew else pi.integrator }, pi.yMax)
  else
    ({ pi with x := x, y := y, integrator := iNew }, y)

def piInit (pi : SpllPi) : SpllPi :=
  { pi with integrator := 0, y := pi.bias }

/-- The limits of a regulator are configuration: no sample changes them. -/
theorem piUpdate_limits (pi : SpllPi) (x : Int) :
    (piUpdate pi x).1.yMin = pi.yMin ∧ (piUpdate pi x).1.yMax = pi.yMax := by
  unfold piUpdate
  dsimp only
  split_ifs <;> exact ⟨rfl, rfl⟩

/-! ## Lock detector -/

/-- Lock detector state (`spll_lock_det_t`). -/
structure SpllLockDet where
  lockCnt : Int := 0
  lockSamples : Int := 0
  delockSamples : Int := 0
  threshold : Int := 0
  locked : Bool := false
  lockChanged : Bool := false
deriving DecidableEq, Repr

/-- The sample is inside the acceptance range of the detector. -/
def SpllLockDet.accepts (ld : SpllLockDet) (y : Int) : Prop :=
  i32 |y| ≤ ld.threshold

instance (ld : SpllLockDet) (y : Int) : Decidable (ld.accepts y) :=
  inferInstanceAs (Decidable (_ ≤ _))

/-- One sample of the lock detector and its return value. -/
def ldUpdate (ld : SpllLockDet) (y : Int) : SpllLockDet × Int :=
  if ld.accepts y then
    let cnt := if ld.lockCnt < ld.lockSamples then ld.lockCnt + 1 else ld.lockCnt
    if cnt = ld.lockSamples then
      ({ ld with lockCnt := cnt, lockChanged := true, locked := true }, 1)
    else
      ({ ld with lockCnt := cnt, lockChanged := false }, if ld.locked then 1 else 0)
  else
    let cnt := if ld.lockCnt > ld.delockSamples then ld.lockCnt - 1 else ld.lockCnt
    if cnt = ld.delockSamples then
      ({ ld with lockCnt := 0, lockChanged := true, locked := false }, -1)
    else
      ({ ld with lockCnt := cnt, lockChanged := false }, if ld.locked then 1 else 0)

def ldInit (ld : SpllLockDet) : SpllLockDet :=
  { ld with locked := false, lockCnt := 0, lockChanged := false }

/-- Two detectors run with the same settings. -/
def SpllLockDet.SameSettings (a b : SpllLockDet) : Prop :=
  a.lockSamples = b.lockSamples ∧ a.delockSamples = b.delockSamples ∧
    a.threshold = b.threshold

/-- A sample never changes the settings. -/
theorem ldUpdate_settings (ld : SpllLockDet) (y : Int) :
    (ldUpdate ld y).1.SameSettings ld := by
  unfold ldUpdate SpllLockDet.SameSettings
  dsimp only
  split_ifs <;> exact ⟨rfl, rfl, rfl⟩

/-- An accepted sample counts up, and locks when it reaches `lockSamples`. -/
theorem ldUpdate_accepted {ld : SpllLockDet} {y : Int} (h : ld.accepts y)
    (hcnt : ld.lockCnt < ld.lockSamples) :
    (ldUpdate ld y).1.lockCnt = ld.lockCnt + 1 ∧
      (ld.lockCnt + 1 = ld.lockSamples →
        (ldUpdate ld y).1.locked = true ∧ (ldUpdate ld y).1.lockChanged = true) ∧
      (ld.lockCnt + 1 ≠ ld.lockSamples → (ldUpdate ld y).1.locked = ld.locked) := by
  unfold ldUpdate
  by_cases hfull : ld.lockCnt + 1 = ld.lockSamples
  · simp [h, hcnt, hfull]
  · simp [h, hcnt, hfull]

/-- A rejected sample counts down, and drops the lock at `delockSamples`. -/
theorem ldUpdate_rejected {ld : SpllLockDet} {y : Int} (h : ¬ ld.accepts y)
    (hcnt : ld.delockSamples < ld.lockCnt) :
    (ld.lockCnt - 1 = ld.delockSamples → (ldUpdate ld y).1.locked = false ∧
        (ldUpdate ld y).1.lockCnt = 0) ∧
      (ld.lockCnt - 1 ≠ ld.delockSamples →
        (ldUpdate ld y).1.locked = ld.locked ∧
          (ldUpdate ld y).1.lockCnt = ld.lockCnt - 1) := by
  unfold ldUpdate
  by_cases hlow : ld.lockCnt - 1 = ld.delockSamples
  · simp [h, hcnt, hlow]
  · simp [h, hcnt, hlow]

/-- Whatever the sample, a detector well above `delockSamples` stays locked and
loses at most one count. -/
theorem ldUpdate_keeps_lock {ld : SpllLockDet} (y : Int) (hlocked : ld.locked = true)
    (hle : ld.lockCnt ≤ ld.lockSamples) (hcnt : ld.delockSamples + 1 < ld.lockCnt) :
    (ldUpdate ld y).1.locked = true ∧ ld.lockCnt - 1 ≤ (ldUpdate ld y).1.lockCnt ∧
      (ldUpdate ld y).1.lockCnt ≤ ld.lockSamples := by
  by_cases h : ld.accepts y
  · by_cases hroom : ld.lockCnt < ld.lockSamples
    · obtain ⟨hcount, hfull, hpart⟩ := ldUpdate_accepted h hroom
      refine ⟨?_, by omega, by omega⟩
      by_cases heq : ld.lockCnt + 1 = ld.lockSamples
      · exact (hfull heq).1
      · rw [hpart heq, hlocked]
    · have heq : ld.lockCnt = ld.lockSamples := by omega
      simp [ldUpdate, h, heq]
  · obtain ⟨-, hpart⟩ := ldUpdate_rejected h (by omega)
    obtain ⟨hlock, hcount⟩ := hpart (by omega)
    exact ⟨hlock.trans hlocked, by omega, by omega⟩

/-- Whatever the sample, an unlocked detector whose count is far from
`lockSamples` stays unlocked and gains at most one count. -/
theorem ldUpdate_keeps_unlock {ld : SpllLockDet} (y : Int) (hlocked : ld.locked = false)
    (hnonneg : 0 ≤ ld.lockCnt) (hdelock : 0 ≤ ld.delockSamples)
    (hcnt : ld.lockCnt + 1 < ld.lockSamples) :
    (ldUpdate ld y).1.locked = false ∧ 0 ≤ (ldUpdate ld y).1.lockCnt ∧
      (ldUpdate ld y).1.lockCnt ≤ ld.lockCnt + 1 := by
  by_cases h : ld.accepts y
  · obtain ⟨hcount, -, hpart⟩ := ldUpdate_accepted h (by omega)
    exact ⟨(hpart (by omega)).trans hlocked, by omega, by omega⟩
  · unfold ldUpdate
    simp only [h, if_false]
    split_ifs <;> dsimp only <;> refine ⟨?_, ?_, ?_⟩ <;> first | rfl | exact hlocked | omega

/-! ## Low-pass filter -/

/-- First-order low-pass filter (`spll_lowpass_t`). -/
structure SpllLowpass where
  alpha : Int := 0
  yD : Int := 0
deriving DecidableEq, Repr

/-- The value `0x80000000` of `y_d` that marks a filter without samples. -/
def lowpassEmpty : Int := -2147483648

def lowpassInit (alpha : Int) : SpllLowpass where
  alpha := alpha
  yD := lowpassEmpty

/-- One sample of the low-pass filter and its output. -/
def lowpassUpdate (lp : SpllLowpass) (x : Int) : SpllLowpass × Int :=
  if lp.yD = lowpassEmpty then
    ({ lp with yD := x }, x)
  else
    let scaled := i32 (lp.alpha * i32 (x - lp.yD)) >>> (15 : Nat)
    let y := i32 (i32 (lp.yD + scaled >>> (1 : Nat)) + scaled % 2)
    ({ lp with yD := y }, y)

/-! ## Registers -/

/-- The SoftPLL registers the software reads back or uses as state
(`struct SPLL_WB`). -/
structure SpllWB where
  eccr : BitVec 32 := 0
  occr : BitVec 32 := 0
  rcer : BitVec 32 := 0
  ocer : BitVec 32 := 0
  deglitchThr : BitVec 32 := 0
  eicTag : Bool := false
deriving DecidableEq, Repr

/-- The PPS generator registers the SoftPLL writes (`struct PPSG_WB`). -/
structure PpsgWB where
  cr : BitVec 32 := 0
  adjUtclo : BitVec 32 := 0
  adjUtchi : BitVec 32 := 0
  adjNsec : BitVec 32 := 0
  escr : BitVec 32 := 0
deriving DecidableEq, Repr

/-- A word written to `DAC_MAIN`: the DAC value and the number of the DAC it is
for. -/
structure DacMain where
  value : BitVec 16
  dacSel : BitVec 4
deriving DecidableEq, Repr

/-- `SPLL_DAC_MAIN_VALUE_W(y) | SPLL_DAC_MAIN_DAC_SEL_W(sel)`. -/
def dacMainW (y sel : Int) : DacMain where
  value := BitVec.ofInt 16 y
  dacSel := BitVec.ofInt 4 sel

/-- A plain integer written to `DAC_MAIN`, read by its fields. -/
def dacMainOfInt (word : Int) : DacMain where
  value := BitVec.ofInt 16 word
  dacSel := BitVec.ofInt 4 (word >>> (16 : Nat))

/-- `reg |= mask` or `reg &= ~mask`. -/
def assignBits (reg mask : BitVec 32) (enable : Bool) : BitVec 32 :=
  if enable then reg ||| mask else reg &&& ~~~mask

/-- Enable or disable tag generation on a channel: channels from `nChanRef` on
are output channels. -/
def spllEnableTagger (nChanRef : Nat) (regs : SpllWB) (channel : Int) (enable : Bool) :
    SpllWB :=
  if channel ≥ nChanRef then
    { regs with ocer := assignBits regs.ocer (1#32 <<< (channel - nChanRef).toNat) enable }
  else
    { regs with rcer := assignBits regs.rcer (1#32 <<< channel.toNat) enable }

/-- `time_after(a, b)` on 32-bit `long`. -/
def timeAfter (a b : Int) : Bool := i32 (i32 b - i32 a) < 0

end Softpll
end WrpcSw
