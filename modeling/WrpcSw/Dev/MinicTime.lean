import Mathlib.Data.Nat.ModEq
import WrpcSw.Dev.Minic

/-!
# The seconds of the hardware timestamps (`dev/minic.c`)

A raw timestamp counts the cycles of its second and does not say which second it was.
`minic_rx_frame` and `minic_tx_frame` take the second from the PPS generator, which they
read later, and go one back if the event was in the last quarter of a second and the
time read is in the first.

* `secondOf_eq` — less than a quarter of a second after the event this gives its second.
* `ahead_iff` — the flag that the receive path derives from the two counters.
* `timestamps_attributed` — both directions, from the registers to the timestamp.
-/

namespace WrpcSw
namespace Minic

open Memory RingBuffer PpsGen
open Net (HwTimestamp ETH_HEADER_SIZE)

/-! ## Transmission -/

def TX_DESC_VALID : UInt32 := (1 : UInt32) <<< 31

def TX_DESC_WITH_OOB : UInt32 := (1 : UInt32) <<< 30

def WRPC_FID : UInt32 := 0

def MINIC_MCR_TX_START : UInt32 := (1 : UInt32) <<< 0

def MINIC_MCR_TX_IDLE : UInt32 := (1 : UInt32) <<< 1

def MINIC_MCR_TX_TS_READY : UInt32 := (1 : UInt32) <<< 11

def MINIC_TSR0_VALID : UInt32 := (1 : UInt32) <<< 0

/-- What a call to `minic_tx_frame` reads: the control register at each access, the two
timestamp registers and the time it is told. -/
structure TxIo where
  mcr : Nat → UInt32
  tsr0 : UInt32
  tsr1 : UInt32
  time : UInt64 × UInt32

/-- What a call leaves behind: its buffer, what it wrote to the control register, the timestamp
and the returned size. -/
structure TxResult where
  txBuf : Nat → UInt8
  started : UInt32
  hwts : Option HwTimestamp
  ret : UInt32

/-- A wait of at most `tries` accesses for a bit of the control register, the first of them
the access `k`: whether the bit was seen, and the access after the last. -/
def waitMcr (mcr : Nat → UInt32) (bit : UInt32) : Nat → Nat → Bool × Nat
  | 0, k => (false, k)
  | tries + 1, k => if mcr k &&& bit ≠ 0 then (true, k + 1) else waitMcr mcr bit tries (k + 1)

def txTimestamp (hwts : HwTimestamp) (tsValid : UInt8) (rawTs : UInt32)
    (time : UInt64 × UInt32) : HwTimestamp :=
  let counterR := rawTs &&& 0xfffffff
  { hwts with
    valid := tsValid
    sec := secondOf counterR time
    ahead := 0
    nsec := counterR * 8 }

/-- A frame identifier that does not match is only reported in a trace. -/
def minicTxFrame (txBuf : Nat → UInt8) (io : TxIo) (hdr payload : List UInt8) (size : UInt32)
    (hwts : Option HwTimestamp) : TxResult :=
  let txBuf := writeAt txBuf 0 (List.replicate (size + 16).toNat 0x0)
  let txBuf := writeAt txBuf 4 (List.replicate (if size < 60 then 60 else size).toNat 0)
  let txBuf := writeAt txBuf 4 (hdr.take ETH_HEADER_SIZE)
  let txBuf := writeAt txBuf (4 + ETH_HEADER_SIZE)
    (payload.take (size - UInt32.ofNat ETH_HEADER_SIZE).toNat)
  let size := if size < 60 then 60 else size
  let nwords := (size + 1) >>> 1
  let dHdr := if hwts.isSome then TX_DESC_WITH_OOB ||| WRPC_FID <<< 12 else 0
  let dHdr := dHdr ||| (TX_DESC_VALID ||| nwords)
  let txBuf := writeAt txBuf 0 (beBytes 4 dHdr.toNat)
  -- `nwords` counts words of 16 bits, the pointer words of 32
  let txBuf := writeAt txBuf (4 * nwords.toNat) (beBytes 4 0)
  let (_, k) := waitMcr io.mcr MINIC_MCR_TX_IDLE 1000 1
  let hwts := hwts.map fun hwts =>
    let tsValid := if (waitMcr io.mcr MINIC_MCR_TX_TS_READY 100 k).1 then
      (io.tsr0 &&& MINIC_TSR0_VALID).toUInt8 else 0
    txTimestamp hwts tsValid io.tsr1 io.time
  { txBuf, started := io.mcr 0 ||| MINIC_MCR_TX_START, hwts, ret := size }

/-! ## The second of an event -/

/-- The driver looks at the time `now`, less than 250 ms after the event. -/
structure SoonAfter (event now : HwTime) : Prop where
  later : event.ticks ≤ now.ticks
  soon : 8 * (now.ticks - event.ticks) < 250000000

theorem latest_iff {counterR : UInt32} {time : UInt64 × UInt32} {event now : HwTime}
    (hcounter : counterR.toNat = event.cycle) (htime : Represents time now) :
    counterR > UInt32.ofNat (3 * REF_CLOCK_FREQ_HZ / 4) ∧ time.2 < 250000000 ↔
      93750000 < event.cycle ∧ 8 * now.cycle < 250000000 := by
  rw [gt_iff_lt, UInt32.lt_iff_toNat_lt, UInt32.lt_iff_toNat_lt, hcounter, htime.nsec]
  exact Iff.rfl

/-- An event in the last quarter of a second that is looked at in the first was in the second
before; every other one was in the second of the look. -/
theorem SoonAfter.sec_eq {event now : HwTime} (h : SoonAfter event now) :
    now.sec = if 93750000 < event.cycle ∧ 8 * now.cycle < 250000000 then event.sec + 1
      else event.sec := by
  have hlater := h.later
  have hsoon := h.soon
  have hevent := event.cycle_lt
  have hnow := now.cycle_lt
  unfold HwTime.ticks REF_CLOCK_FREQ_HZ at *
  split_ifs with hnext
  · omega
  · omega

theorem secondOf_eq {counterR : UInt32} {time : UInt64 × UInt32} {event now : HwTime}
    (hcounter : counterR.toNat = event.cycle) (htime : Represents time now)
    (hsoon : SoonAfter event now) (hsec : event.sec < 2 ^ 31) :
    (secondOf counterR time).toNat = event.sec := by
  have hnow := hsoon.sec_eq
  have hread := htime.sec
  unfold secondOf
  by_cases hnext : 93750000 < event.cycle ∧ 8 * now.cycle < 250000000
  · rw [if_pos hnext] at hnow
    rw [if_pos ((latest_iff hcounter htime).mpr hnext), UInt64.toNat_sub, hread]
    simp
    omega
  · rw [if_neg hnext] at hnow
    rw [if_neg (fun h => hnext ((latest_iff hcounter htime).mp h)), hread]
    omega

/-! ## The counters -/

/-- The counter of the rising edge in a raw timestamp. -/
def risingCounter (rawTs : UInt32) : Nat := (rawTs &&& 0xfffffff).toNat

/-- The counter of the falling edge, of which there are four bits. -/
def fallingCounter (rawTs : UInt32) : Nat := (rawTs >>> 28 &&& 0xf).toNat

theorem toInt32_eq_iff {x y : UInt32} : x.toInt32 = y.toInt32 ↔ x = y := by
  constructor
  · intro h
    simpa using congrArg Int32.toUInt32 h
  · intro h
    rw [h]

/-- The test on the difference of two four-bit counters. -/
theorem ahead_iff {a f : UInt32} (ha : a.toNat < 16) (hf : f.toNat < 16) :
    ((a - f).toInt32 = 1 ∨ (a - f).toInt32 = -F_COUNTER_MASK.toInt32) ↔
      a.toNat ≡ f.toNat + 1 [MOD 16] := by
  have hone : (1 : Int32) = (1 : UInt32).toInt32 := rfl
  have hwrapped : -F_COUNTER_MASK.toInt32 = (-F_COUNTER_MASK).toInt32 := rfl
  have hmask : (-F_COUNTER_MASK).toNat = 4294967281 := rfl
  rw [hone, hwrapped, toInt32_eq_iff, toInt32_eq_iff, ← UInt32.toNat_inj, ← UInt32.toNat_inj,
    hmask, UInt32.toNat_sub, UInt32.toNat_one]
  unfold Nat.ModEq
  omega

theorem rxTimestamp_ahead (hwts : HwTimestamp) (rawTs : UInt32) (dhdr : UInt16)
    (time : UInt64 × UInt32) :
    (rxTimestamp hwts rawTs dhdr time).ahead = 1 ↔
      risingCounter rawTs ≡ fallingCounter rawTs + 1 [MOD 16] := by
  have hlow : (rawTs &&& 0xfffffff &&& F_COUNTER_MASK).toNat = risingCounter rawTs % 16 :=
    BitField.toNat_and_mask (k := 4) _ rfl
  have hfalling : fallingCounter rawTs = (rawTs >>> 28).toNat % 16 :=
    BitField.toNat_and_mask (k := 4) _ rfl
  have hiff := ahead_iff (a := rawTs &&& 0xfffffff &&& F_COUNTER_MASK)
    (f := rawTs >>> 28 &&& 0xf) (by omega) (by unfold fallingCounter at hfalling; omega)
  rw [hlow] at hiff
  unfold rxTimestamp
  dsimp only
  split_ifs with hahead
  · have hmod := hiff.mp hahead
    simpa [Nat.ModEq, fallingCounter] using hmod
  · have hmod := fun h => hahead (hiff.mpr h)
    simpa [Nat.ModEq, fallingCounter] using hmod

/-- The raw timestamp is in the last four bytes of a frame with out-of-band data. -/
def WrMinic.oobTs (m : WrMinic) : UInt32 := UInt32.ofNat (beNumber (m.bytesAt m.size 4))

/-- Whatever the size of the frame says, the timestamp is made from its last four bytes. -/
theorem minicRxFrame_hwts {m : WrMinic} {io : RxIo} (bufSize : UInt32) (hwts : HwTimestamp)
    (hirq : io.isr &&& MINIC_EIC_ISR_RX ≠ 0) (hvalid : RxDescValid m.desc)
    (hok : ¬ RxDescError m.desc) (hoob : RxDescHasOob m.desc) :
    ∃ dhdr, (minicRxFrame m io bufSize (some hwts)).1.hwts =
      some (rxTimestamp hwts m.oobTs dhdr io.time) := by
  have hraw : minicRxMemcpy m.rxBuf
      (4 * m.rxHead + (rxDescSize m.desc - RX_OOB_SIZE).toNat + 6) 4 = m.bytesAt m.size 4 := by
    have hsix : RX_OOB_SIZE.toNat = 6 := rfl
    have hlt := (rxDescSize m.desc).toNat_lt
    -- where the subtraction wraps it does so by a multiple of the ring
    have hmod : (4 * m.rxHead + (rxDescSize m.desc - RX_OOB_SIZE).toNat + 6) %
        MINIC_DMA_RX_BUF_SIZE = (4 * m.rxHead + m.size) % MINIC_DMA_RX_BUF_SIZE := by
      rw [UInt32.toNat_sub, hsix, show MINIC_DMA_RX_BUF_SIZE = 2048 from rfl, WrMinic.size]
      omega
    rw [minicRxMemcpy_eq _ _ (by decide), ← readRing_mod, hmod, readRing_mod]
    rfl
  rw [minicRxFrame_frame bufSize _ hirq hvalid hok, copyFrame, takeOob, if_pos hoob]
  dsimp only
  rw [hraw]
  exact ⟨_, rfl⟩

/-! ## Both directions -/

theorem rxTimestamp_sec {rawTs : UInt32} {time : UInt64 × UInt32} {event now : HwTime}
    (hwts : HwTimestamp) (dhdr : UInt16) (hcounter : risingCounter rawTs = event.cycle)
    (htime : Represents time now) (hsoon : SoonAfter event now) (hsec : event.sec < 2 ^ 31) :
    (rxTimestamp hwts rawTs dhdr time).sec.toNat = event.sec ∧
      (rxTimestamp hwts rawTs dhdr time).nsec.toNat = 8 * event.cycle := by
  have hsecond := secondOf_eq hcounter htime hsoon hsec
  have hcycle := event.cycle_lt
  constructor
  · rw [rxTimestamp, UInt64.toNat_and, hsecond]
    exact (Nat.and_two_pow_sub_one_eq_mod _ 31).trans (Nat.mod_eq_of_lt hsec)
  · rw [rxTimestamp, UInt32.toNat_mul]
    unfold risingCounter at hcounter
    rw [hcounter, show (UInt32.ofInt (REF_CLOCK_PERIOD_PS / 1000)).toNat = 8 from rfl]
    unfold REF_CLOCK_FREQ_HZ at hcycle
    omega

theorem txTimestamp_sec {rawTs : UInt32} {time : UInt64 × UInt32} {event now : HwTime}
    (hwts : HwTimestamp) (tsValid : UInt8) (hcounter : risingCounter rawTs = event.cycle)
    (htime : Represents time now) (hsoon : SoonAfter event now) (hsec : event.sec < 2 ^ 31) :
    (txTimestamp hwts tsValid rawTs time).sec.toNat = event.sec ∧
      (txTimestamp hwts tsValid rawTs time).nsec.toNat = 8 * event.cycle := by
  have hcycle := event.cycle_lt
  refine ⟨secondOf_eq hcounter htime hsoon hsec, ?_⟩
  rw [txTimestamp, UInt32.toNat_mul]
  unfold risingCounter at hcounter
  rw [hcounter, show (8 : UInt32).toNat = 8 from rfl]
  unfold REF_CLOCK_FREQ_HZ at hcycle
  omega

/-- Timestamps are attributed to the right second: for every event and every look at the PPS
generator that shows a time less than 250 ms later, in either direction, across the boundary
of a second or short of it. -/
theorem timestamps_attributed {regs : PpsgRegs} {clock : Nat → HwTime}
    (hshows : Shows regs clock) (hmono : Monotone fun k => (clock k).ticks) {fuel : Nat}
    {log log' : List PpsgReg} {time : UInt64 × UInt32} (hshort : PassesShort clock log.length)
    (hread : shwPpsGenGetTime regs fuel log = some (time, log')) {event : HwTime}
    (hsec : event.sec < 2 ^ 31)
    (hsoon : ∀ k, LastRead .cntrNsec log' k → SoonAfter event (clock k)) :
    (∀ (m : WrMinic) (io : RxIo) (bufSize : UInt32) (hwts : HwTimestamp),
      io.isr &&& MINIC_EIC_ISR_RX ≠ 0 → io.time = time → RxDescValid m.desc →
      ¬ RxDescError m.desc → RxDescHasOob m.desc → risingCounter m.oobTs = event.cycle →
      ∃ ts, (minicRxFrame m io bufSize (some hwts)).1.hwts = some ts ∧
        ts.sec.toNat = event.sec ∧ ts.nsec.toNat = 8 * event.cycle ∧
        (ts.ahead = 1 ↔ event.cycle ≡ fallingCounter m.oobTs + 1 [MOD 16])) ∧
    (∀ (txBuf : Nat → UInt8) (io : TxIo) (hdr payload : List UInt8) (size : UInt32)
      (hwts : HwTimestamp), io.time = time → risingCounter io.tsr1 = event.cycle →
      ∃ ts, (minicTxFrame txBuf io hdr payload size (some hwts)).hwts = some ts ∧
        ts.sec.toNat = event.sec ∧ ts.nsec.toNat = 8 * event.cycle) := by
  obtain ⟨pass, hlast, hrepresents⟩ := shwPpsGenGetTime_pass hshows hmono hshort hread
  have hnow := hsoon _ hlast
  constructor
  · intro m io bufSize hwts hirq htime hvalid hok hoob hcounter
    subst htime
    obtain ⟨dhdr, hresult⟩ := minicRxFrame_hwts bufSize hwts hirq hvalid hok hoob
    obtain ⟨hsecond, hnsec⟩ := rxTimestamp_sec hwts dhdr hcounter hrepresents hnow hsec
    refine ⟨_, hresult, hsecond, hnsec, ?_⟩
    rw [rxTimestamp_ahead, hcounter]
  · intro txBuf io hdr payload size hwts htime hcounter
    subst htime
    exact ⟨_, rfl, txTimestamp_sec hwts _ hcounter hrepresents hnow hsec⟩

/-- An event eight microseconds before the end of second five. -/
def lateEvent : HwTime := ⟨5, 124999000, by decide⟩

/-- The look eight microseconds after the end of that second. -/
def earlyLook : HwTime := ⟨6, 1000, by decide⟩

/-- A frame across the end of the ring with the counters of `lateEvent`. -/
def lateFrame : WrMinic where
  rxBuf := writeAt (writeAt (fun _ => 0) 2040 [0xa0, 0, 0, 26]) 18 [0x77, 0x73, 0x55, 0x58]
  rxHead := 510
  rxCount := 0
  writes := []

theorem timestamps_attributed_late :
    (∃ ts, (minicRxFrame lateFrame ⟨MINIC_EIC_ISR_RX, 0, (6, 8000)⟩ 100
        (some ⟨0, 0, 0, 0, 0⟩)).1.hwts = some ts ∧
      ts.sec.toNat = 5 ∧ ts.nsec.toNat = 8 * 124999000 ∧
      (ts.ahead = 1 ↔ 124999000 ≡ fallingCounter lateFrame.oobTs + 1 [MOD 16])) ∧
    ∃ ts, (minicTxFrame (fun _ => 0) ⟨fun _ => MINIC_MCR_TX_IDLE, 1, 124999000, (6, 8000)⟩ [] []
        60 (some ⟨0, 0, 0, 0, 0⟩)).hwts = some ts ∧
      ts.sec.toNat = 5 ∧ ts.nsec.toNat = 8 * 124999000 := by
  have hread : shwPpsGenGetTime (regsOf fun _ => earlyLook) 1 [] =
      some ((6, 8000), passReads) := by decide
  have hsec : lateEvent.sec < 2 ^ 31 := by decide
  have hboth := timestamps_attributed (shows_regsOf fun _ => earlyLook)
    (fun _ _ _ => Nat.le_refl _) (fun _ => Nat.lt_add_of_pos_right (by decide)) hread hsec
    (fun _ _ => ⟨by decide, by decide⟩)
  exact ⟨hboth.1 lateFrame ⟨MINIC_EIC_ISR_RX, 0, (6, 8000)⟩ 100 ⟨0, 0, 0, 0, 0⟩ (by decide) rfl
      (by decide) (by decide) (by decide) (by decide),
    hboth.2 (fun _ => 0) ⟨fun _ => MINIC_MCR_TX_IDLE, 1, 124999000, (6, 8000)⟩ [] [] 60
      ⟨0, 0, 0, 0, 0⟩ rfl (by decide)⟩

end Minic
end WrpcSw
