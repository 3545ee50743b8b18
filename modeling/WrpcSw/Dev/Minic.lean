import WrpcSw.Dev.PpsGen
import WrpcSw.Lib.Memory
import WrpcSw.Net.Sockq

/-!
# Reception by the Mini-NIC (`dev/minic.c`)

The Mini-NIC writes received frames into a ring of 512 words: a descriptor, the frame,
and where the descriptor says so six bytes with the status and the raw timestamp.
`minic_rx_frame` copies the frame at the head out, clears its words for the hardware
to use again and moves the head.

A pointer into the ring is its distance from `rx_base`, in words for `rx_head` and in
bytes for the copies; the registers that a call reads are its inputs, and the ones it
writes are logged.

* `minicRxMemcpy_eq`, `minicRxMemset_eq` — the copies and the clearing wrap around.
* `minicRxFrame_exact` — header, payload, timestamp, freed words and new head of a
  received frame.
-/

namespace WrpcSw
namespace Minic

open Memory RingBuffer
open Net (HwTimestamp ETH_HEADER_SIZE)
open PpsGen (REF_CLOCK_FREQ_HZ REF_CLOCK_PERIOD_PS)

def MINIC_DMA_RX_BUF_SIZE : Nat := 2048

/-- `minic.rx_size`, in words. -/
def RX_SIZE : Nat := MINIC_DMA_RX_BUF_SIZE / 4

def F_COUNTER_MASK : UInt32 := 15

def RX_OOB_SIZE : UInt32 := 6

def RXOOB_TS_INCORRECT : UInt16 := (1 : UInt16) <<< 11

def MINIC_EIC_ISR_RX : UInt32 := (1 : UInt32) <<< 1

def MINIC_MCR_RX_FULL : UInt32 := (1 : UInt32) <<< 9

def MINIC_MCR_RX_EN : UInt32 := (1 : UInt32) <<< 10

/-! ## The descriptor -/

abbrev RxDescValid (d : UInt32) : Prop := d &&& (1 : UInt32) <<< 31 ≠ 0

abbrev RxDescError (d : UInt32) : Prop := d &&& (1 : UInt32) <<< 30 ≠ 0

abbrev RxDescHasOob (d : UInt32) : Prop := d &&& (1 : UInt32) <<< 29 ≠ 0

/-- The size counts 16-bit words; the lowest bit says that the last byte is not used. -/
def rxDescSize (d : UInt32) : UInt32 :=
  (if d &&& (1 : UInt32) <<< 0 ≠ 0 then -1 else 0) + (d &&& 0xffe)

/-! ## The ring -/

/-- The writes to the registers of the device. -/
inductive RegWrite
  | mcr (v : UInt32)
  | rxAddr
  | rxSize (words : Nat)
  | rxAvail (words : UInt32)
  | eicIsr (v : UInt32)
deriving DecidableEq

/-- The receiving half of `struct wr_minic`, with the ring. -/
structure WrMinic where
  rxBuf : Nat → UInt8
  rxHead : Nat
  rxCount : Int
  writes : List RegWrite

/-- The registers that a call to `minic_rx_frame` reads, and the time it is told. -/
structure RxIo where
  isr : UInt32
  mcr : UInt32
  time : UInt64 × UInt32

/-- The word `w` of the ring; the processor is big-endian. -/
def wordAt (buf : Nat → UInt8) (w : Nat) : UInt32 := UInt32.ofNat (beNumber (readAt buf (4 * w) 4))

def minicRxMemcpy (buf : Nat → UInt8) (src size : Nat) : List UInt8 :=
  let src := src % (RX_SIZE <<< 2)
  if src + size ≤ RX_SIZE <<< 2 then readAt buf src size
  else
    let part := (RX_SIZE <<< 2) - src
    readAt buf src part ++ readAt buf 0 (size - part)

def minicRxMemset (buf : Nat → UInt8) (mem : Nat) (c : UInt8) (size : Nat) : Nat → UInt8 :=
  let src := mem % (RX_SIZE <<< 2)
  if src + size ≤ RX_SIZE <<< 2 then writeAt buf src (List.replicate size c)
  else
    let part := (RX_SIZE <<< 2) - src
    writeAt (writeAt buf src (List.replicate part c)) 0 (List.replicate (size - part) c)

def minicNewRxBuffer (m : WrMinic) : WrMinic where
  rxBuf := minicRxMemset m.rxBuf 0 0x00 (RX_SIZE <<< 2)
  rxHead := 0
  rxCount := m.rxCount
  writes := m.writes ++ [.mcr 0, .rxAddr, .rxSize RX_SIZE, .eicIsr MINIC_EIC_ISR_RX,
    .mcr MINIC_MCR_RX_EN]

def minicRxbufFree (m : WrMinic) (words : UInt32) : WrMinic :=
  { m with
    rxBuf := minicRxMemset m.rxBuf (4 * m.rxHead) 0x00 (words <<< 2).toNat
    writes := m.writes ++ [.rxAvail words] }

/-! ## The received frame -/

/-- The second of an event, in both directions: one before the `time` that the driver is told
where that is early in a second and the event was late in one. -/
def secondOf (counterR : UInt32) (time : UInt64 × UInt32) : UInt64 :=
  if counterR > UInt32.ofNat (3 * REF_CLOCK_FREQ_HZ / 4) ∧ time.2 < 250000000 then time.1 - 1
  else time.1

/-- The timestamp of a frame, from the cycle counters of its out-of-band data and the time
that the driver is told. -/
def rxTimestamp (hwts : HwTimestamp) (rawTs : UInt32) (dhdr : UInt16) (time : UInt64 × UInt32) :
    HwTimestamp :=
  let counterR := rawTs &&& 0xfffffff
  let counterF := rawTs >>> 28 &&& 0xf
  let cntrDiff := ((counterR &&& F_COUNTER_MASK) - counterF).toInt32
  { hwts with
    sec := secondOf counterR time &&& 0x7fffffff
    ahead := if cntrDiff = 1 ∨ cntrDiff = -F_COUNTER_MASK.toInt32 then 1 else 0
    nsec := counterR * UInt32.ofInt (REF_CLOCK_PERIOD_PS / 1000)
    valid := if dhdr &&& RXOOB_TS_INCORRECT ≠ 0 then 0 else 1 }

/-- What a call hands to its caller. -/
structure RxResult where
  ret : Int32
  hdr : List UInt8
  payload : List UInt8
  hwts : Option HwTimestamp

/-- The out-of-band part of a frame: its size without it, and the timestamp.  A missing
`hwts` is `NULL`. -/
def takeOob (m : WrMinic) (io : RxIo) (descHdr payloadSize : UInt32) :
    Option HwTimestamp → UInt32 × Option HwTimestamp
  | some hwts =>
      if RxDescHasOob descHdr then
        let payloadSize := payloadSize - RX_OOB_SIZE
        let rawTs := minicRxMemcpy m.rxBuf (4 * m.rxHead + payloadSize.toNat + 6) 4
        let dhdr := minicRxMemcpy m.rxBuf (4 * m.rxHead + payloadSize.toNat + 4) 2
        (payloadSize, some (rxTimestamp hwts (UInt32.ofNat (beNumber rawTs))
          (UInt16.ofNat (beNumber dhdr)) io.time))
      else (payloadSize, some hwts)
  | none => (payloadSize, none)

/-- The branch of `minic_rx_frame` for a frame without error. -/
def copyFrame (m : WrMinic) (io : RxIo) (descHdr payloadSize bufSize : UInt32)
    (hwts : Option HwTimestamp) : RxResult × WrMinic :=
  let (payloadSize, hwts) := takeOob m io descHdr payloadSize hwts
  let nRecvd : Int32 := (if bufSize < payloadSize then bufSize else payloadSize).toInt32
  ({ ret := nRecvd
     hdr := minicRxMemcpy m.rxBuf (4 * m.rxHead + 4) ETH_HEADER_SIZE
     payload := minicRxMemcpy m.rxBuf (4 * m.rxHead + 4 + ETH_HEADER_SIZE)
       (nRecvd - Int32.ofNat ETH_HEADER_SIZE).toUInt32.toNat
     hwts := hwts },
    { m with rxCount := m.rxCount + 1 })

/-- The end of `minic_rx_frame`: the words of the frame are freed and the head moves. -/
def freeFrame (m : WrMinic) (io : RxIo) (numWords : UInt32) : WrMinic :=
  let m := minicRxbufFree m numWords
  let m := { m with rxHead := (4 * m.rxHead + (numWords <<< 2).toNat) % (RX_SIZE <<< 2) / 4 }
  if RxDescValid (wordAt m.rxBuf m.rxHead) then m
  else
    let m := if io.mcr &&& MINIC_MCR_RX_FULL ≠ 0 then minicNewRxBuffer m else m
    { m with writes := m.writes ++ [.eicIsr MINIC_EIC_ISR_RX] }

def minicRxFrame (m : WrMinic) (io : RxIo) (bufSize : UInt32) (hwts : Option HwTimestamp) :
    RxResult × WrMinic :=
  if io.isr &&& MINIC_EIC_ISR_RX = 0 then (⟨0, [], [], hwts⟩, m)
  else
    let descHdr := wordAt m.rxBuf m.rxHead
    if ¬ RxDescValid descHdr then
      -- the message printed when the ring is not full is all that differs
      (⟨0, [], [], hwts⟩, minicNewRxBuffer m)
    else
      let payloadSize := rxDescSize descHdr
      let numWords := ((payloadSize + 3) >>> 2) + 1
      let (r, m) := if ¬ RxDescError descHdr then copyFrame m io descHdr payloadSize bufSize hwts
        else (⟨-1, [], [], hwts⟩, m)
      (r, freeFrame m io numWords)

/-! ## Blocks of the ring -/

/-- A copy out of the ring follows it around. -/
theorem minicRxMemcpy_eq (buf : Nat → UInt8) (src : Nat) {size : Nat}
    (h : size ≤ MINIC_DMA_RX_BUF_SIZE) :
    minicRxMemcpy buf src size = readRing buf MINIC_DMA_RX_BUF_SIZE src size := by
  have hbytes : RX_SIZE <<< 2 = MINIC_DMA_RX_BUF_SIZE := rfl
  have hlt : src % MINIC_DMA_RX_BUF_SIZE < MINIC_DMA_RX_BUF_SIZE := Nat.mod_lt _ (by decide)
  rw [minicRxMemcpy, hbytes, ← readRing_mod]
  dsimp only
  split_ifs with hinside
  · exact (readRing_inside buf hinside).symm
  · exact (readRing_around buf hlt.le (by omega) h).symm

/-- Clearing follows the ring around, too. -/
theorem minicRxMemset_eq (buf : Nat → UInt8) (mem : Nat) (c : UInt8) {size : Nat}
    (h : size ≤ MINIC_DMA_RX_BUF_SIZE) :
    minicRxMemset buf mem c size = fillRing buf MINIC_DMA_RX_BUF_SIZE mem size c := by
  have hbytes : RX_SIZE <<< 2 = MINIC_DMA_RX_BUF_SIZE := rfl
  have hlt : mem % MINIC_DMA_RX_BUF_SIZE < MINIC_DMA_RX_BUF_SIZE := Nat.mod_lt _ (by decide)
  have hmod : fillRing buf MINIC_DMA_RX_BUF_SIZE mem size c =
      fillRing buf MINIC_DMA_RX_BUF_SIZE (mem % MINIC_DMA_RX_BUF_SIZE) size c := by
    funext p
    exact if_congr (inRing_mod p).symm rfl rfl
  rw [minicRxMemset, hbytes, hmod]
  dsimp only
  split_ifs with hinside
  · exact fillRing_inside buf hinside c
  · exact fillRing_around buf hlt (by omega) h c

/-- The ring with the words from `h` to `h + n - 1` cleared, the last word being followed by
the first. -/
def freedRing (buf : Nat → UInt8) (h n : Nat) : Nat → UInt8 := fun p =>
  if InRing RX_SIZE h n (p / 4) then 0 else buf p

/-- The bytes of `n` words are the `4 * n` bytes from the first one on. -/
theorem inRing_bytes (h n p : Nat) :
    InRing MINIC_DMA_RX_BUF_SIZE (4 * h) (4 * n) p ↔ InRing RX_SIZE h n (p / 4) := by
  have hbytes : MINIC_DMA_RX_BUF_SIZE = 2048 := rfl
  have hwords : RX_SIZE = 512 := rfl
  unfold InRing
  rw [hbytes, hwords]
  constructor
  · rintro ⟨i, hi, rfl⟩
    exact ⟨i / 4, by omega, by omega⟩
  · rintro ⟨k, hk, hword⟩
    exact ⟨4 * k + p % 4, by omega, by omega⟩

/-! ## The frame at the head -/

section Frame

variable (m : WrMinic)

/-- The descriptor at the head. -/
def WrMinic.desc : UInt32 := wordAt m.rxBuf m.rxHead

/-- Its size, the out-of-band bytes included. -/
def WrMinic.size : Nat := (rxDescSize m.desc).toNat

/-- The words that the frame takes up with its descriptor. -/
def WrMinic.words : Nat := (m.size + 3) / 4 + 1

/-- The size of the frame itself. -/
def WrMinic.frameSize : Nat := if RxDescHasOob m.desc then m.size - 6 else m.size

/-- The `n` bytes of the ring that are `offset` bytes after the head. -/
def WrMinic.bytesAt (offset n : Nat) : List UInt8 :=
  readRing m.rxBuf MINIC_DMA_RX_BUF_SIZE (4 * m.rxHead + offset) n

/-- The status and the raw timestamp that follow the frame. -/
def WrMinic.dhdr : UInt16 := UInt16.ofNat (beNumber (m.bytesAt (4 + m.frameSize) 2))

def WrMinic.rawTs : UInt32 := UInt32.ofNat (beNumber (m.bytesAt (4 + m.frameSize + 2) 4))

/-- The timestamp that a call stores: that of the frame if it has one. -/
def WrMinic.stamp (time : UInt64 × UInt32) (ts : HwTimestamp) : HwTimestamp :=
  if RxDescHasOob m.desc then rxTimestamp ts m.rawTs m.dhdr time else ts

end Frame

/-- The subtraction of the header from the number of received bytes. -/
theorem toNat_payloadCount {n : UInt32} (h : ETH_HEADER_SIZE ≤ n.toNat) :
    (n.toInt32 - Int32.ofNat ETH_HEADER_SIZE).toUInt32.toNat = n.toNat - ETH_HEADER_SIZE := by
  have hlt := n.toNat_lt
  have hheader : (Int32.ofNat ETH_HEADER_SIZE).toUInt32.toNat = ETH_HEADER_SIZE := rfl
  rw [Int32.toUInt32_sub, UInt32.toUInt32_toInt32, UInt32.toNat_sub, hheader]
  omega

section Received

variable {m : WrMinic}

/-- A frame whose words fit into the ring does so with its bytes. -/
theorem WrMinic.size_le (hwords : m.words ≤ RX_SIZE) : m.size ≤ 2044 := by
  unfold words RX_SIZE MINIC_DMA_RX_BUF_SIZE at hwords
  omega

theorem toNat_numWords (hwords : m.words ≤ RX_SIZE) :
    (((rxDescSize m.desc + 3) >>> 2) + 1).toNat = m.words := by
  have hsize := m.size_le hwords
  have hsum : (rxDescSize m.desc + 3).toNat = m.size + 3 := by
    rw [UInt32.toNat_add]
    exact Nat.mod_eq_of_lt (by simp [WrMinic.size] at hsize ⊢; omega)
  have hshift : ((rxDescSize m.desc + 3) >>> 2).toNat = (m.size + 3) / 4 := by
    rw [UInt32.toNat_shiftRight, hsum]
    exact Nat.shiftRight_eq_div_pow _ 2
  rw [UInt32.toNat_add, hshift, WrMinic.words]
  exact Nat.mod_eq_of_lt (by simp; omega)

/-- The out-of-band part is split off, and its timestamp taken from behind the frame. -/
theorem takeOob_eq (io : RxIo) {hwts : Option HwTimestamp}
    (hsize : RxDescHasOob m.desc → RX_OOB_SIZE.toNat ≤ m.size)
    (hstamp : RxDescHasOob m.desc → hwts.isSome) :
    (takeOob m io m.desc (rxDescSize m.desc) hwts).1.toNat = m.frameSize ∧
      (takeOob m io m.desc (rxDescSize m.desc) hwts).2 = hwts.map (m.stamp io.time) := by
  by_cases hoob : RxDescHasOob m.desc
  · obtain ⟨ts, rfl⟩ := Option.isSome_iff_exists.mp (hstamp hoob)
    have hframe : (rxDescSize m.desc - RX_OOB_SIZE).toNat = m.frameSize := by
      have hlt := (rxDescSize m.desc).toNat_lt
      have hlarge := hsize hoob
      have hsix : RX_OOB_SIZE.toNat = 6 := rfl
      rw [UInt32.toNat_sub, WrMinic.frameSize, if_pos hoob]
      unfold WrMinic.size at *
      omega
    rw [takeOob, if_pos hoob]
    refine ⟨hframe, ?_⟩
    dsimp only
    rw [hframe, minicRxMemcpy_eq _ _ (by decide), minicRxMemcpy_eq _ _ (by decide),
      Option.map_some, WrMinic.stamp, if_pos hoob, WrMinic.rawTs, WrMinic.dhdr,
      WrMinic.bytesAt, WrMinic.bytesAt,
      show 4 * m.rxHead + m.frameSize + 6 = 4 * m.rxHead + (4 + m.frameSize + 2) by omega,
      show 4 * m.rxHead + m.frameSize + 4 = 4 * m.rxHead + (4 + m.frameSize) by omega]
  · have hid : m.stamp io.time = id := by
      funext ts
      rw [WrMinic.stamp, if_neg hoob, id]
    rw [hid, Option.map_id, WrMinic.frameSize, if_neg hoob]
    cases hwts with
    | none => exact ⟨rfl, rfl⟩
    | some ts =>
        rw [takeOob, if_neg hoob]
        exact ⟨rfl, rfl⟩

/-- A frame without error is copied out as far as the buffer of the caller reaches. -/
theorem copyFrame_eq (io : RxIo) {bufSize : UInt32} {hwts : Option HwTimestamp}
    (hwords : m.words ≤ RX_SIZE) (hsize : RxDescHasOob m.desc → RX_OOB_SIZE.toNat ≤ m.size)
    (hheader : ETH_HEADER_SIZE ≤ m.frameSize) (hbuf : ETH_HEADER_SIZE ≤ bufSize.toNat)
    (hstamp : RxDescHasOob m.desc → hwts.isSome) :
    ∃ n : Int32, n.toInt = (min bufSize.toNat m.frameSize : Nat) ∧
      copyFrame m io m.desc (rxDescSize m.desc) bufSize hwts =
        ({ ret := n
           hdr := m.bytesAt 4 ETH_HEADER_SIZE
           payload := m.bytesAt (4 + ETH_HEADER_SIZE)
             (min bufSize.toNat m.frameSize - ETH_HEADER_SIZE)
           hwts := hwts.map (m.stamp io.time) },
          { m with rxCount := m.rxCount + 1 }) := by
  obtain ⟨hframe, hts⟩ := takeOob_eq io hsize hstamp
  have hfits := m.size_le hwords
  have hless : m.frameSize ≤ m.size := by
    unfold WrMinic.frameSize
    split_ifs <;> omega
  rcases hoob : takeOob m io m.desc (rxDescSize m.desc) hwts with ⟨payloadSize, hwts'⟩
  rw [hoob] at hframe hts
  dsimp only at hframe hts
  have hcount : (if bufSize < payloadSize then bufSize else payloadSize).toNat =
      min bufSize.toNat m.frameSize := by
    rw [apply_ite UInt32.toNat, ← hframe]
    simp only [UInt32.lt_iff_toNat_lt]
    split_ifs <;> omega
  refine ⟨_, CInt.toInt_toInt32_of_lt (by rw [hcount]; omega) |>.trans (congrArg _ hcount), ?_⟩
  rw [copyFrame, hoob]
  dsimp only
  rw [toNat_payloadCount (by rw [hcount]; omega), hcount, hts,
    minicRxMemcpy_eq _ _ (by decide), minicRxMemcpy_eq]
  · rw [WrMinic.bytesAt, WrMinic.bytesAt, Nat.add_assoc]
  · unfold MINIC_DMA_RX_BUF_SIZE
    omega

/-- The words of the frame are freed and the head moves past them.  The ring starts anew only
where the next descriptor is not valid and the device says that the ring is full. -/
theorem freeFrame_eq {io : RxIo} {numWords : UInt32}
    (hwords : numWords.toNat ≤ RX_SIZE)
    (hnext : RxDescValid (wordAt (freedRing m.rxBuf m.rxHead numWords.toNat)
        ((m.rxHead + numWords.toNat) % RX_SIZE)) ∨ io.mcr &&& MINIC_MCR_RX_FULL = 0) :
    (freeFrame m io numWords).rxBuf = freedRing m.rxBuf m.rxHead numWords.toNat ∧
      (freeFrame m io numWords).rxHead = (m.rxHead + numWords.toNat) % RX_SIZE := by
  have hbytes : (numWords <<< 2).toNat = 4 * numWords.toNat := by
    have hsize : RX_SIZE = 512 := rfl
    rw [UInt32.toNat_shiftLeft, show (2 : UInt32).toNat % 32 = 2 from rfl, Nat.shiftLeft_eq]
    omega
  have hfit : 4 * numWords.toNat ≤ MINIC_DMA_RX_BUF_SIZE := by
    unfold RX_SIZE MINIC_DMA_RX_BUF_SIZE at *
    omega
  have hbuf : (minicRxbufFree m numWords).rxBuf = freedRing m.rxBuf m.rxHead numWords.toNat := by
    funext p
    simp only [minicRxbufFree, hbytes, minicRxMemset_eq _ _ _ hfit]
    exact if_congr (inRing_bytes _ _ p) rfl rfl
  have hmove : (4 * m.rxHead + 4 * numWords.toNat) % (RX_SIZE <<< 2) / 4 =
      (m.rxHead + numWords.toNat) % RX_SIZE := by
    rw [show RX_SIZE <<< 2 = 2048 from rfl, show RX_SIZE = 512 from rfl]
    omega
  have hsame : (minicRxbufFree m numWords).rxHead = m.rxHead := rfl
  simp only [freeFrame, hbuf, hbytes, hsame, hmove]
  split_ifs with hvalid hfull
  · exact ⟨rfl, rfl⟩
  · exact absurd (hnext.resolve_left hvalid) hfull
  · exact ⟨rfl, rfl⟩

/-- A call that finds a frame without error copies it out and frees it. -/
theorem minicRxFrame_frame {io : RxIo} (bufSize : UInt32) (hwts : Option HwTimestamp)
    (hirq : io.isr &&& MINIC_EIC_ISR_RX ≠ 0) (hvalid : RxDescValid m.desc)
    (hok : ¬ RxDescError m.desc) :
    minicRxFrame m io bufSize hwts =
      ((copyFrame m io m.desc (rxDescSize m.desc) bufSize hwts).1,
        freeFrame (copyFrame m io m.desc (rxDescSize m.desc) bufSize hwts).2 io
          (((rxDescSize m.desc + 3) >>> 2) + 1)) := by
  have hdesc : wordAt m.rxBuf m.rxHead = m.desc := rfl
  rw [minicRxFrame, if_neg hirq]
  dsimp only
  rw [hdesc, if_neg (not_not.mpr hvalid), if_pos hok]

end Received

/-- The ring is read and freed exactly.  The next descriptor is the one that the driver finds
once the words of the frame are freed. -/
theorem minicRxFrame_exact (m : WrMinic) (io : RxIo) (bufSize : UInt32)
    (hwts : Option HwTimestamp) (hirq : io.isr &&& MINIC_EIC_ISR_RX ≠ 0)
    (hvalid : RxDescValid m.desc) (hok : ¬ RxDescError m.desc)
    (hstamp : RxDescHasOob m.desc → hwts.isSome)
    (hsize : (if RxDescHasOob m.desc then 20 else 14) ≤ m.size) (hwords : m.words ≤ RX_SIZE)
    (hbuf : 14 ≤ bufSize.toNat)
    (hnext : RxDescValid (wordAt (freedRing m.rxBuf m.rxHead m.words)
        ((m.rxHead + m.words) % RX_SIZE)) ∨ io.mcr &&& MINIC_MCR_RX_FULL = 0) :
    let received := min bufSize.toNat m.frameSize
    let r := (minicRxFrame m io bufSize hwts).1
    let m' := (minicRxFrame m io bufSize hwts).2
    r.hdr = m.bytesAt 4 14 ∧ r.payload = m.bytesAt 18 (received - 14) ∧
      r.hwts = hwts.map (m.stamp io.time) ∧ r.ret.toInt = received ∧
      m'.rxBuf = freedRing m.rxBuf m.rxHead m.words ∧
      m'.rxHead = (m.rxHead + m.words) % RX_SIZE := by
  have hoobSize : RxDescHasOob m.desc → RX_OOB_SIZE.toNat ≤ m.size := fun hoob => by
    rw [if_pos hoob] at hsize
    exact (by decide : RX_OOB_SIZE.toNat ≤ 20).trans hsize
  have hheader : ETH_HEADER_SIZE ≤ m.frameSize := by
    unfold WrMinic.frameSize ETH_HEADER_SIZE
    split_ifs at hsize ⊢ <;> omega
  obtain ⟨n, hn, hcopy⟩ := copyFrame_eq io hwords hoobSize hheader hbuf hstamp
  have hcount := toNat_numWords hwords
  have hfree := @freeFrame_eq { m with rxCount := m.rxCount + 1 } io _
    (hcount ▸ hwords) (by rw [hcount]; exact hnext)
  rw [hcount] at hfree
  rw [minicRxFrame_frame bufSize hwts hirq hvalid hok, hcopy]
  exact ⟨rfl, rfl, rfl, hn, hfree⟩

/-- A frame of 20 bytes with out-of-band data whose descriptor is two words before the end of
the ring. -/
def wrappedFrame : WrMinic where
  rxBuf p := if p = 2040 then 0xa0 else if p = 2043 then 26 else UInt8.ofNat (p % 4)
  rxHead := 510
  rxCount := 0
  writes := []

theorem minicRxFrame_exact_wrapped :
    let io : RxIo := ⟨MINIC_EIC_ISR_RX, 0, (5, 0)⟩
    let ts : HwTimestamp := ⟨0, 0, 0, 0, 0⟩
    let r := (minicRxFrame wrappedFrame io 100 (some ts)).1
    let m' := (minicRxFrame wrappedFrame io 100 (some ts)).2
    r.hdr = wrappedFrame.bytesAt 4 14 ∧
      r.payload = wrappedFrame.bytesAt 18 (min 100 wrappedFrame.frameSize - 14) ∧
      r.hwts = (some ts).map (wrappedFrame.stamp io.time) ∧
      r.ret.toInt = (min 100 wrappedFrame.frameSize : Nat) ∧
      m'.rxBuf = freedRing wrappedFrame.rxBuf wrappedFrame.rxHead wrappedFrame.words ∧
      m'.rxHead = (wrappedFrame.rxHead + wrappedFrame.words) % RX_SIZE :=
  minicRxFrame_exact wrappedFrame ⟨MINIC_EIC_ISR_RX, 0, (5, 0)⟩ 100 (some ⟨0, 0, 0, 0, 0⟩)
    (by decide) (by decide) (by decide) (fun _ => rfl) (by decide) (by decide) (by decide)
    (Or.inr rfl)

end Minic
end WrpcSw
