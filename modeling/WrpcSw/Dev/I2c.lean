import Mathlib.Data.List.Basic
import Mathlib.Tactic.IntervalCases
import Mathlib.Tactic.SplitIfs

/-!
# The I2C master and its EEPROM (`dev/i2c.c`, `dev/eeprom.c`)

The master drives the two lines of the bus by hand.  After each byte it looks at SDA: the device
pulls the line low to acknowledge the byte.

`mi2c_put_byte` returns what it saw as an `unsigned char`.  `eeprom_read` and `eeprom_write` test
the result of the first byte for being negative, and do not look at the others.

* `putByte_spec` — a byte on the bus, and the level that is seen for it.
* `eepromRead_eq`, `writeLoop_spec` — the bytes of a transfer.
* `reports_iff` — a transfer reports what became of it only if there is nothing to report.
-/

namespace WrpcSw
namespace Dev
namespace I2c

/-! ## The bus -/

/-- What the master does with the lines. -/
inductive Pin
  | sda (level : Bool)
  | scl (level : Bool)
deriving DecidableEq

/-- A byte that the master has sent, and the level of SDA that it saw for it. -/
structure Sent where
  data : UInt8
  refused : Bool
deriving DecidableEq

/-- The bus of one interface.  `sda` has the levels that the device shows, one for each time that
the master looks; it has looked `seen` times.  `pins` and `sent` tell what happened on the bus. -/
structure Bus where
  sda : Nat → Bool
  seen : Nat := 0
  pins : List Pin := []
  sent : List Sent := []

namespace Bus

/-- `M_SDA_OUT`. -/
def sdaOut (bus : Bus) (level : Bool) : Bus := { bus with pins := bus.pins ++ [.sda level] }

/-- `M_SCL_OUT`. -/
def sclOut (bus : Bus) (level : Bool) : Bus := { bus with pins := bus.pins ++ [.scl level] }

/-- `M_SDA_IN`. -/
def sdaIn (bus : Bus) : Bus × Bool := ({ bus with seen := bus.seen + 1 }, bus.sda bus.seen)

end Bus

def mi2cStart (bus : Bus) : Bus := (bus.sdaOut false).sclOut false

def mi2cRepeatStart (bus : Bus) : Bus :=
  (((bus.sdaOut true).sclOut true).sdaOut false).sclOut false

def mi2cStop (bus : Bus) : Bus := ((bus.sdaOut false).sclOut true).sdaOut true

/-- The loop of `mi2c_put_byte` over the bits. -/
def shiftOut : Nat → Bus → UInt8 → Bus
  | 0, bus, _ => bus
  | n + 1, bus, data =>
      shiftOut n (((bus.sdaOut (data &&& 0x80 ≠ 0)).sclOut true).sclOut false) (data <<< 1)

/-- `mi2c_put_byte`. -/
def mi2cPutByte (bus : Bus) (data : UInt8) : Bus × UInt8 :=
  let bus := shiftOut 8 bus data
  let bus := (bus.sdaOut true).sclOut true
  let (bus, ack) := bus.sdaIn
  let bus := (bus.sclOut false).sdaOut false
  ({ bus with sent := bus.sent ++ [⟨data, ack⟩] }, if ack then 1 else 0)

/-- The loop of `mi2c_get_byte` over the bits. -/
def shiftIn : Nat → Bus → UInt8 → Bus × UInt8
  | 0, bus, indata => (bus, indata)
  | n + 1, bus, indata =>
      let (bus, level) := (bus.sclOut true).sdaIn
      let indata := indata <<< 1
      shiftIn n (bus.sclOut false) (if level then indata ||| 0x01 else indata)

/-- `mi2c_get_byte`; the last byte is not acknowledged. -/
def mi2cGetByte (bus : Bus) (last : Bool) : Bus × UInt8 :=
  let bus := (bus.sdaOut true).sclOut false
  let (bus, indata) := shiftIn 8 bus 0
  (((bus.sdaOut last).sclOut true).sclOut false, indata)

/-! ## The EEPROM -/

/-- The control byte of a write. -/
def control (i2cAddr : UInt8) : UInt8 := i2cAddr <<< 1

def offsetHigh (offset : UInt32) : UInt8 := ((offset >>> 8) &&& 0xff).toUInt8

def offsetLow (offset : UInt32) : UInt8 := (offset &&& 0xff).toUInt8

/-- The loop of `eeprom_read`. -/
def getBytes : Nat → Bus → Bus × List UInt8
  | 0, bus => (bus, [])
  | n + 1, bus =>
      let (bus, c) := mi2cGetByte bus false
      let (bus, buf) := getBytes n bus
      (bus, c :: buf)

/-- `eeprom_read`: the return value, and what is put into the buffer. -/
def eepromRead (hasEeprom : Bool) (bus : Bus) (i2cAddr : UInt8) (offset : UInt32) (size : Nat) :
    Bus × Int × List UInt8 :=
  if ¬ hasEeprom then (bus, -1, [])
  else
    let (bus, ret) := mi2cPutByte (mi2cStart bus) (control i2cAddr)
    if (ret.toNat : Int) < 0 then (mi2cStop bus, -1, [])
    else
      let bus := (mi2cPutByte bus (offsetHigh offset)).1
      let bus := (mi2cPutByte bus (offsetLow offset)).1
      let bus := mi2cRepeatStart bus
      let bus := (mi2cPutByte bus (control i2cAddr ||| 1)).1
      let (bus, buf) := getBytes (size - 1) bus
      let (bus, c) := mi2cGetByte bus true
      (mi2cStop bus, size, buf ++ [c])

/-- Wait until the chip becomes ready; `none` if it is still busy after `fuel` tries. -/
def waitReady (i2cAddr : UInt8) : Nat → Bus → Option Bus
  | 0, _ => none
  | fuel + 1, bus =>
      let (bus, busy) := mi2cPutByte (mi2cStart bus) (control i2cAddr)
      let bus := mi2cStop bus
      if busy ≠ 0 then waitReady i2cAddr fuel bus else some bus

/-- The loop of `eeprom_write`; `false` if it is left with an error. -/
def writeLoop (fuel : Nat) (i2cAddr : UInt8) : UInt32 → List UInt8 → Bus → Option (Bus × Bool)
  | _, [], bus => some (bus, true)
  | offset, b :: buf, bus =>
      let (bus, ret) := mi2cPutByte (mi2cStart bus) (control i2cAddr)
      if (ret.toNat : Int) < 0 then some (mi2cStop bus, false)
      else
        let bus := (mi2cPutByte bus (offsetHigh offset)).1
        let bus := (mi2cPutByte bus (offsetLow offset)).1
        let bus := (mi2cPutByte bus b).1
        match waitReady i2cAddr fuel (mi2cStop bus) with
        | none => none
        | some bus => writeLoop fuel i2cAddr (offset + 1) buf bus

/-- `eeprom_write`.  Each wait has `fuel` tries. -/
def eepromWrite (fuel : Nat) (hasEeprom : Bool) (bus : Bus) (i2cAddr : UInt8) (offset : UInt32)
    (buf : List UInt8) : Option (Bus × Int) :=
  if ¬ hasEeprom then some (bus, -1)
  else
    match writeLoop fuel i2cAddr offset buf bus with
    | none => none
    | some (bus, true) => some (bus, buf.length)
    | some (bus, false) => some (bus, -1)

/-! ## What a transfer needs -/

/-- The bytes that a read sends, all acknowledged. -/
def readBytes (i2cAddr : UInt8) (offset : UInt32) : List Sent :=
  [⟨control i2cAddr, false⟩, ⟨offsetHigh offset, false⟩, ⟨offsetLow offset, false⟩,
    ⟨control i2cAddr ||| 1, false⟩]

/-- The bytes that the write of one byte sends, all acknowledged. -/
def writeBytes (i2cAddr : UInt8) (offset : UInt32) (b : UInt8) : List Sent :=
  [⟨control i2cAddr, false⟩, ⟨offsetHigh offset, false⟩, ⟨offsetLow offset, false⟩, ⟨b, false⟩]

/-- The polling after a byte. -/
def polls (i2cAddr : UInt8) (busy : Nat) : List Sent :=
  List.replicate busy ⟨control i2cAddr, true⟩ ++ [⟨control i2cAddr, false⟩]

/-- What was sent is a write of the buffer in which every byte was acknowledged, except for the
polling. -/
def Acknowledged (i2cAddr : UInt8) : UInt32 → List UInt8 → List Sent → Prop
  | _, [], sent => sent = []
  | offset, b :: buf, sent =>
      ∃ busy rest, sent = writeBytes i2cAddr offset b ++ polls i2cAddr busy ++ rest ∧
        Acknowledged i2cAddr (offset + 1) buf rest

/-- A transfer of `size` bytes tells whether all its bytes were acknowledged. -/
def Reports (acknowledged : Prop) (ret : Int) (size : Nat) : Prop :=
  (acknowledged → ret = size) ∧ (¬ acknowledged → ret = -1)

/-- The device acknowledges four bytes. -/
def AcksFour (sda : Nat → Bool) (pos : Nat) : Prop := ∀ k < 4, sda (pos + k) = false

/-- The device is busy `busy` times, and then ready. -/
def BusyFor (sda : Nat → Bool) (pos busy : Nat) : Prop :=
  (∀ k < busy, sda (pos + k) = true) ∧ sda (pos + busy) = false

/-- The device acknowledges the four bytes of each of `n` writes. -/
def AcksWrites (sda : Nat → Bool) : Nat → Nat → Prop
  | _, 0 => True
  | pos, n + 1 =>
      AcksFour sda pos ∧
        ∃ busy, BusyFor sda (pos + 4) busy ∧ AcksWrites sda (pos + 4 + busy + 1) n

/-! ## Bytes on the bus -/

/-- The upper `n` bits of a byte, the highest one first. -/
def bits : Nat → UInt8 → List Bool
  | 0, _ => []
  | n + 1, data => (data &&& 0x80 ≠ 0) :: bits n (data <<< 1)

/-- A bit on SDA, with a pulse on SCL. -/
def clocked (bit : Bool) : List Pin := [.sda bit, .scl true, .scl false]

theorem shiftOut_eq (n : Nat) (bus : Bus) (data : UInt8) :
    shiftOut n bus data = { bus with pins := bus.pins ++ (bits n data).flatMap clocked } := by
  induction n generalizing bus data with
  | zero =>
      rw [shiftOut, bits, List.flatMap_nil, List.append_nil]
  | succ n ih =>
      rw [shiftOut, ih, bits, List.flatMap_cons, ← List.append_assoc]
      simp only [Bus.sdaOut, Bus.sclOut, clocked, List.append_assoc, List.cons_append,
        List.nil_append]

/-- A byte on the bus: its bits, then the line is released for one more pulse, at which the master
looks at it. -/
theorem putByte_eq (bus : Bus) (data : UInt8) :
    mi2cPutByte bus data =
      ({ bus with
          seen := bus.seen + 1
          pins := bus.pins ++ (bits 8 data).flatMap clocked ++ clocked true ++ [.sda false]
          sent := bus.sent ++ [⟨data, bus.sda bus.seen⟩] },
        if bus.sda bus.seen then 1 else 0) := by
  rw [mi2cPutByte, shiftOut_eq]
  simp only [Bus.sdaOut, Bus.sclOut, Bus.sdaIn, clocked, List.append_assoc, List.cons_append,
    List.nil_append]

/-- What matters of a bus: the device, and the bytes sent so far. -/
structure Follows (bus bus' : Bus) (seen : Nat) (sent : List Sent) : Prop where
  sda : bus'.sda = bus.sda
  seen : bus'.seen = bus.seen + seen
  sent : bus'.sent = bus.sent ++ sent

theorem Follows.refl (bus : Bus) : Follows bus bus 0 [] := ⟨rfl, rfl, (List.append_nil _).symm⟩

theorem Follows.trans {bus bus' bus'' : Bus} {seen seen' : Nat} {sent sent' : List Sent}
    (h : Follows bus bus' seen sent) (h' : Follows bus' bus'' seen' sent') :
    Follows bus bus'' (seen + seen') (sent ++ sent') := by
  refine ⟨h'.sda.trans h.sda, ?_, ?_⟩
  · rw [h'.seen, h.seen, Nat.add_assoc]
  · rw [h'.sent, h.sent, List.append_assoc]

theorem follows_start (bus : Bus) : Follows bus (mi2cStart bus) 0 [] :=
  ⟨rfl, rfl, (List.append_nil _).symm⟩

theorem follows_repeatStart (bus : Bus) : Follows bus (mi2cRepeatStart bus) 0 [] :=
  ⟨rfl, rfl, (List.append_nil _).symm⟩

theorem follows_stop (bus : Bus) : Follows bus (mi2cStop bus) 0 [] :=
  ⟨rfl, rfl, (List.append_nil _).symm⟩

theorem follows_putByte (bus : Bus) (data : UInt8) :
    Follows bus (mi2cPutByte bus data).1 1 [⟨data, bus.sda bus.seen⟩] := by
  rw [putByte_eq]
  exact ⟨rfl, rfl, rfl⟩

/-- The result of a byte is never negative. -/
theorem putByte_not_neg (bus : Bus) (data : UInt8) :
    ¬ (((mi2cPutByte bus data).2.toNat : Int) < 0) := by
  omega

theorem shiftIn_follows (n : Nat) (bus : Bus) (indata : UInt8) :
    Follows bus (shiftIn n bus indata).1 n [] := by
  induction n generalizing bus indata with
  | zero => exact Follows.refl bus
  | succ n ih =>
      have hbit : Follows bus ((bus.sclOut true).sdaIn.1.sclOut false) 1 [] :=
        ⟨rfl, rfl, (List.append_nil _).symm⟩
      have hrest := hbit.trans (ih ((bus.sclOut true).sdaIn.1.sclOut false)
        (if (bus.sclOut true).sdaIn.2 then indata <<< 1 ||| 0x01 else indata <<< 1))
      rw [Nat.add_comm] at hrest
      exact hrest

theorem follows_getByte (bus : Bus) (last : Bool) : Follows bus (mi2cGetByte bus last).1 8 [] := by
  have hin := shiftIn_follows 8 ((bus.sdaOut true).sclOut false) 0
  unfold mi2cGetByte
  dsimp only
  generalize shiftIn 8 ((bus.sdaOut true).sclOut false) 0 = r at hin ⊢
  exact ⟨hin.sda, hin.seen, hin.sent⟩

theorem follows_getBytes (n : Nat) (bus : Bus) : Follows bus (getBytes n bus).1 (8 * n) [] := by
  induction n generalizing bus with
  | zero => exact Follows.refl bus
  | succ n ih =>
      have hrest := (follows_getByte bus false).trans (ih (mi2cGetByte bus false).1)
      rw [Nat.add_comm 8, ← Nat.mul_succ] at hrest
      exact hrest

/-- Four bytes in a row, with the levels that are seen for them. -/
def four (sda : Nat → Bool) (pos : Nat) (a b c d : UInt8) : List Sent :=
  [⟨a, sda pos⟩, ⟨b, sda (pos + 1)⟩, ⟨c, sda (pos + 2)⟩, ⟨d, sda (pos + 3)⟩]

theorem four_eq_iff (sda : Nat → Bool) (pos : Nat) (a b c d : UInt8) :
    four sda pos a b c d = [⟨a, false⟩, ⟨b, false⟩, ⟨c, false⟩, ⟨d, false⟩] ↔
      AcksFour sda pos := by
  constructor
  · intro hfour k hk
    simp only [four, List.cons.injEq, Sent.mk.injEq, true_and, and_true] at hfour
    obtain ⟨h0, h1, h2, h3⟩ := hfour
    interval_cases k
    · exact h0
    · exact h1
    · exact h2
    · exact h3
  · intro hacks
    have h0 := hacks 0 (by omega)
    rw [Nat.add_zero] at h0
    rw [four, h0, hacks 1 (by omega), hacks 2 (by omega), hacks 3 (by omega)]

/-! ## The read -/

/-- A byte behind others, with the level that is seen for it. -/
theorem Follows.putByte {bus bus' : Bus} {seen : Nat} {sent : List Sent}
    (h : Follows bus bus' seen sent) (data : UInt8) :
    Follows bus (mi2cPutByte bus' data).1 (seen + 1)
      (sent ++ [⟨data, bus.sda (bus.seen + seen)⟩]) := by
  have hbyte := h.trans (follows_putByte bus' data)
  rw [h.sda, h.seen] at hbyte
  exact hbyte

/-- The bytes of a read before its data. -/
theorem follows_header (bus : Bus) (i2cAddr : UInt8) (offset : UInt32) :
    Follows bus
      (mi2cPutByte (mi2cRepeatStart (mi2cPutByte (mi2cPutByte (mi2cPutByte (mi2cStart bus)
        (control i2cAddr)).1 (offsetHigh offset)).1 (offsetLow offset)).1)
        (control i2cAddr ||| 1)).1
      4 (four bus.sda bus.seen (control i2cAddr) (offsetHigh offset) (offsetLow offset)
        (control i2cAddr ||| 1)) := by
  have hthree := (((follows_start bus).putByte (control i2cAddr)).putByte
    (offsetHigh offset)).putByte (offsetLow offset)
  exact (hthree.trans (follows_repeatStart _)).putByte (control i2cAddr ||| 1)

/-- A read sends its four bytes, and returns the size whatever the device says. -/
theorem eepromRead_eq (bus : Bus) (i2cAddr : UInt8) (offset : UInt32) (size : Nat) :
    (eepromRead true bus i2cAddr offset size).1.sent =
        bus.sent ++ four bus.sda bus.seen (control i2cAddr) (offsetHigh offset) (offsetLow offset)
          (control i2cAddr ||| 1) ∧
      (eepromRead true bus i2cAddr offset size).2.1 = size := by
  have hheader := follows_header bus i2cAddr offset
  have hbytes := (hheader.trans (follows_getBytes (size - 1) _)).trans (follows_getByte _ true)
  have hstop := hbytes.trans (follows_stop _)
  rw [eepromRead, if_neg (not_not_intro rfl)]
  dsimp only
  rw [if_neg (putByte_not_neg _ _)]
  refine ⟨?_, rfl⟩
  rw [hstop.sent, List.append_nil, List.append_nil, List.append_nil]

/-! ## The write -/

/-- The polling ends when the device is ready. -/
theorem waitReady_spec {i2cAddr : UInt8} {fuel : Nat} {bus bus' : Bus}
    (h : waitReady i2cAddr fuel bus = some bus') :
    ∃ busy, BusyFor bus.sda bus.seen busy ∧ Follows bus bus' (busy + 1) (polls i2cAddr busy) := by
  induction fuel generalizing bus with
  | zero => exact absurd h nofun
  | succ fuel ih =>
      have hpoll : Follows bus (mi2cStop (mi2cPutByte (mi2cStart bus) (control i2cAddr)).1) 1
          [⟨control i2cAddr, bus.sda bus.seen⟩] :=
        ((follows_start bus).putByte (control i2cAddr)).trans (follows_stop _)
      have hbusy : (mi2cPutByte (mi2cStart bus) (control i2cAddr)).2 =
          if bus.sda bus.seen then 1 else 0 := by
        rw [putByte_eq]
        rfl
      rw [waitReady] at h
      dsimp only at h
      rw [hbusy] at h
      cases hlevel : bus.sda bus.seen with
      | true =>
          rw [hlevel] at h hpoll
          rw [if_pos (by decide)] at h
          obtain ⟨busy, ⟨htrue, hfalse⟩, hfollows⟩ := ih h
          rw [hpoll.sda, hpoll.seen] at htrue hfalse
          refine ⟨busy + 1, ⟨fun k hk => ?_, ?_⟩, ?_⟩
          · cases k with
            | zero => exact hlevel
            | succ k =>
                have hnext := htrue k (by omega)
                rw [Nat.add_assoc, Nat.add_comm 1] at hnext
                exact hnext
          · rw [Nat.add_assoc, Nat.add_comm 1] at hfalse
            exact hfalse
          · have hall := hpoll.trans hfollows
            rw [Nat.add_comm 1] at hall
            exact hall
      | false =>
          rw [hlevel] at h hpoll
          rw [if_neg (by decide)] at h
          cases h
          exact ⟨0, ⟨fun k hk => absurd hk (Nat.not_lt_zero k), hlevel⟩, hpoll⟩

/-- The log of a write: its bytes as the device answers them, each with the polling behind it. -/
def Logged (sda : Nat → Bool) (i2cAddr : UInt8) :
    Nat → UInt32 → List UInt8 → List Sent → Prop
  | _, _, [], sent => sent = []
  | pos, offset, b :: buf, sent =>
      ∃ busy rest, BusyFor sda (pos + 4) busy ∧
        sent = four sda pos (control i2cAddr) (offsetHigh offset) (offsetLow offset) b ++
          polls i2cAddr busy ++ rest ∧
        Logged sda i2cAddr (pos + 4 + busy + 1) (offset + 1) buf rest

/-- A write that returns has gone through its buffer. -/
theorem writeLoop_spec {fuel : Nat} {i2cAddr : UInt8} {offset : UInt32} {buf : List UInt8}
    {bus bus' : Bus} {ok : Bool} (h : writeLoop fuel i2cAddr offset buf bus = some (bus', ok)) :
    ok = true ∧ ∃ sent, bus'.sent = bus.sent ++ sent ∧
      Logged bus.sda i2cAddr bus.seen offset buf sent := by
  induction buf generalizing bus offset with
  | nil =>
      cases h
      exact ⟨rfl, [], (List.append_nil _).symm, rfl⟩
  | cons b buf ih =>
      have hframe := ((((((follows_start bus).putByte (control i2cAddr)).putByte
        (offsetHigh offset)).putByte (offsetLow offset)).putByte b).trans (follows_stop _))
      rw [writeLoop] at h
      dsimp only at h
      rw [if_neg (putByte_not_neg _ _)] at h
      split at h
      next => exact absurd h nofun
      next ready hwait =>
        obtain ⟨busy, hbusy, hpolls⟩ := waitReady_spec hwait
        rw [hframe.sda, hframe.seen] at hbusy
        have hdone := hframe.trans hpolls
        obtain ⟨hok, rest, hrest, hlogged⟩ := ih h
        rw [hdone.sda, hdone.seen] at hlogged
        refine ⟨hok, _, ?_, busy, rest, hbusy, rfl, ?_⟩
        · rw [hrest, hdone.sent, List.append_assoc]
          rfl
        · have hpos : bus.seen + (4 + (busy + 1)) = bus.seen + 4 + busy + 1 := by omega
          rw [← hpos]
          exact hlogged

/-! ## What is reported -/

/-- Two blocks of polls, each behind `busy` refusals, are the same block. -/
theorem polls_inj {i2cAddr : UInt8} {busy busy' : Nat} {rest rest' : List Sent}
    (h : polls i2cAddr busy ++ rest = polls i2cAddr busy' ++ rest') :
    busy = busy' ∧ rest = rest' := by
  induction busy generalizing busy' with
  | zero =>
      cases busy' with
      | zero => exact ⟨rfl, (List.cons.inj h).2⟩
      | succ busy' =>
          have hhead := congrArg Sent.refused (List.cons.inj h).1
          exact absurd hhead nofun
  | succ busy ih =>
      cases busy' with
      | zero =>
          have hhead := congrArg Sent.refused (List.cons.inj h).1
          exact absurd hhead nofun
      | succ busy' =>
          obtain ⟨hbusy, hrest⟩ := ih (List.cons.inj h).2
          exact ⟨congrArg (· + 1) hbusy, hrest⟩

/-- A device is busy for one number of polls. -/
theorem BusyFor.unique {sda : Nat → Bool} {pos busy busy' : Nat} (h : BusyFor sda pos busy)
    (h' : BusyFor sda pos busy') : busy = busy' := by
  rcases Nat.lt_trichotomy busy busy' with hlt | heq | hgt
  · exact absurd ((h'.1 busy hlt).symm.trans h.2) nofun
  · exact heq
  · exact absurd ((h.1 busy' hgt).symm.trans h'.2) nofun

/-- The log is one of acknowledged bytes exactly if the device acknowledges them. -/
theorem acknowledged_iff {sda : Nat → Bool} {i2cAddr : UInt8} {pos : Nat} {offset : UInt32}
    {buf : List UInt8} {sent : List Sent} (h : Logged sda i2cAddr pos offset buf sent) :
    Acknowledged i2cAddr offset buf sent ↔ AcksWrites sda pos buf.length := by
  induction buf generalizing pos offset sent with
  | nil =>
      rw [Logged] at h
      rw [Acknowledged, List.length_nil, AcksWrites, iff_true]
      exact h
  | cons b buf ih =>
      obtain ⟨busy, rest, hbusy, hsent, hlogged⟩ := h
      have hrest := ih hlogged
      rw [Acknowledged, List.length_cons, AcksWrites]
      constructor
      · rintro ⟨busy', rest', hsent', hacknowledged⟩
        rw [hsent, List.append_assoc, List.append_assoc] at hsent'
        obtain ⟨hfour, htail⟩ := List.append_inj hsent' rfl
        obtain ⟨-, rfl⟩ := polls_inj htail
        exact ⟨(four_eq_iff _ _ _ _ _ _).mp hfour, busy, hbusy, hrest.mp hacknowledged⟩
      · rintro ⟨hfour, busy', hbusy', hacks⟩
        obtain rfl := hbusy.unique hbusy'
        refine ⟨busy, rest, ?_, hrest.mpr hacks⟩
        rw [hsent, (four_eq_iff _ _ _ _ _ _).mpr hfour]
        rfl

/-- A result that is always the size is right only if everything was acknowledged. -/
theorem reports_size_iff {acknowledged : Prop} {size : Nat} :
    Reports acknowledged size size ↔ acknowledged := by
  constructor
  · rintro ⟨-, hrefused⟩
    by_contra hnot
    have hret := hrefused hnot
    omega
  · intro hacknowledged
    exact ⟨fun _ => rfl, fun hnot => absurd hacknowledged hnot⟩

/-- A read of at least one byte, and a write that returns, tell whether the device acknowledged
their bytes exactly if it does acknowledge all of them. -/
theorem reports_iff (bus : Bus) (i2cAddr : UInt8) (offset : UInt32) :
    (∀ n : Nat,
      Reports ((eepromRead true bus i2cAddr offset (n + 1)).1.sent =
          bus.sent ++ readBytes i2cAddr offset)
        (eepromRead true bus i2cAddr offset (n + 1)).2.1 (n + 1) ↔
      AcksFour bus.sda bus.seen) ∧
    (∀ (fuel : Nat) (buf : List UInt8) (bus' : Bus) (ret : Int),
      eepromWrite fuel true bus i2cAddr offset buf = some (bus', ret) →
      (Reports (∃ sent, bus'.sent = bus.sent ++ sent ∧ Acknowledged i2cAddr offset buf sent)
          ret buf.length ↔
        AcksWrites bus.sda bus.seen buf.length)) := by
  constructor
  · intro n
    obtain ⟨hsent, hret⟩ := eepromRead_eq bus i2cAddr offset (n + 1)
    rw [hret, reports_size_iff, hsent, List.append_cancel_left_eq]
    exact four_eq_iff _ _ _ _ _ _
  · intro fuel buf bus' ret hwrite
    rw [eepromWrite, if_neg (not_not_intro rfl)] at hwrite
    split at hwrite
    next => exact absurd hwrite nofun
    next hloop =>
      obtain ⟨-, sent, hsent, hlogged⟩ := writeLoop_spec hloop
      cases hwrite
      rw [reports_size_iff, ← acknowledged_iff hlogged]
      constructor
      · rintro ⟨sent', hsent', hacknowledged⟩
        rw [hsent] at hsent'
        rw [List.append_cancel_left hsent']
        exact hacknowledged
      · exact fun hacknowledged => ⟨sent, hsent, hacknowledged⟩
    next hloop => exact absurd (writeLoop_spec hloop).1 nofun

/-- A device that acknowledges everything. -/
def readyBus : Bus := { sda := fun _ => false }

theorem reports_iff_ready :
    ∃ bus' ret, eepromWrite 1 true readyBus 0x50 0 [7] = some (bus', ret) ∧
      Reports (∃ sent, bus'.sent = readyBus.sent ++ sent ∧ Acknowledged 0x50 0 [7] sent) ret 1 :=
  ⟨_, _, rfl, ((reports_iff readyBus 0x50 0).2 1 [7] _ _ rfl).mpr
    ⟨fun _ _ => rfl, 0, ⟨fun _ h => absurd h (Nat.not_lt_zero _), rfl⟩, trivial⟩⟩

/-- No device. -/
def absentBus : Bus := { sda := fun _ => true }

theorem absent_notReported :
    ¬ Reports ((eepromRead true absentBus 0x50 0 1).1.sent = absentBus.sent ++ readBytes 0x50 0)
      (eepromRead true absentBus 0x50 0 1).2.1 1 := by
  intro h
  have hacks := ((reports_iff absentBus 0x50 0).1 0).mp h
  exact absurd (hacks 0 (by decide)) nofun

end I2c
end Dev
end WrpcSw
