import Mathlib.Logic.Function.Basic
import WrpcSw.Lib.Memory
import WrpcSw.Storage.SfpInfo

/-!
# The storage at fixed addresses (`dev/eeprom.c`)

The older driver keeps the calibration value, the SFP database and the init script
at fixed addresses of an I2C EEPROM with 16-bit addresses.  Its transfers fail only
when no EEPROM was found: the return value of `mi2c_put_byte` is unsigned, so the
test for an error never holds.

`reads` logs the addresses that have been read.
-/

namespace WrpcSw
namespace Storage
namespace I2c

open Memory CInt

def eeBaseCal : Nat := 4 * 1024
def eeBaseSfp : Nat := 4 * 1024 + 4
def eeBaseInit : Nat := 4 * 1024 + sfpsMax * 29

/-- The EEPROM and the static variables of the file: `sfpcount` of `eeprom_get_sfp`,
`ptr` and `used` of `eeprom_init_readcmd`. -/
structure Eeprom where
  mem : Nat → UInt8
  hasEeprom : Bool := true
  sfpcount : UInt8 := 0
  ptr : Nat := 0
  used : Nat := 0
  reads : List Nat := []

/-- `eeprom_read` of at least one byte; nothing without an EEPROM. -/
def Eeprom.read (s : Eeprom) (offset size : Nat) : Eeprom × Option (List UInt8) :=
  if s.hasEeprom then
    let addrs := (List.range size).map fun i => (offset + i) % 65536
    ({ s with reads := s.reads ++ addrs }, some (addrs.map s.mem))
  else (s, none)

/-- The bytes are written one by one, each at its own address. -/
def storeBytes (m : Nat → UInt8) (offset : Nat) : List UInt8 → Nat → UInt8
  | [] => m
  | b :: bs => storeBytes (Function.update m (offset % 65536) b) (offset + 1) bs

/-- `eeprom_write`, and whether there is an EEPROM. -/
def Eeprom.write (s : Eeprom) (offset : Nat) (buf : List UInt8) : Eeprom × Bool :=
  if s.hasEeprom then ({ s with mem := storeBytes s.mem offset buf }, true) else (s, false)

section Access

variable {s : Eeprom}

theorem addrs_eq {offset size : Nat} (hin : offset + size ≤ 65536) :
    ((List.range size).map fun i => (offset + i) % 65536) =
      (List.range size).map fun i => offset + i := by
  apply List.map_congr_left
  intro i hi
  have hlt := List.mem_range.mp hi
  omega

/-- A read that does not wrap gives the bytes of its block. -/
theorem read_eq (h : s.hasEeprom = true) (offset size : Nat) (hin : offset + size ≤ 65536) :
    s.read offset size =
      ({ s with reads := s.reads ++ (List.range size).map fun i => offset + i },
        some (readAt s.mem offset size)) := by
  simp only [Eeprom.read, h, if_true, addrs_eq hin, List.map_map]
  rfl

/-- A write that does not wrap fills its block. -/
theorem storeBytes_eq (m : Nat → UInt8) (offset : Nat) (buf : List UInt8)
    (hin : offset + buf.length ≤ 65536) : storeBytes m offset buf = writeAt m offset buf := by
  induction buf generalizing m offset with
  | nil => rw [storeBytes, writeAt_nil]
  | cons b bs ih =>
      rw [List.length_cons] at hin
      rw [storeBytes, ih _ _ (by omega), Nat.mod_eq_of_lt (by omega)]
      funext i
      rcases Nat.lt_trichotomy i offset with hlt | rfl | hgt
      · rw [writeAt_outside _ _ _ (by omega), writeAt_outside _ _ _ (by omega),
          Function.update_of_ne (by omega)]
      · rw [writeAt_outside _ _ _ (by omega), Function.update_self]
        exact (writeAt_inside m i (b :: bs) (i := 0) (by simp)).symm
      · obtain ⟨k, rfl⟩ := Nat.exists_eq_add_of_le hgt
        by_cases hk : k < bs.length
        · have haddr : offset.succ + k = offset + (k + 1) := by omega
          rw [writeAt_inside _ _ bs hk, haddr,
            writeAt_inside m offset (b :: bs) (i := k + 1) (by simpa using hk)]
          rfl
        · rw [writeAt_outside _ _ _ (by omega), Function.update_of_ne (by omega),
            writeAt_outside _ _ _ (by simp; omega)]

theorem write_eq (h : s.hasEeprom = true) (offset : Nat) (buf : List UInt8)
    (hin : offset + buf.length ≤ 65536) :
    s.write offset buf = ({ s with mem := writeAt s.mem offset buf }, true) := by
  rw [Eeprom.write, if_pos h, storeBytes_eq s.mem offset buf hin]

end Access

/-! ## The SFP database -/

def eepromSfpdbErase (s : Eeprom) : Eeprom × Int :=
  let r := s.write eeBaseSfp [0]
  (r.1, if r.2 then 0 else eeRetI2cerr)

/-- Read the count; whether it was read. -/
def readSfpcount (s : Eeprom) : Eeprom × Bool :=
  let r := s.read eeBaseSfp 1
  match r.2 with
  | some bs => ({ r.1 with sfpcount := bs.headD 0 }, true)
  | none => (r.1, false)

/-- The part of `eeprom_get_sfp` that reads a record. -/
def readSfpRecord (s : Eeprom) (sfp : SfpInfo) (pos : Nat) : Eeprom × Int × SfpInfo :=
  let r := s.read (eeBaseSfp + 1 + pos * sfpInfoSize) sfpInfoSize
  match r.2 with
  | none => (r.1, eeRetI2cerr, sfp)
  | some bs =>
      let sfp := sfp.fill bs
      if sfp.checksum ≠ sfp.chksum then (r.1, eeRetCorrpt, sfp)
      else (r.1, r.1.sfpcount.toNat, sfp)

/-- The part of `eeprom_get_sfp` that appends a record, whether or not the writes
succeed. -/
def addSfpRecord (s : Eeprom) (sfp : SfpInfo) : Eeprom × Int × SfpInfo :=
  let sfp := sfp.withChksum
  let s := (s.write (eeBaseSfp + 1 + s.sfpcount.toNat * sfpInfoSize) sfp.bytes).1
  let s := { s with sfpcount := s.sfpcount + 1 }
  let s := (s.write eeBaseSfp [s.sfpcount]).1
  (s, s.sfpcount.toNat, sfp)

/-- The return value and the caller's record. -/
def eepromGetSfp (s : Eeprom) (sfp : SfpInfo) (add : Bool) (pos : Nat) : Eeprom × Int × SfpInfo :=
  if pos ≥ sfpsMax then (s, eeRetPoserr, sfp)
  else
    -- the count is read in the first call only
    let c := if pos = 0 then readSfpcount s else (s, true)
    if !c.2 then (c.1, eeRetI2cerr, sfp)
    else if add ∧ c.1.sfpcount.toNat = sfpsMax then (c.1, eeRetDbfull, sfp)
    else if pos = 0 ∧ !add ∧ c.1.sfpcount = 0 then (c.1, c.1.sfpcount.toNat, sfp)
    else if add then addSfpRecord c.1 sfp
    else readSfpRecord c.1 sfp pos

/-! ## The calibration value -/

/-- The return value and the caller's variable, which is the buffer of the transfer. -/
def eepromPhtrans (s : Eeprom) (val : BitVec 32) (write : Bool) : Eeprom × Int × BitVec 32 :=
  if write then
    let val := val ||| validityBit
    let r := s.write eeBaseCal (wordBytes val)
    (r.1, if r.2 then 1 else eeRetI2cerr, val &&& ~~~validityBit)
  else
    let r := s.read eeBaseCal 4
    match r.2 with
    | none => (r.1, eeRetI2cerr, val)
    | some bs =>
        let val := wordOf bs
        if val &&& validityBit = 0 then (r.1, 0, val) else (r.1, 1, val &&& ~~~validityBit)

/-! ## The init script -/

def eepromInitErase (s : Eeprom) : Eeprom × Int :=
  let r := s.write eeBaseInit (sizeBytes 0)
  (r.1, if r.2 then 0 else eeRetI2cerr)

/-- The loop over the arguments of `eeprom_init_add`. -/
def writeArgs (s : Eeprom) (used : Nat) : List (List UInt8) → Eeprom × Option Nat
  | [] => (s, some used)
  | arg :: args =>
      let r := s.write (eeBaseInit + 2 + used) arg
      if !r.2 then (r.1, none)
      else
        let used := u16 (used + arg.length)
        let r := r.1.write (eeBaseInit + 2 + used) [space]
        if !r.2 then (r.1, none) else writeArgs r.1 (u16 (used + 1)) args

/-- `args` are the arguments behind "add". -/
def eepromInitAdd (s : Eeprom) (args : List (List UInt8)) : Eeprom × Int :=
  let r := s.read eeBaseInit 2
  match r.2 with
  | none => (r.1, eeRetI2cerr)
  | some bs =>
      let stored := sizeOf16 bs
      let w := writeArgs r.1 (if stored = 0xffff then 0 else stored) args
      match w.2 with
      | none => (w.1, eeRetI2cerr)
      | some used =>
          -- the last separator ends the line, and the size goes last
          let r := w.1.write (eeBaseInit + 2 + used - 1) [newline]
          if !r.2 then (r.1, eeRetI2cerr)
          else
            let r := r.1.write eeBaseInit (sizeBytes used)
            if !r.2 then (r.1, eeRetI2cerr)
            else
              let r := r.1.read eeBaseInit 2
              (r.1, if r.2.isSome then 0 else eeRetI2cerr)

/-- The loop of `eeprom_init_show`: the characters printed, and whether all could be
read. -/
def showBytes (s : Eeprom) (i : Nat) : Nat → Eeprom × List UInt8 × Bool
  | 0 => (s, [], true)
  | left + 1 =>
      let r := s.read (eeBaseInit + 2 + i) 1
      match r.2 with
      | none => (r.1, [], false)
      | some bs =>
          let rest := showBytes r.1 (i + 1) left
          (rest.1, bs ++ rest.2.1, rest.2.2)

/-- The return value and the characters printed. -/
def eepromInitShow (s : Eeprom) : Eeprom × Int × List UInt8 :=
  let r := s.read eeBaseInit 2
  match r.2 with
  | none => (r.1, eeRetI2cerr, [])
  | some bs =>
      let stored := sizeOf16 bs
      let used := if stored = 0 ∨ stored = 0xffff then 0 else stored
      let shown := showBytes r.1 0 used
      (shown.1, if shown.2.2 then 0 else eeRetI2cerr, shown.2.1)

/-- The loop of `eeprom_init_readcmd`.  The guard leaves `room` more characters:
`bufsize + 1` less the position in the script.  The return value and the characters
put into the buffer. -/
def readLine (s : Eeprom) (buf : List UInt8) : Nat → Eeprom × Int × List UInt8
  | 0 => (s, eeRetCorrpt, buf)
  | room + 1 =>
      let r := s.read (eeBaseInit + s.ptr) 1
      let s := { r.1 with ptr := u16 (s.ptr + 1) }
      match r.2 with
      | none => (s, eeRetI2cerr, buf)
      | some bs =>
          let buf := buf ++ bs
          if bs = [newline] then (s, u8Count buf.length, buf) else readLine s buf room
where
  /-- The counter `i` is a `uint8_t`. -/
  u8Count (n : Nat) : Int := (n % 256 : Nat)

def eepromInitReadcmd (s : Eeprom) (bufsize : Nat) (next : Bool) : Eeprom × Int × List UInt8 :=
  let start : Eeprom × Bool :=
    if next then (s, true)
    else
      let r := s.read eeBaseInit 2
      match r.2 with
      | none => (r.1, false)
      | some bs => ({ r.1 with used := sizeOf16 bs, ptr := 2 }, true)
  if !start.2 then (start.1, eeRetI2cerr, [])
  else if scriptPos start.1.ptr ≥ start.1.used then (start.1, 0, [])
  else
    let r := readLine start.1 [] (bufsize + 1 - scriptPos start.1.ptr)
    (r.1, i8 r.2.1, r.2.2)

end I2c
end Storage
end WrpcSw
