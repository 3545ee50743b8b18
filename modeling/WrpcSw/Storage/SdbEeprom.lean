import WrpcSw.Storage.Sdbfs
import WrpcSw.Storage.SfpInfo

/-!
# The storage in SDB files (`dev/sdb-eeprom.c`)

The SFP database, the calibration value and the init script are three files of the
storage.  Each function opens its file, works on it and closes it; an access that
fails ends it early.  The count of the database and the position in the script are
kept in static variables between the calls.
-/

namespace WrpcSw
namespace Storage
namespace Sdb

open Memory CInt

/-- The device identifiers of the files. -/
def sdbDevInit : Nat := 0x77722d69
def sdbDevSfp : Nat := 0x7366702d
def sdbDevCalib : Nat := 0x63616c69

/-- The storage and the static variables of the file: `sfpcount` of
`eeprom_get_sfp` and `ptr` of `eeprom_init_readcmd`. -/
structure EepromOf (δ : Type) where
  vol : VolumeOf δ
  sfpcount : UInt8 := 0
  ptr : Nat := 0

abbrev Eeprom := EepromOf Device

section Driver

variable {δ : Type} [SdbfsMethods δ]

/-- `sdbfs_open_id(&wrc_sdb, SDB_VENDOR, did) < 0`. -/
def EepromOf.openId (s : EepromOf δ) (did : Nat) : EepromOf δ × Bool :=
  let r := sdbfsOpenId s.vol did
  ({ s with vol := r.1 }, decide (0 ≤ r.2))

omit [SdbfsMethods δ] in
def EepromOf.close (s : EepromOf δ) : EepromOf δ := { s with vol := sdbfsClose s.vol }

/-- Read `count` bytes at `offset`, and whether all of them arrived. -/
def EepromOf.fread (s : EepromOf δ) (offset count : Nat) : EepromOf δ × Bool × List UInt8 :=
  let r := sdbfsFread s.vol offset count
  ({ s with vol := r.1 }, decide (r.2.1 = count), r.2.2)

/-- Write `buf` at `offset`, and whether all of it was stored. -/
def EepromOf.fwrite (s : EepromOf δ) (offset : Nat) (buf : List UInt8) : EepromOf δ × Bool :=
  let r := sdbfsFwrite s.vol offset buf buf.length
  ({ s with vol := r.1 }, decide (r.2 = buf.length))

end Driver

section Access

variable {s : Eeprom} {did base len : Nat}

/-- A file of the directory is opened, unless the access fails. -/
theorem openId_cases (h : s.vol.files did = some (base, len)) :
    (∃ w : Volume, s.openId did = ({ s with vol := w }, true) ∧ w.Open base len ∧
        w.dev = s.vol.dev.next ∧ w.files = s.vol.files ∧ s.vol.dev.outcome = .ok) ∨
      (s.openId did = ({ s with vol := { s.vol with dev := s.vol.dev.next } }, false) ∧
        s.vol.dev.outcome ≠ .ok) := by
  rcases sdbfsOpenId_cases h with ⟨w, hopen, hw, hdev, hfiles, hok⟩ | ⟨done, error, hout, hopen⟩
  · refine Or.inl ⟨w, ?_, hw, hdev, hfiles, hok⟩
    rw [EepromOf.openId, hopen]
    rfl
  · refine Or.inr ⟨?_, by rw [hout]; exact Outcome.noConfusion⟩
    rw [EepromOf.openId, hopen]
    rfl

variable (h : s.vol.Open base len) (offset : Nat)

include h in
/-- A read inside the open file gives its bytes, unless the access fails. -/
theorem fread_cases (count : Nat) (hin : offset + count ≤ len) :
    ∃ w ok bytes, s.fread offset count = ({ s with vol := w }, ok, bytes) ∧
      s.vol.Kept w base len ∧ w.dev.mem = s.vol.dev.mem ∧
      (ok = true ↔ s.vol.dev.outcome = .ok) ∧
      (ok = true → bytes = readAt s.vol.dev.mem (base + offset) count) := by
  obtain ⟨w, ret, bytes, hread, hkept, hmem, hret⟩ := sdbfsFread_cases h offset count hin
  refine ⟨w, decide (ret = count), bytes, by rw [EepromOf.fread, hread], hkept, hmem, ?_⟩
  rcases hret with ⟨hok, rfl, hbytes⟩ | ⟨hfail, hneg⟩
  · simp [hok, hbytes]
  · have hne : ret ≠ count := by omega
    simp [hfail, hne]

include h in
/-- A write inside the open file stores the bytes, or the first of them when the access
fails. -/
theorem fwrite_cases (buf : List UInt8) (hin : offset + buf.length ≤ len) :
    ∃ w ok stored, s.fwrite offset buf = ({ s with vol := w }, ok) ∧
      s.vol.Kept w base len ∧ w.dev.mem = writeAt s.vol.dev.mem (base + offset) (buf.take stored) ∧
      (ok = true ↔ s.vol.dev.outcome = .ok) ∧ (ok = true → stored = buf.length) := by
  obtain ⟨w, ret, stored, hwrite, hkept, hmem, hret⟩ :=
    sdbfsFwrite_cases h offset buf.length hin buf
  refine ⟨w, decide (ret = buf.length), stored, by rw [EepromOf.fwrite, hwrite], hkept, hmem, ?_⟩
  rcases hret with ⟨hok, rfl, hstored⟩ | ⟨hfail, hneg⟩
  · simp [hok, hstored]
  · have hne : ret ≠ buf.length := by omega
    simp [hfail, hne]

end Access

/-! ## The SFP database -/

section Driver

variable {δ : Type} [SdbfsMethods δ]

def eepromSfpdbErase (s : EepromOf δ) : EepromOf δ × Int :=
  let o := s.openId sdbDevSfp
  if !o.2 then (o.1, -1)
  else
    let r := o.1.fwrite 0 [0]
    (r.1.close, if r.2 then 0 else -1)

/-- Read the count; a read that fails may have put a byte into it. -/
def readSfpcount (s : EepromOf δ) : EepromOf δ × Bool :=
  let r := s.fread 0 1
  ({ r.1 with sfpcount := r.2.2.headD s.sfpcount }, r.2.1)

/-- The part of `eeprom_get_sfp` that reads a record. -/
def readSfpRecord (s : EepromOf δ) (sfp : SfpInfo) (pos : Nat) : EepromOf δ × Int × SfpInfo :=
  let r := s.fread (1 + pos * sfpInfoSize) sfpInfoSize
  let sfp := sfp.fill r.2.2
  if !r.2.1 then (r.1.close, -1, sfp)
  else if sfp.checksum ≠ sfp.chksum then (r.1.close, -1, sfp)
  else (r.1.close, r.1.sfpcount.toNat, sfp)

/-- The part of `eeprom_get_sfp` that appends a record. -/
def addSfpRecord (s : EepromOf δ) (sfp : SfpInfo) : EepromOf δ × Int × SfpInfo :=
  let sfp := sfp.withChksum
  let r := s.fwrite (1 + s.sfpcount.toNat * sfpInfoSize) sfp.bytes
  if !r.2 then (r.1.close, -1, sfp)
  else
    let s := { r.1 with sfpcount := r.1.sfpcount + 1 }
    let r := s.fwrite 0 [s.sfpcount]
    if !r.2 then (r.1.close, -1, sfp) else (r.1.close, r.1.sfpcount.toNat, sfp)

/-- The return value and the caller's record. -/
def eepromGetSfp (s : EepromOf δ) (sfp : SfpInfo) (add : Bool) (pos : Nat) :
    EepromOf δ × Int × SfpInfo :=
  if pos ≥ sfpsMax then (s, eeRetPoserr, sfp)
  else
    let o := s.openId sdbDevSfp
    if !o.2 then (o.1, -1, sfp)
    else
      -- the count is read in the first call only
      let c := if pos = 0 then readSfpcount o.1 else (o.1, true)
      if !c.2 then (c.1.close, -1, sfp)
      else if add ∧ c.1.sfpcount.toNat = sfpsMax then (c.1, eeRetDbfull, sfp)
      else if pos = 0 ∧ !add ∧ c.1.sfpcount = 0 then (c.1, 0, sfp)
      else if add then addSfpRecord c.1 sfp
      else readSfpRecord c.1 sfp pos

/-! ## The calibration value -/

/-- The return value and the caller's variable. -/
def eepromPhtrans (s : EepromOf δ) (val : BitVec 32) (write : Bool) :
    EepromOf δ × Int × BitVec 32 :=
  let o := s.openId sdbDevCalib
  if !o.2 then (o.1, -1, val)
  else if write then
    let r := o.1.fwrite 0 (wordBytes (val ||| validityBit))
    (r.1.close, if r.2 then 1 else -1, val)
  else
    let r := o.1.fread 0 4
    if !r.2.1 then (r.1.close, -1, val)
    else
      let value := wordOf r.2.2
      (r.1.close, if value &&& validityBit ≠ 0 then 1 else 0, value &&& ~~~validityBit)

/-! ## The init script -/

def eepromInitErase (s : EepromOf δ) : EepromOf δ × Int :=
  let o := s.openId sdbDevInit
  if !o.2 then (o.1, -1)
  else
    let r := o.1.fwrite 0 (sizeBytes 0)
    (r.1.close, if r.2 then 0 else -1)

/-- The loop over the arguments of `eeprom_init_add`: each is written with a
separator behind it.  The size so far, if all writes succeed. -/
def writeArgs (s : EepromOf δ) (used : Nat) : List (List UInt8) → EepromOf δ × Option Nat
  | [] => (s, some used)
  | arg :: args =>
      let r := s.fwrite (2 + used) arg
      if !r.2 then (r.1, none)
      else
        let used := u16 (used + arg.length)
        let r := r.1.fwrite (2 + used) [space]
        if !r.2 then (r.1, none) else writeArgs r.1 (u16 (used + 1)) args

/-- `args` are the arguments behind "add". -/
def eepromInitAdd (s : EepromOf δ) (args : List (List UInt8)) : EepromOf δ × Int :=
  let o := s.openId sdbDevInit
  if !o.2 then (o.1, -1)
  else
    let r := o.1.fread 0 2
    if !r.2.1 then (r.1.close, -1)
    else
      let stored := sizeOf16 r.2.2
      let used := if stored > 256 then 0 else stored
      let w := writeArgs r.1 used args
      match w.2 with
      | none => (w.1.close, -1)
      | some used =>
          -- the last separator ends the line, and the size goes last
          let r := w.1.fwrite (2 + used - 1) [newline]
          if !r.2 then (r.1.close, -1)
          else
            let r := r.1.fwrite 0 (sizeBytes used)
            if !r.2 then (r.1.close, -1)
            else
              let r := r.1.fread 0 2
              (r.1.close, if r.2.1 then 0 else -1)

/-- The loop of `eeprom_init_readcmd`.  The guard leaves `room` more characters:
`bufsize + 1` less the position in the script.  The return value and the characters
put into the buffer. -/
def readLine (s : EepromOf δ) (buf : List UInt8) : Nat → EepromOf δ × Int × List UInt8
  | 0 => (s, -1, buf)
  | room + 1 =>
      let r := s.fread s.ptr 1
      let s := { r.1 with ptr := u16 (s.ptr + 1) }
      let buf := buf ++ r.2.2
      if !r.2.1 then (s, -1, buf)
      else if r.2.2 = [newline] then (s, buf.length, buf)
      else readLine s buf room

def eepromInitReadcmd (s : EepromOf δ) (bufsize : Nat) (next : Bool) :
    EepromOf δ × Int × List UInt8 :=
  let o := s.openId sdbDevInit
  if !o.2 then (o.1, -1, [])
  else
    let r := o.1.fread 0 2
    if !r.2.1 then (r.1.close, -1, [])
    else
      let used := sizeOf16 r.2.2
      let s := if next then r.1 else { r.1 with ptr := 2 }
      if scriptPos s.ptr ≥ used then (s, 0, [])
      else
        let r := readLine s [] (bufsize + 1 - scriptPos s.ptr)
        (r.1.close, i8 r.2.1, r.2.2)

end Driver

end Sdb
end Storage
end WrpcSw
