import WrpcSw.Lib.Memory

/-!
# Files of the storage (`sdb-lib/access.c`, `sdb-lib/glue.c`)

The storage is behind a driver, which the filesystem knows by its methods.  A file is
a range of it that the SDB directory names.  Reads and writes of the open file go
through the driver, at an offset or behind the last access, and stop at the end of the
file.

`Device` is a byte memory whose driver may fail.  What becomes of each call is part of
its state: `outcomes` lists it, in the order of the calls, and a call beyond the list
succeeds.  The directory itself is given: `files` tells where the file of an identifier
is.
-/

namespace WrpcSw
namespace Storage

open Memory

/-- What becomes of one call of the driver: it transfers everything, or it stops
after `done` bytes with the error `-(error + 1)`. -/
inductive Outcome
  | ok
  | failed (done error : Nat)
deriving DecidableEq, Repr

/-- How many of `n` bytes a call transfers. -/
def Outcome.bytes (n : Nat) : Outcome → Nat
  | .ok => n
  | .failed done _ => min done n

/-- A byte memory and the outcomes of the coming calls of its driver. -/
structure Device where
  mem : Nat → UInt8
  outcomes : List Outcome := []

/-- The outcome of the next call. -/
def Device.outcome (d : Device) : Outcome := d.outcomes.headD .ok

def Device.next (d : Device) : Device := { d with outcomes := d.outcomes.tail }

/-- The read method of the driver: its return value and the bytes put into the
buffer.  A count that is not positive transfers nothing. -/
def Device.read (d : Device) (addr : Nat) (count : Int) : Device × Int × List UInt8 :=
  match d.outcome with
  | .ok => (d.next, count, readAt d.mem addr count.toNat)
  | .failed done error => (d.next, -(error + 1), readAt d.mem addr (min done count.toNat))

/-- The write method of the driver and its return value. -/
def Device.write (d : Device) (addr : Nat) (buf : List UInt8) (count : Int) : Device × Int :=
  match d.outcome with
  | .ok => ({ d.next with mem := writeAt d.mem addr (buf.take count.toNat) }, count)
  | .failed done error =>
      ({ d.next with mem := writeAt d.mem addr (buf.take (min done count.toNat)) }, -(error + 1))

/-- A driver that transfers everything. -/
theorem Device.read_ok {d : Device} (h : d.outcomes = []) (addr : Nat) (count : Int) :
    d.read addr count = (d, count, readAt d.mem addr count.toNat) := by
  rcases d with ⟨mem, outcomes⟩
  subst h
  rfl

theorem Device.write_ok {d : Device} (h : d.outcomes = []) (addr : Nat) (buf : List UInt8)
    (count : Int) :
    d.write addr buf count = ({ d with mem := writeAt d.mem addr (buf.take count.toNat) }, count) := by
  rcases d with ⟨mem, outcomes⟩
  subst h
  rfl

/-- The methods of a driver.  `read` and `write` are those of `struct sdbfs`; `scan` reads the
directory, and tells whether it could be read. -/
class SdbfsMethods (δ : Type) where
  scan : δ → δ × Bool
  read : δ → Int → Int → δ × Int × List UInt8
  write : δ → Int → List UInt8 → Int → δ × Int

instance : SdbfsMethods Device where
  scan d := (d.next, decide (d.outcome = .ok))
  read d addr count := d.read addr.toNat count
  write d addr buf count := d.write addr.toNat buf count

/-- The fields of `struct sdbfs` that an open file has. -/
structure Sdbfs where
  currentp : Bool := false
  fOffset : Nat := 0
  fLen : Nat := 0
  readOffset : Int := 0
deriving DecidableEq, Repr

/-- A filesystem with its directory and its device. -/
structure VolumeOf (δ : Type) where
  fs : Sdbfs := {}
  dev : δ
  files : Nat → Option (Nat × Nat)

abbrev Volume := VolumeOf Device

def enoent : Int := 2

section Access

variable {δ : Type} [SdbfsMethods δ]

/-- `sdbfs_open_id` for the storage's own vendor: the directory is read, which may
fail, and the file found or not. -/
def sdbfsOpenId (v : VolumeOf δ) (did : Nat) : VolumeOf δ × Int :=
  let r := SdbfsMethods.scan v.dev
  match r.2, v.files did with
  | true, some (offset, len) =>
      ({ v with
          fs := { currentp := true, fOffset := offset, fLen := len, readOffset := 0 }
          dev := r.1 }, 0)
  | _, _ => ({ v with dev := r.1 }, -enoent)

omit [SdbfsMethods δ] in
def sdbfsClose (v : VolumeOf δ) : VolumeOf δ := { v with fs := { v.fs with currentp := false } }

/-- The count of a transfer, cut at the end of the file. -/
def Sdbfs.clip (fs : Sdbfs) (offset count : Int) : Int :=
  if offset + count > fs.fLen then fs.fLen - offset else count

/-- The offset of a transfer: a negative one stands for the end of the last one. -/
def Sdbfs.place (fs : Sdbfs) (offset : Int) : Int :=
  if offset < 0 then fs.readOffset else offset

/-- The end of a transfer that returned `ret`. -/
def Sdbfs.moved (fs : Sdbfs) (offset ret : Int) : Sdbfs :=
  if ret > 0 then { fs with readOffset := offset + ret } else fs

/-- The return value and the bytes put into the buffer. -/
def sdbfsFread (v : VolumeOf δ) (offset count : Int) : VolumeOf δ × Int × List UInt8 :=
  if v.fs.currentp then
    let offset := v.fs.place offset
    let r := SdbfsMethods.read v.dev (v.fs.fOffset + offset) (v.fs.clip offset count)
    ({ v with fs := v.fs.moved offset r.2.1, dev := r.1 }, r.2)
  else (v, -enoent, [])

/-- The return value; `buf` has at least `count` bytes. -/
def sdbfsFwrite (v : VolumeOf δ) (offset : Int) (buf : List UInt8) (count : Int) :
    VolumeOf δ × Int :=
  if v.fs.currentp then
    let offset := v.fs.place offset
    let r := SdbfsMethods.write v.dev (v.fs.fOffset + offset) buf (v.fs.clip offset count)
    ({ v with fs := v.fs.moved offset r.2, dev := r.1 }, r.2)
  else (v, -enoent)

/-- A file that the directory does not have is not opened. -/
theorem sdbfsOpenId_missing {v : VolumeOf δ} {did : Nat} (h : v.files did = none) :
    sdbfsOpenId v did = ({ v with dev := (SdbfsMethods.scan v.dev).1 }, -enoent) := by
  unfold sdbfsOpenId
  rw [h]
  rcases SdbfsMethods.scan v.dev with ⟨dev, _ | _⟩ <;> rfl

end Access

/-! ## Transfers inside the open file -/

/-- A file is open at `base`, with `len` bytes. -/
structure VolumeOf.Open {δ : Type} (v : VolumeOf δ) (base len : Nat) : Prop where
  currentp : v.fs.currentp = true
  fOffset : v.fs.fOffset = base
  fLen : v.fs.fLen = len

section Open

variable {δ : Type} {v : VolumeOf δ} {base len offset count : Nat} (h : v.Open base len)

include h in
theorem VolumeOf.Open.moved (place ret : Int) (dev : δ) :
    ({ v with fs := v.fs.moved place ret, dev := dev } : VolumeOf δ).Open base len := by
  unfold Sdbfs.moved
  split_ifs
  · exact ⟨h.currentp, h.fOffset, h.fLen⟩
  · exact ⟨h.currentp, h.fOffset, h.fLen⟩

include h in
theorem VolumeOf.Open.clip_inside (hin : offset + count ≤ len) :
    v.fs.clip offset count = count := by
  unfold Sdbfs.clip
  rw [h.fLen]
  exact if_neg (by omega)

include h in
theorem VolumeOf.Open.clip_outside (hout : len < offset + count) :
    v.fs.clip offset count = (len : Int) - offset := by
  unfold Sdbfs.clip
  rw [h.fLen]
  exact if_pos (by omega)

include h in
theorem VolumeOf.Open.toNat_address : ((v.fs.fOffset : Int) + offset).toNat = base + offset := by
  rw [h.fOffset]
  omega

theorem Sdbfs.place_nat (fs : Sdbfs) (offset : Nat) : fs.place offset = offset :=
  if_neg (by omega)

end Open

/-- Opening a file of the directory succeeds, or changes nothing but the outcomes. -/
theorem sdbfsOpenId_cases {v : Volume} {did base len : Nat} (h : v.files did = some (base, len)) :
    (∃ w : Volume, sdbfsOpenId v did = (w, 0) ∧ w.Open base len ∧ w.dev = v.dev.next ∧
        w.files = v.files ∧ v.dev.outcome = .ok) ∨
      (∃ done error, v.dev.outcome = .failed done error ∧
        sdbfsOpenId v did = ({ v with dev := v.dev.next }, -enoent)) := by
  unfold sdbfsOpenId
  rw [h]
  cases hout : v.dev.outcome with
  | ok =>
      simp only [SdbfsMethods.scan, hout, decide_true]
      exact Or.inl ⟨_, rfl, ⟨rfl, rfl, rfl⟩, rfl, rfl, trivial⟩
  | failed done error =>
      refine Or.inr ⟨done, error, rfl, ?_⟩
      simp only [SdbfsMethods.scan, hout]
      rfl

/-- What a transfer leaves as it was. -/
structure VolumeOf.Kept (v w : Volume) (base len : Nat) : Prop where
  opened : w.Open base len
  outcomes : w.dev.outcomes = v.dev.outcomes.tail
  files : w.files = v.files

section Transfer

variable {v : Volume} {base len : Nat} (h : v.Open base len) (offset count : Nat)
  (hin : offset + count ≤ len)

include h hin in
/-- A read inside the file gives its bytes, or fails and changes nothing. -/
theorem sdbfsFread_cases :
    ∃ w ret bytes, sdbfsFread v offset count = (w, ret, bytes) ∧ v.Kept w base len ∧
      w.dev.mem = v.dev.mem ∧
      ((v.dev.outcome = .ok ∧ ret = count ∧ bytes = readAt v.dev.mem (base + offset) count) ∨
        (v.dev.outcome ≠ .ok ∧ ret < 0)) := by
  unfold sdbfsFread
  simp only [SdbfsMethods.read, Device.read, h.currentp, if_true, Sdbfs.place_nat,
    h.clip_inside hin, h.toNat_address, Int.toNat_natCast]
  cases hout : v.dev.outcome with
  | ok => exact ⟨_, _, _, rfl, ⟨h.moved _ _ _, rfl, rfl⟩, rfl, Or.inl ⟨rfl, rfl, rfl⟩⟩
  | failed done error =>
      have herror : -((error : Int) + 1) < 0 := by omega
      exact ⟨_, _, _, rfl, ⟨h.moved _ _ _, rfl, rfl⟩, rfl,
        Or.inr ⟨Outcome.noConfusion, herror⟩⟩

include h hin in
/-- A write inside the file stores its bytes, or fails and stores the first of them. -/
theorem sdbfsFwrite_cases (buf : List UInt8) :
    ∃ w ret stored, sdbfsFwrite v offset buf count = (w, ret) ∧ v.Kept w base len ∧
      w.dev.mem = writeAt v.dev.mem (base + offset) (buf.take stored) ∧
      ((v.dev.outcome = .ok ∧ ret = count ∧ stored = count) ∨
        (v.dev.outcome ≠ .ok ∧ ret < 0)) := by
  unfold sdbfsFwrite
  simp only [SdbfsMethods.write, Device.write, h.currentp, if_true, Sdbfs.place_nat,
    h.clip_inside hin, h.toNat_address, Int.toNat_natCast]
  cases hout : v.dev.outcome with
  | ok => exact ⟨_, _, _, rfl, ⟨h.moved _ _ _, rfl, rfl⟩, rfl, Or.inl ⟨rfl, rfl, rfl⟩⟩
  | failed done error =>
      have herror : -((error : Int) + 1) < 0 := by omega
      exact ⟨_, _, _, rfl, ⟨h.moved _ _ _, rfl, rfl⟩, rfl,
        Or.inr ⟨Outcome.noConfusion, herror⟩⟩

omit hin in
include h in
/-- A read of the open file, inside or not: what arrives, and when it is all of it. -/
theorem sdbfsFread_open :
    ∃ w ret, sdbfsFread v offset count =
        (w, ret, readAt v.dev.mem (base + offset)
          (v.dev.outcome.bytes (min count (len - offset)))) ∧
      w.Open base len ∧ w.dev = v.dev.next ∧ w.files = v.files ∧
      (ret = count ↔ v.dev.outcome = .ok ∧ offset + count ≤ len) := by
  have hclip : (v.fs.clip offset count).toNat = min count (len - offset) ∧
      (v.fs.clip offset count = count ↔ offset + count ≤ len) := by
    unfold Sdbfs.clip
    rw [h.fLen]
    split_ifs <;> omega
  unfold sdbfsFread
  simp only [SdbfsMethods.read, Device.read, h.currentp, if_true, Sdbfs.place_nat,
    h.toNat_address, hclip.1]
  cases hout : v.dev.outcome with
  | ok =>
      refine ⟨_, _, rfl, h.moved _ _ _, rfl, rfl, ?_⟩
      simp only [hclip.2, true_and]
  | failed done error =>
      refine ⟨_, _, rfl, h.moved _ _ _, rfl, rfl, ?_⟩
      have hne : -((error : Int) + 1) ≠ count := by omega
      exact ⟨fun heq => absurd heq hne, fun hall => absurd hall.1 nofun⟩

omit hin in
include h in
/-- A read past the end of the file does not give all its bytes. -/
theorem sdbfsFread_outside (hout : len < offset + count) :
    (sdbfsFread v offset count).2.1 ≠ count := by
  unfold sdbfsFread
  simp only [SdbfsMethods.read, Device.read, h.currentp, if_true, Sdbfs.place_nat,
    h.clip_outside hout]
  cases v.dev.outcome with
  | ok =>
      show (len : Int) - offset ≠ count
      omega
  | failed done error =>
      show -((error : Int) + 1) ≠ count
      omega

omit hin in
include h in
/-- A write past the end of the file does not store all its bytes. -/
theorem sdbfsFwrite_outside (buf : List UInt8) (hout : len < offset + count) :
    (sdbfsFwrite v offset buf count).2 ≠ count := by
  unfold sdbfsFwrite
  simp only [SdbfsMethods.write, Device.write, h.currentp, if_true, Sdbfs.place_nat,
    h.clip_outside hout]
  cases v.dev.outcome with
  | ok =>
      show (len : Int) - offset ≠ count
      omega
  | failed done error =>
      show -((error : Int) + 1) ≠ count
      omega

end Transfer

end Storage
end WrpcSw
