import WrpcSw.Lib.AddressSpace
import WrpcSw.Lib.RingBuffer
import WrpcSw.PpPrintf.VsprintfXint

/-!
# The SDB tables of the bus (`dev/sdb.c`)

The devices of the bus are described by tables of records in the memory.  A bridge record points
to a table of its own.  `find_device` searches the tables for a device and `sdb_print_devices`
lists all of them; both walk through the bridges.

* `Table` — the records that a walk meets, and `Describes`, which reads them from the memory.
* `exists_table` — a memory in which the bridges do not go round in a circle has such a table.
* `printDevicesDeep_eq`, `findDeviceDeep_eq` — the two walks on a table.
* `findDevice_eq_firstLine` — the search agrees with the listing.
-/

namespace WrpcSw
namespace Dev

open AddressSpace RingBuffer PpPrintf

namespace Sdb

def SDB_ADDRESS : UInt32 := 0x30000

def SDB_DEVICE : UInt8 := 0x01

def SDB_BRIDGE : UInt8 := 0x02

section Memory

/-! ## Records in the memory -/

variable (m : UInt32 → UInt8)

/-- A word of the memory; the processor is big endian. -/
def wordAt (addr : UInt32) : UInt32 := UInt32.ofNat (beNumber (loadAt m addr 4))

/-- `empty.record_type`. -/
def recordType (record : UInt32) : UInt8 := m (record + 63)

/-- `interconnect.sdb_records`. -/
def sdbRecords (record : UInt32) : Nat := beNumber (loadAt m (record + 4) 2)

/-- `bridge.sdb_child.low`. -/
def sdbChild (record : UInt32) : UInt32 := wordAt m (record + 4)

/-- `sdb_component.addr_first.low`. -/
def addrFirst (record : UInt32) : UInt32 := wordAt m (record + 12)

/-- `product.vendor_id.low`. -/
def vendorId (record : UInt32) : UInt32 := wordAt m (record + 28)

/-- `product.device_id`. -/
def deviceId (record : UInt32) : UInt32 := wordAt m (record + 32)

/-- `product.name`, as a string: the copy in `buf` ends at its first zero. -/
def productName (record : UInt32) : List UInt8 :=
  (loadAt m (record + 44) 19).takeWhile fun c => c ≠ 0

/-! ## The search -/

/-- The loop over the records of a table.  `out` is null where there is no bridge. -/
def findLoop (deep : UInt32 → UInt32 → Option UInt32) (base devid : UInt32) :
    Nat → UInt32 → Option UInt32
  | 0, _ => some 0
  | n + 1, record => do
      let out ← if recordType m record = SDB_BRIDGE then
          deep (base + addrFirst m record) (base + sdbChild m record)
        else some 0
      if out ≠ 0 then some out
      else if recordType m record = SDB_DEVICE ∧ deviceId m record = devid then
        some (base + addrFirst m record)
      else findLoop deep base devid n (record + 64)

/-- `find_device_deep`.  The calls are nested at most `fuel` deep; `none` if that is not
enough. -/
def findDeviceDeep : Nat → UInt32 → UInt32 → UInt32 → Option UInt32
  | 0, _, _, _ => none
  | fuel + 1, base, sdb, devid =>
      findLoop m (fun base sdb => findDeviceDeep fuel base sdb devid) base devid
        (sdbRecords m sdb) sdb

def findDevice (fuel : Nat) (devid : UInt32) : Option UInt32 :=
  findDeviceDeep m fuel 0 SDB_ADDRESS devid

/-! ## The listing -/

/-- What is printed of a device. -/
structure Line where
  vendorId : UInt32
  deviceId : UInt32
  address : UInt32
  name : List UInt8
deriving DecidableEq

def Line.text (l : Line) : List UInt8 :=
  Xint.vsprintf (ascii "%8x:%8x 0x%8x %s\n")
    [.int l.vendorId, .int l.deviceId, .int l.address, .str l.name]

/-- The loop over the records of a table: the lines that it prints. -/
def printLoop (deep : UInt32 → UInt32 → Option (List Line)) (base : UInt32) :
    Nat → UInt32 → Option (List Line)
  | 0, _ => some []
  | n + 1, record => do
      let nested ← if recordType m record = SDB_BRIDGE then
          deep (base + addrFirst m record) (base + sdbChild m record)
        else some []
      let rest ← printLoop deep base n (record + 64)
      if recordType m record ≠ SDB_DEVICE then some (nested ++ rest)
      else
        let line : Line := ⟨vendorId m record, deviceId m record, base + addrFirst m record,
          productName m record⟩
        some (nested ++ line :: rest)

/-- `print_devices_deep`, with the depth of its calls as for the search. -/
def printDevicesDeep : Nat → UInt32 → UInt32 → Option (List Line)
  | 0, _, _ => none
  | fuel + 1, base, sdb => printLoop m (printDevicesDeep fuel) base (sdbRecords m sdb) sdb

/-- `sdb_print_devices`: the text on the console. -/
def sdbPrintDevices (fuel : Nat) : Option (List UInt8) := do
  let lines ← printDevicesDeep m fuel 0 SDB_ADDRESS
  some (Xint.vsprintf (ascii "SDB memory map:\n") [] ++ lines.flatMap Line.text ++
    Xint.vsprintf (ascii "---\n") [])

end Memory

/-! ## Tables -/

/-- A device record. -/
structure Device where
  vendorId : UInt32
  deviceId : UInt32
  addrFirst : UInt32
  name : List UInt8
deriving DecidableEq

/-- The records of a table from some record on, with the tables behind its bridges. -/
inductive Table
  | done
  | device (d : Device) (rest : Table)
  | bridge (addrFirst : UInt32) (child rest : Table)
  | other (rest : Table)

/-- A device of a table and the bridges that lead to it, by their `addr_first`. -/
structure Instance where
  bridges : List UInt32
  device : Device

namespace Table

/-- How deep the bridges are nested. -/
def depth : Table → Nat
  | done => 0
  | device _ rest => rest.depth
  | bridge _ child rest => max (child.depth + 1) rest.depth
  | other rest => rest.depth

/-- The devices, those behind a bridge in the place of the bridge. -/
def instances (path : List UInt32) : Table → List Instance
  | done => []
  | device d rest => ⟨path, d⟩ :: rest.instances path
  | bridge first child rest => child.instances (path ++ [first]) ++ rest.instances path
  | other rest => rest.instances path

end Table

namespace Instance

/-- The sum of `addr_first` over the bridges and the device, modulo 2^32. -/
def address (i : Instance) : UInt32 :=
  UInt32.ofNat ((i.bridges.map UInt32.toNat).sum + i.device.addrFirst.toNat)

def line (i : Instance) : Line :=
  ⟨i.device.vendorId, i.device.deviceId, i.address, i.device.name⟩

end Instance

/-- The address in the first line of a device, and null if there is none. -/
def firstAddress (lines : List Line) (devid : UInt32) : UInt32 :=
  match lines.find? fun l => l.deviceId = devid with
  | some l => l.address
  | none => 0

def deviceAt (m : UInt32 → UInt8) (record : UInt32) : Device :=
  ⟨vendorId m record, deviceId m record, addrFirst m record, productName m record⟩

/-- `Describes m base n record t`: the `n` records from `record` on are the table `t`, where the
bus of the table begins at `base`. -/
inductive Describes (m : UInt32 → UInt8) : UInt32 → Nat → UInt32 → Table → Prop
  | done (base record : UInt32) : Describes m base 0 record .done
  | device {base record : UInt32} {n : Nat} {rest : Table}
      (htype : recordType m record = SDB_DEVICE)
      (hrest : Describes m base n (record + 64) rest) :
      Describes m base (n + 1) record (.device (deviceAt m record) rest)
  | bridge {base record : UInt32} {n : Nat} {child rest : Table}
      (htype : recordType m record = SDB_BRIDGE)
      (hchild : Describes m (base + addrFirst m record)
        (sdbRecords m (base + sdbChild m record)) (base + sdbChild m record) child)
      (hrest : Describes m base n (record + 64) rest) :
      Describes m base (n + 1) record (.bridge (addrFirst m record) child rest)
  | other {base record : UInt32} {n : Nat} {rest : Table}
      (hdevice : recordType m record ≠ SDB_DEVICE) (hbridge : recordType m record ≠ SDB_BRIDGE)
      (hrest : Describes m base n (record + 64) rest) :
      Describes m base (n + 1) record (.other rest)

/-- The table at `sdb`. -/
def DescribesAt (m : UInt32 → UInt8) (base sdb : UInt32) (t : Table) : Prop :=
  Describes m base (sdbRecords m sdb) sdb t

/-- One of the records of a table is a bridge to another one.  A table is given by the base of its
bus and its own address. -/
def ChildOf (m : UInt32 → UInt8) (child parent : UInt32 × UInt32) : Prop :=
  ∃ i < sdbRecords m parent.2,
    recordType m (parent.2 + 64 * UInt32.ofNat i) = SDB_BRIDGE ∧
    child = (parent.1 + addrFirst m (parent.2 + 64 * UInt32.ofNat i),
      parent.1 + sdbChild m (parent.2 + 64 * UInt32.ofNat i))

theorem bridge_ne_device : SDB_BRIDGE ≠ SDB_DEVICE := by decide

/-- A bridge among the records behind the first one. -/
theorem record_succ (record : UInt32) (i : Nat) :
    record + 64 + 64 * UInt32.ofNat i = record + 64 * UInt32.ofNat (i + 1) := by
  have hsucc : UInt32.ofNat (i + 1) = UInt32.ofNat i + 1 := UInt32.ofNat_add i 1
  rw [hsucc, UInt32.mul_add, UInt32.mul_one, UInt32.add_comm (64 * UInt32.ofNat i),
    UInt32.add_assoc]

/-- Records whose bridges lead to tables are a table themselves. -/
theorem exists_describes {m : UInt32 → UInt8} {base : UInt32} {n : Nat} {record : UInt32}
    (hbridges : ∀ i < n, recordType m (record + 64 * UInt32.ofNat i) = SDB_BRIDGE →
      ∃ t, DescribesAt m (base + addrFirst m (record + 64 * UInt32.ofNat i))
        (base + sdbChild m (record + 64 * UInt32.ofNat i)) t) :
    ∃ t, Describes m base n record t := by
  induction n generalizing record with
  | zero => exact ⟨.done, .done base record⟩
  | succ n ih =>
      have htail : ∃ t, Describes m base n (record + 64) t := by
        apply ih
        intro i hi
        rw [record_succ]
        exact hbridges (i + 1) (by omega)
      obtain ⟨rest, hrest⟩ := htail
      by_cases hdevice : recordType m record = SDB_DEVICE
      · exact ⟨_, .device hdevice hrest⟩
      by_cases hbridge : recordType m record = SDB_BRIDGE
      · have hzero : record + 64 * UInt32.ofNat 0 = record := UInt32.add_zero record
        have hfirst := hbridges 0 (by omega)
        rw [hzero] at hfirst
        obtain ⟨child, hchild⟩ := hfirst hbridge
        exact ⟨_, .bridge hbridge hchild hrest⟩
      · exact ⟨_, .other hdevice hbridge hrest⟩

/-- A table whose bridges do not go round in a circle is described. -/
theorem exists_table {m : UInt32 → UInt8} {bus : UInt32 × UInt32} (hfinite : Acc (ChildOf m) bus) :
    ∃ t, DescribesAt m bus.1 bus.2 t := by
  induction hfinite with
  | intro bus _ ih =>
      apply exists_describes
      intro i hi hbridge
      exact ih _ ⟨i, hi, hbridge, rfl⟩

/-- The bridges of a table lead to tables again. -/
theorem Describes.acc {m : UInt32 → UInt8} {base record : UInt32} {n : Nat} {t : Table}
    (h : Describes m base n record t) :
    ∀ i < n, recordType m (record + 64 * UInt32.ofNat i) = SDB_BRIDGE →
      Acc (ChildOf m) (base + addrFirst m (record + 64 * UInt32.ofNat i),
        base + sdbChild m (record + 64 * UInt32.ofNat i)) := by
  have hzero : ∀ record : UInt32, record + 64 * UInt32.ofNat 0 = record := UInt32.add_zero
  induction h with
  | done base record => exact fun i hi => absurd hi (Nat.not_lt_zero i)
  | device htype hrest ih =>
      intro i hi hbridge
      cases i with
      | zero =>
          rw [hzero] at hbridge
          exact absurd (hbridge.symm.trans htype) bridge_ne_device
      | succ i =>
          rw [← record_succ] at hbridge ⊢
          exact ih i (by omega) hbridge
  | bridge htype hchild hrest ihchild ih =>
      intro i hi hbridge
      cases i with
      | zero =>
          rw [hzero]
          constructor
          rintro _ ⟨k, hk, hnested, rfl⟩
          exact ihchild k hk hnested
      | succ i =>
          rw [← record_succ] at hbridge ⊢
          exact ih i (by omega) hbridge
  | other hdevice hother hrest ih =>
      intro i hi hbridge
      cases i with
      | zero =>
          rw [hzero] at hbridge
          exact absurd hbridge hother
      | succ i =>
          rw [← record_succ] at hbridge ⊢
          exact ih i (by omega) hbridge

/-- The tables that are described are the finite ones. -/
theorem acc_iff_exists_table (m : UInt32 → UInt8) (bus : UInt32 × UInt32) :
    Acc (ChildOf m) bus ↔ ∃ t, DescribesAt m bus.1 bus.2 t := by
  constructor
  · exact exists_table
  · rintro ⟨t, ht⟩
    constructor
    rintro _ ⟨i, hi, hbridge, rfl⟩
    exact ht.acc i hi hbridge

/-- There is only one description. -/
theorem Describes.unique {m : UInt32 → UInt8} {base record : UInt32} {n : Nat} {t t' : Table}
    (h : Describes m base n record t) (h' : Describes m base n record t') : t = t' := by
  induction h generalizing t' with
  | done base record =>
      cases h'
      rfl
  | device htype hrest ih =>
      cases h' with
      | device _ hrest' => rw [ih hrest']
      | bridge htype' => exact absurd (htype'.symm.trans htype) bridge_ne_device
      | other hdevice => exact absurd htype hdevice
  | bridge htype hchild hrest ihchild ih =>
      cases h' with
      | device htype' => exact absurd (htype.symm.trans htype') bridge_ne_device
      | bridge _ hchild' hrest' => rw [ihchild hchild', ih hrest']
      | other _ hbridge => exact absurd htype hbridge
  | other hdevice hbridge hrest ih =>
      cases h' with
      | device htype' => exact absurd htype' hdevice
      | bridge htype' => exact absurd htype' hbridge
      | other _ _ hrest' => rw [ih hrest']

/-! ## The walks on a table -/

namespace Table

/-- The lines of the devices, with `base` added to their addresses. -/
def lines (base : UInt32) : Table → List Line
  | done => []
  | device d rest => ⟨d.vendorId, d.deviceId, base + d.addrFirst, d.name⟩ :: rest.lines base
  | bridge first child rest => child.lines (base + first) ++ rest.lines base
  | other rest => rest.lines base

theorem lines_eq (t : Table) (path : List UInt32) :
    t.lines (UInt32.ofNat (path.map UInt32.toNat).sum) = (t.instances path).map Instance.line := by
  induction t generalizing path with
  | done => rfl
  | device d rest ih =>
      have haddress : UInt32.ofNat (path.map UInt32.toNat).sum + d.addrFirst =
          Instance.address ⟨path, d⟩ := by
        rw [Instance.address, UInt32.ofNat_add, UInt32.ofNat_toNat]
      rw [lines, instances, List.map_cons, ih, haddress]
      rfl
  | bridge first child rest ihchild ih =>
      have hbase : UInt32.ofNat (path.map UInt32.toNat).sum + first =
          UInt32.ofNat ((path ++ [first]).map UInt32.toNat).sum := by
        rw [List.map_append, List.sum_append, UInt32.ofNat_add, List.map_singleton,
          List.sum_singleton, UInt32.ofNat_toNat]
      rw [lines, instances, List.map_append, hbase, ihchild, ih]
  | other rest ih =>
      rw [lines, instances, ih]

end Table

theorem firstAddress_cons (l : Line) (ls : List Line) (devid : UInt32) :
    firstAddress (l :: ls) devid =
      if l.deviceId = devid then l.address else firstAddress ls devid := by
  rw [firstAddress, List.find?_cons]
  by_cases hid : l.deviceId = devid
  · rw [decide_eq_true hid, if_pos hid]
  · rw [decide_eq_false hid, if_neg hid]
    rfl

theorem firstAddress_append (ls ks : List Line) (devid : UInt32)
    (h : ∀ l ∈ ls, l.deviceId = devid → l.address ≠ 0) :
    firstAddress (ls ++ ks) devid =
      if firstAddress ls devid ≠ 0 then firstAddress ls devid else firstAddress ks devid := by
  unfold firstAddress
  rw [List.find?_append]
  cases hfind : ls.find? fun l => l.deviceId = devid with
  | none =>
      rw [Option.none_or]
      exact (if_neg fun hne => hne rfl).symm
  | some l =>
      have hid : l.deviceId = devid := by
        have hdec := List.find?_some hfind
        exact of_decide_eq_true hdec
      have hne : l.address ≠ 0 := h l (List.mem_of_find?_eq_some hfind) hid
      rw [Option.some_or]
      exact (if_pos hne).symm

section Walks

variable {m : UInt32 → UInt8} {base record : UInt32} {n : Nat} {t : Table}

/-- The listing prints the lines of the table. -/
theorem printLoop_eq (h : Describes m base n record t) :
    ∀ {fuel : Nat}, t.depth ≤ fuel →
      printLoop m (printDevicesDeep m fuel) base n record = some (t.lines base) := by
  induction h with
  | done base record => exact fun _ => rfl
  | device htype hrest ih =>
      intro fuel hfuel
      have hbridge : ¬ recordType m _ = SDB_BRIDGE := fun hb =>
        bridge_ne_device (hb.symm.trans htype)
      rw [printLoop, if_neg hbridge, ih hfuel]
      exact if_neg (not_not_intro htype)
  | bridge htype hchild hrest ihchild ih =>
      intro fuel hfuel
      have hdeep := Nat.le_trans (Nat.le_max_left _ _) hfuel
      have hother := Nat.le_trans (Nat.le_max_right _ _) hfuel
      obtain ⟨deeper, rfl⟩ := Nat.exists_eq_add_of_le' (Nat.le_trans (Nat.le_add_left 1 _) hdeep)
      have hdevice : recordType m _ ≠ SDB_DEVICE := fun hd =>
        bridge_ne_device (htype.symm.trans hd)
      rw [printLoop, if_pos htype, printDevicesDeep, ihchild (Nat.le_of_succ_le_succ hdeep),
        ih hother]
      exact if_pos hdevice
  | other hdevice hbridge hrest ih =>
      intro fuel hfuel
      rw [printLoop, if_neg hbridge, ih hfuel]
      exact if_pos hdevice

/-- The search finds the first line, as long as no line of the device has address 0: that is
where the search goes on after a null pointer. -/
theorem findLoop_eq (h : Describes m base n record t) (devid : UInt32) :
    ∀ {fuel : Nat}, t.depth ≤ fuel →
      (∀ l ∈ t.lines base, l.deviceId = devid → l.address ≠ 0) →
      findLoop m (fun base sdb => findDeviceDeep m fuel base sdb devid) base devid n record =
        some (firstAddress (t.lines base) devid) := by
  induction h with
  | done base record => exact fun _ _ => rfl
  | @device base record n rest htype hrest ih =>
      intro fuel hfuel hnull
      have hbridge : ¬ recordType m record = SDB_BRIDGE := fun hb =>
        bridge_ne_device (hb.symm.trans htype)
      have hrestNull : ∀ l ∈ rest.lines base, l.deviceId = devid → l.address ≠ 0 :=
        fun l hl => hnull l (List.mem_cons_of_mem _ hl)
      have hfirst : firstAddress (Table.lines base (.device (deviceAt m record) rest)) devid =
          if deviceId m record = devid then base + addrFirst m record
          else firstAddress (rest.lines base) devid := by
        rw [Table.lines, firstAddress_cons]
        rfl
      rw [findLoop, if_neg hbridge, hfirst]
      dsimp only [Option.bind_eq_bind, Option.bind_some]
      rw [if_neg fun hne => hne rfl]
      by_cases hid : deviceId m record = devid
      · rw [if_pos ⟨htype, hid⟩, if_pos hid]
      · rw [if_neg fun hboth => hid hboth.2, if_neg hid, ih hfuel hrestNull]
  | @bridge base record n child rest htype hchild hrest ihchild ih =>
      intro fuel hfuel hnull
      have hdeep := Nat.le_trans (Nat.le_max_left _ _) hfuel
      have hother := Nat.le_trans (Nat.le_max_right _ _) hfuel
      obtain ⟨deeper, rfl⟩ := Nat.exists_eq_add_of_le' (Nat.le_trans (Nat.le_add_left 1 _) hdeep)
      have hdevice : ¬ recordType m record = SDB_DEVICE := fun hd =>
        bridge_ne_device (htype.symm.trans hd)
      have hchildNull : ∀ l ∈ child.lines (base + addrFirst m record),
          l.deviceId = devid → l.address ≠ 0 :=
        fun l hl => hnull l (List.mem_append_left _ hl)
      have hrestNull : ∀ l ∈ rest.lines base, l.deviceId = devid → l.address ≠ 0 :=
        fun l hl => hnull l (List.mem_append_right _ hl)
      have hnested := ihchild (Nat.le_of_succ_le_succ hdeep) hchildNull
      rw [findLoop, if_pos htype, findDeviceDeep, hnested, Table.lines,
        firstAddress_append _ _ devid hchildNull]
      dsimp only [Option.bind_eq_bind, Option.bind_some]
      by_cases hout : firstAddress (child.lines (base + addrFirst m record)) devid ≠ 0
      · rw [if_pos hout, if_pos hout]
      · rw [if_neg hout, if_neg hout, if_neg fun hboth => hdevice hboth.1, ih hother hrestNull]
  | @other base record n rest hdevice hbridge hrest ih =>
      intro fuel hfuel hnull
      rw [findLoop, if_neg hbridge]
      dsimp only [Option.bind_eq_bind, Option.bind_some]
      rw [if_neg fun hne => hne rfl, if_neg fun hboth => hdevice hboth.1]
      exact ih hfuel hnull

end Walks

/-! ## The search and the listing -/

theorem root_lines (t : Table) : t.lines 0 = (t.instances []).map Instance.line :=
  t.lines_eq []

/-- The tables are reached through finitely many bridges.  Then the listing prints their devices,
each with the sum of the addresses on its path, and the search for a device that is not at
address 0 gives the address in its first line, or null if it is not listed. -/
theorem findDevice_eq_firstLine {m : UInt32 → UInt8} (hfinite : Acc (ChildOf m) (0, SDB_ADDRESS)) :
    ∃ t, DescribesAt m 0 SDB_ADDRESS t ∧ ∀ fuel > t.depth,
      printDevicesDeep m fuel 0 SDB_ADDRESS = some ((t.instances []).map Instance.line) ∧
      sdbPrintDevices m fuel = some (ascii "SDB memory map:\n" ++
        ((t.instances []).map Instance.line).flatMap Line.text ++ ascii "---\n") ∧
      ∀ devid, (∀ i ∈ t.instances [], i.device.deviceId = devid → i.address ≠ 0) →
        findDevice m fuel devid =
          some (firstAddress ((t.instances []).map Instance.line) devid) := by
  obtain ⟨t, ht⟩ := exists_table hfinite
  refine ⟨t, ht, fun fuel hfuel => ?_⟩
  obtain ⟨deeper, rfl⟩ := Nat.exists_eq_add_of_le' (Nat.one_le_of_lt hfuel)
  have hdepth : t.depth ≤ deeper := Nat.le_of_lt_succ hfuel
  have hprint : printDevicesDeep m (deeper + 1) 0 SDB_ADDRESS =
      some ((t.instances []).map Instance.line) := by
    rw [printDevicesDeep, printLoop_eq ht hdepth, root_lines]
  refine ⟨hprint, ?_, fun devid hnull => ?_⟩
  · rw [sdbPrintDevices, hprint]
    rfl
  · have hlines : ∀ l ∈ t.lines 0, l.deviceId = devid → l.address ≠ 0 := by
      rw [root_lines]
      intro l hl
      obtain ⟨i, hi, rfl⟩ := List.mem_map.mp hl
      exact hnull i hi
    rw [findDevice, findDeviceDeep, findLoop_eq ht devid hdepth hlines, root_lines]

/-- A table with one bridge, and behind it a table with the system controller. -/
def bridgeMemory (a : UInt32) : UInt8 :=
  if a = 0x30005 then 2                                   -- sdb_records
  else if a = 0x3007f then SDB_BRIDGE
  else if a = 0x30046 then 4                              -- sdb_child, 0x400
  else if a = 0x3004e then 1                              -- addr_first, 0x100
  else if a = 0x405 then 2                                -- sdb_records
  else if a = 0x47f then SDB_DEVICE
  else if a = 0x44f then 0x20                             -- addr_first
  else if a = 0x460 then 0xff else if a = 0x461 then 0x07 -- device_id
  else if a = 0x462 then 0xfc else if a = 0x463 then 0x47
  else 0

def bridgeTable : Table :=
  .other (.bridge 0x100 (.other (.device ⟨0, 0xff07fc47, 0x20, []⟩ .done)) .done)

theorem bridgeMemory_describes : DescribesAt bridgeMemory 0 SDB_ADDRESS bridgeTable := by
  have hroot : sdbRecords bridgeMemory SDB_ADDRESS = 2 := by decide
  have hrecords : sdbRecords bridgeMemory 0x400 = 2 := by decide
  have hchild : Describes bridgeMemory 0x100 2 0x400
      (.other (.device ⟨0, 0xff07fc47, 0x20, []⟩ .done)) :=
    .other (by decide) (by decide) (.device (by decide) (.done _ _))
  unfold DescribesAt
  rw [hroot]
  refine .other (by decide) (by decide) (.bridge (by decide) ?_ (.done _ _))
  exact hrecords ▸ hchild

theorem findDevice_eq_firstLine_bridge :
    findDevice bridgeMemory 3 0xff07fc47 = some 0x120 := by
  obtain ⟨t, ht, hagree⟩ := findDevice_eq_firstLine
    ((acc_iff_exists_table bridgeMemory (0, SDB_ADDRESS)).mpr ⟨_, bridgeMemory_describes⟩)
  cases ht.unique bridgeMemory_describes
  exact (hagree 3 (by decide)).2.2 0xff07fc47 (by decide)

end Sdb
end Dev
end WrpcSw
