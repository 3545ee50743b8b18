import WrpcSw.Lib.CInt
import WrpcSw.Lib.Memory
import WrpcSw.Lib.RingBuffer
import WrpcSw.OneWire.Eeprom
import WrpcSw.Storage.Sdbfs

/-!
# The directory of the SDB filesystem (`dev/sdb-eeprom.c`, `sdb-lib/glue.c`)

`eeprom_present` looks for the SDB magic at a few addresses of the one-wire EEPROM and
lists the directory; `sdbfs_open_id` looks a file up in it.  Both go through
`sdbfs_scan`, which reads one record after the other from the entry point that is a
field of the filesystem.

* `sdbfsScan` — the steps of a scan, and `eepromSdbList`, `openRecords` its two loops.
* `eepromSdbList_returns_iff` — the listing ends if the directory counts itself.
* `openRecords_found` — the lookup finds the first record that matches.
* `openId_reads_entry_iff` — the directory is read from where the magic was found only if
  that is address 0, because the entry point is never set.
-/

namespace WrpcSw
namespace Storage
namespace Directory

open CInt OneWire RingBuffer

/-- `SDB_MAGIC`. -/
def SDB_MAGIC : Nat := 0x5344422d

/-! ## Records -/

/-- `ntohs(i->sdb_records)`. -/
def sdbRecords (record : List UInt8) : Nat := beNumber ((record.drop 4).take 2)

def addrFirst (record : List UInt8) : Nat := beNumber ((record.drop 8).take 8)

def addrLast (record : List UInt8) : Nat := beNumber ((record.drop 16).take 8)

def vendorId (record : List UInt8) : Nat := beNumber ((record.drop 24).take 8)

def deviceId (record : List UInt8) : Nat := beNumber ((record.drop 32).take 4)

/-- `f_offset` of the file of a record, an `unsigned long`. -/
def fileOffset (record : List UInt8) : Nat := addrFirst record % 2 ^ 32

/-- `f_len` of the file of a record: 64-bit arithmetic, stored in an `unsigned long`. -/
def fileLen (record : List UInt8) : Nat :=
  (addrLast record + 1 + 2 ^ 64 - fileOffset record) % 2 ^ 64 % 2 ^ 32

/-! ## The filesystem -/

/-- `struct sdbfs` with the bus of its driver, and `has_eeprom`.  The method is null until the
EEPROM is found. -/
structure SdbfsDir where
  entrypoint : Nat := 0
  method : Bool := false
  currentRecord : List UInt8 := []
  nleft : Int := 0
  file : Sdbfs := {}
  hasEeprom : Bool := false
  bus : W1Bus

/-- `sdbfs_readentry`; what the driver returns is ignored. -/
def sdbfsReadentry (s : SdbfsDir) (offset : Nat) : SdbfsDir × Option (List UInt8) :=
  if s.method then
    let r := w1ReadEepromBus s.bus (i32 offset) 64
    let record := if r.2.1 < 0 then s.currentRecord else r.2.2
    ({ s with bus := r.1, currentRecord := record }, some record)
  else (s, none)

/-- A new scan sets the number of records that are left from the interconnect record. -/
def sdbfsScan (s : SdbfsDir) (newscan : Bool) : SdbfsDir × Option (List UInt8) :=
  if newscan then
    let s := { s with file := { s.file with fOffset := s.entrypoint } }
    let (s, ret) := sdbfsReadentry s s.file.fOffset
    ({ s with nleft := (sdbRecords (ret.getD []) : Int) - 1 }, ret)
  else
    let s := { s with file := { s.file with fOffset := (s.file.fOffset + 64) % 2 ^ 32 } }
    if s.nleft = 0 then (s, none)
    else
      let (s, ret) := sdbfsReadentry s s.file.fOffset
      ({ s with nleft := s.nleft - 1 }, ret)

/-- The loop of `eeprom_sdb_list`; `none` is a listing that is still going on after `fuel`
records.  The record type of each record is overwritten for printing. -/
def eepromSdbList : Nat → SdbfsDir → Bool → Option SdbfsDir
  | 0, _, _ => none
  | fuel + 1, s, new =>
      match sdbfsScan s new with
      | (s, none) => some s
      | (s, some _) =>
          eepromSdbList fuel { s with currentRecord := s.currentRecord.set 63 0 } false

/-- The candidates for the address of the directory. -/
def entryPoints : List Nat := [0, 64, 128, 256, 512, 1024]

/-- The search for the magic: the word read last. -/
def searchMagic (bus : W1Bus) (magic : Nat) : List Nat → W1Bus × Nat
  | [] => (bus, magic)
  | e :: es =>
      let r := w1ReadEepromBus bus e 4
      let magic := if r.2.1 < 0 then magic else beNumber r.2.2
      if r.2.1 ≠ 4 then (r.1, magic)
      else if magic = SDB_MAGIC then (r.1, magic)
      else searchMagic r.1 magic es

/-- The loop over the I2C candidates has no body. -/
def eepromPresent (fuel : Nat) (s : SdbfsDir) : Option SdbfsDir :=
  let (bus, magic) := searchMagic s.bus 0 entryPoints
  if magic = SDB_MAGIC then
    eepromSdbList fuel { s with bus := bus, method := true, hasEeprom := true } true
  else some { s with bus := bus }

/-- `__open`. -/
def openFile (s : SdbfsDir) (record : List UInt8) : SdbfsDir :=
  { s with file := ⟨true, fileOffset record, fileLen record, 0⟩ }

/-- The loop of `sdbfs_open_id`. -/
def openRecords (vid did : Nat) : Nat → SdbfsDir → Option (SdbfsDir × Int)
  | 0, _ => none
  | fuel + 1, s =>
      match sdbfsScan s false with
      | (s, none) => some (s, -enoent)
      | (s, some d) =>
          if vid ≠ vendorId d then openRecords vid did fuel s
          else if did ≠ deviceId d then openRecords vid did fuel s
          else some (openFile s d, 0)

def sdbfsOpenId (fuel : Nat) (s : SdbfsDir) (vid did : Nat) : Option (SdbfsDir × Int) :=
  openRecords vid did fuel (sdbfsScan s true).1

/-! ## The directory in the memory -/

/-- The record at an address of the EEPROM. -/
def recordAt (mem : Nat → UInt8) (addr : Nat) : List UInt8 :=
  (List.range 64).map fun i => mem ((addr + i) % 65536)

/-- The `n` records that follow the one at `addr`. -/
def recordsAfter (mem : Nat → UInt8) (addr : Nat) : Nat → List (List UInt8)
  | 0 => []
  | n + 1 => recordAt mem (addr + 64) :: recordsAfter mem (addr + 64) n

/-- The directory at `addr`: the records after the interconnect record, which counts itself. -/
def directoryAt (mem : Nat → UInt8) (addr : Nat) : List (List UInt8) :=
  recordsAfter mem addr (sdbRecords (recordAt mem addr) - 1)

/-- The first record of a file. -/
def lookup (vid did : Nat) (records : List (List UInt8)) : Option (List UInt8) :=
  records.find? fun record => vendorId record = vid ∧ deviceId record = did

/-- The magic is stored at an address. -/
def MagicAt (mem : Nat → UInt8) (addr : Nat) : Prop :=
  beNumber ((recordAt mem addr).take 4) = SDB_MAGIC

instance (mem : Nat → UInt8) (addr : Nat) : Decidable (MagicAt mem addr) :=
  inferInstanceAs (Decidable (_ = _))

/-! ## Reading records -/

theorem recordAt_mod (mem : Nat → UInt8) (addr : Nat) :
    recordAt mem (addr % 2 ^ 32) = recordAt mem addr := by
  apply List.map_congr_left
  intro i _
  congr 1
  omega

theorem recordsAfter_mod (mem : Nat → UInt8) (addr n : Nat) :
    recordsAfter mem (addr % 2 ^ 32) n = recordsAfter mem addr n := by
  induction n generalizing addr with
  | zero => rfl
  | succ n ih =>
      have hnext : (addr % 2 ^ 32 + 64) % 2 ^ 32 = (addr + 64) % 2 ^ 32 := by omega
      simp only [recordsAfter]
      rw [← recordAt_mod mem (addr % 2 ^ 32 + 64), hnext, recordAt_mod,
        ← ih (addr % 2 ^ 32 + 64), hnext, ih]

/-- The bus after a read of `n` bytes. -/
def readBus (bus : W1Bus) (offset : Int) (n : Nat) : W1Bus :=
  { bus with chip := { bus.chip with log := bus.chip.log ++ (addrs offset n).map .read } }

theorem w1ReadEepromBus_eq {bus : W1Bus} (heeprom : bus.hasEeprom) (offset : Int) (n : Nat) :
    w1ReadEepromBus bus offset n =
      (readBus bus offset n, (n : Int), (addrs offset n).map bus.chip.mem) := by
  unfold w1ReadEepromBus w1ReadEeprom Chip.rMemory
  rw [if_pos heeprom, targetOf_eq, Int.toNat_natCast]
  rfl

theorem recordAt_eq (mem : Nat → UInt8) (addr : Nat) :
    (addrs (i32 addr) 64).map mem = recordAt mem addr := by
  unfold addrs addrsFrom recordAt
  rw [List.map_map]
  apply List.map_congr_left
  intro i _
  have haddr : ((i32 addr % 65536).toNat + i) % 65536 = (addr + i) % 65536 := by
    unfold i32
    omega
  rw [Function.comp_apply, haddr]

theorem magic_eq (mem : Nat → UInt8) (addr : Nat) :
    (addrs addr 4).map mem = (recordAt mem addr).take 4 := by
  unfold addrs addrsFrom recordAt
  rw [← List.map_take, List.take_range, List.map_map]
  apply List.map_congr_left
  intro i _
  rw [Function.comp_apply]
  congr 1
  omega

/-- The filesystem is on an EEPROM with the contents `mem`. -/
structure Mounted (s : SdbfsDir) (mem : Nat → UInt8) : Prop where
  entrypoint : s.entrypoint = 0
  method : s.method = true
  eeprom : s.bus.hasEeprom = true
  mem : s.bus.chip.mem = mem

/-- The record that was read may be overwritten. -/
theorem Mounted.marked {s : SdbfsDir} {mem : Nat → UInt8} (h : Mounted s mem)
    (record : List UInt8) : Mounted { s with currentRecord := record } mem :=
  ⟨h.entrypoint, h.method, h.eeprom, h.mem⟩

/-- The fields of the open file may change. -/
theorem Mounted.moved {s : SdbfsDir} {mem : Nat → UInt8} (h : Mounted s mem) (file : Sdbfs) :
    Mounted { s with file := file } mem :=
  ⟨h.entrypoint, h.method, h.eeprom, h.mem⟩

section Mounted

variable {s : SdbfsDir} {mem : Nat → UInt8} (h : Mounted s mem)

include h

theorem sdbfsReadentry_eq (offset : Nat) :
    sdbfsReadentry s offset =
      ({ s with bus := readBus s.bus (i32 offset) 64, currentRecord := recordAt mem offset },
        some (recordAt mem offset)) := by
  have hread := w1ReadEepromBus_eq h.eeprom (i32 offset) 64
  rw [h.mem, recordAt_eq] at hread
  rw [sdbfsReadentry, if_pos h.method]
  dsimp only
  rw [show ((64 : Nat) : Int) = 64 from rfl] at hread
  rw [hread, if_neg (show ¬ (64 : Int) < 0 by decide)]

/-- A new scan reads the record at the entry point. -/
theorem sdbfsScan_new :
    ∃ s', sdbfsScan s true = (s', some (recordAt mem 0)) ∧ Mounted s' mem ∧
      s'.nleft = (sdbRecords (recordAt mem 0) : Int) - 1 ∧ s'.file.fOffset = 0 ∧
      s'.bus.chip.log = s.bus.chip.log ++ (addrs 0 64).map .read := by
  have hread := sdbfsReadentry_eq (h.moved { s.file with fOffset := s.entrypoint }) s.entrypoint
  have hrecord : recordAt mem s.entrypoint = recordAt mem 0 := by rw [h.entrypoint]
  rw [hrecord] at hread
  refine ⟨_, by rw [sdbfsScan, if_pos rfl]; dsimp only; rw [hread], ?_, rfl, h.entrypoint, ?_⟩
  · exact ⟨h.entrypoint, h.method, h.eeprom, h.mem⟩
  · have hstart : i32 s.entrypoint = 0 := by
      rw [h.entrypoint]
      rfl
    exact congrArg (fun a => s.bus.chip.log ++ (addrs a 64).map .read) hstart

/-- The next record, as long as there are any left. -/
theorem sdbfsScan_next (hleft : s.nleft ≠ 0) :
    ∃ s', sdbfsScan s false = (s', some (recordAt mem (s.file.fOffset + 64))) ∧
      Mounted s' mem ∧ s'.nleft = s.nleft - 1 ∧
      s'.file.fOffset = (s.file.fOffset + 64) % 2 ^ 32 ∧ s.bus.Grows s'.bus := by
  have hread := sdbfsReadentry_eq
    (h.moved { s.file with fOffset := (s.file.fOffset + 64) % 2 ^ 32 })
    ((s.file.fOffset + 64) % 2 ^ 32)
  rw [recordAt_mod] at hread
  refine ⟨_, by rw [sdbfsScan, if_neg (by decide)]; dsimp only; rw [if_neg hleft, hread],
    ?_, rfl, rfl, ?_⟩
  · exact ⟨h.entrypoint, h.method, h.eeprom, h.mem⟩
  · exact ⟨rfl, _, rfl, fun _ hne => absurd rfl hne⟩

omit h in
/-- The end of a scan. -/
theorem sdbfsScan_end (hleft : s.nleft = 0) :
    sdbfsScan s false =
      ({ s with file := { s.file with fOffset := (s.file.fOffset + 64) % 2 ^ 32 } }, none) := by
  rw [sdbfsScan, if_neg (by decide)]
  exact if_pos hleft

/-! ## The listing -/

/-- The listing ends when the number of records that are left counts down to zero. -/
theorem eepromSdbList_returns {n : Nat} (hleft : s.nleft = n) :
    ∃ s', eepromSdbList (n + 1) s false = some s' ∧ Mounted s' mem := by
  induction n generalizing s with
  | zero =>
      rw [eepromSdbList, sdbfsScan_end hleft]
      exact ⟨_, rfl, h.moved _⟩
  | succ n ih =>
      obtain ⟨s', hscan, hmounted, hleft', -⟩ := sdbfsScan_next h (by omega)
      rw [eepromSdbList, hscan]
      exact ih (hmounted.marked _) (by dsimp only; omega)

/-- Below zero it does not end. -/
theorem eepromSdbList_stuck (hleft : s.nleft < 0) (fuel : Nat) :
    eepromSdbList fuel s false = none := by
  induction fuel generalizing s with
  | zero => rfl
  | succ fuel ih =>
      obtain ⟨s', hscan, hmounted, hleft', -⟩ := sdbfsScan_next h (by omega)
      rw [eepromSdbList, hscan]
      exact ih (hmounted.marked _) (by dsimp only; omega)

/-- A listing that ends leaves the filesystem where it is. -/
theorem eepromSdbList_mounted {fuel : Nat} {s' : SdbfsDir}
    (hlist : eepromSdbList fuel s false = some s') : Mounted s' mem := by
  induction fuel generalizing s with
  | zero => exact absurd hlist nofun
  | succ fuel ih =>
      rw [eepromSdbList] at hlist
      by_cases hleft : s.nleft = 0
      · rw [sdbfsScan_end hleft] at hlist
        cases hlist
        exact h.moved _
      · obtain ⟨t, hscan, hmounted, -⟩ := sdbfsScan_next h hleft
        rw [hscan] at hlist
        exact ih (hmounted.marked (t.currentRecord.set 63 0)) hlist

/-- A whole listing ends exactly if the interconnect record counts itself. -/
theorem eepromSdbList_returns_iff :
    (∃ fuel s', eepromSdbList fuel s true = some s') ↔ sdbRecords (recordAt mem 0) ≠ 0 := by
  obtain ⟨t, hscan, hmounted, hleft, -⟩ := sdbfsScan_new h
  have hmarked := hmounted.marked (t.currentRecord.set 63 0)
  constructor
  · rintro ⟨fuel, s', hlist⟩ hzero
    cases fuel with
    | zero => exact absurd hlist nofun
    | succ fuel =>
        rw [eepromSdbList, hscan] at hlist
        have hstuck := eepromSdbList_stuck hmarked (by dsimp only; omega) fuel
        exact absurd (hstuck.symm.trans hlist) nofun
  · intro hrecords
    obtain ⟨n, hn⟩ := Nat.exists_eq_succ_of_ne_zero hrecords
    obtain ⟨s', hlist, -⟩ := eepromSdbList_returns (n := n) hmarked (by dsimp only; omega)
    refine ⟨n + 2, s', ?_⟩
    rw [eepromSdbList, hscan]
    exact hlist

/-- So does a whole listing. -/
theorem eepromSdbList_new_mounted {fuel : Nat} {s' : SdbfsDir}
    (hlist : eepromSdbList fuel s true = some s') : Mounted s' mem := by
  obtain ⟨t, hscan, hmounted, -⟩ := sdbfsScan_new h
  cases fuel with
  | zero => exact absurd hlist nofun
  | succ fuel =>
      rw [eepromSdbList, hscan] at hlist
      exact eepromSdbList_mounted (hmounted.marked (t.currentRecord.set 63 0)) hlist

/-! ## The lookup -/

/-- The lookup finds the first record that matches, and without one reports that. -/
theorem openRecords_found (vid did : Nat) {n : Nat} (hleft : s.nleft = n) :
    ∃ s' ret, openRecords vid did (n + 1) s = some (s', ret) ∧
      match lookup vid did (recordsAfter mem s.file.fOffset n) with
      | some record => ret = 0 ∧ s'.file = ⟨true, fileOffset record, fileLen record, 0⟩
      | none => ret = -enoent := by
  induction n generalizing s with
  | zero =>
      rw [openRecords, sdbfsScan_end hleft]
      exact ⟨_, _, rfl, rfl⟩
  | succ n ih =>
      obtain ⟨t, hscan, hmounted, hleft', hoffset, -⟩ := sdbfsScan_next h (by omega)
      obtain ⟨s', ret, hrest, hresult⟩ := ih hmounted (by omega)
      rw [hoffset, recordsAfter_mod] at hresult
      rw [openRecords, hscan, recordsAfter, lookup, List.find?_cons]
      dsimp only
      by_cases hvendor : vid ≠ vendorId (recordAt mem (s.file.fOffset + 64))
      · rw [if_pos hvendor, decide_eq_false fun hmatch => hvendor hmatch.1.symm]
        exact ⟨s', ret, hrest, hresult⟩
      rw [if_neg hvendor]
      by_cases hdevice : did ≠ deviceId (recordAt mem (s.file.fOffset + 64))
      · rw [if_pos hdevice, decide_eq_false fun hmatch => hdevice hmatch.2.symm]
        exact ⟨s', ret, hrest, hresult⟩
      · rw [if_neg hdevice, decide_eq_true
          ⟨(not_not.mp hvendor).symm, (not_not.mp hdevice).symm⟩]
        exact ⟨_, _, rfl, rfl, rfl⟩

theorem openRecords_grows {vid did fuel : Nat} {s' : SdbfsDir} {ret : Int}
    (hopen : openRecords vid did fuel s = some (s', ret)) :
    ∃ new, s'.bus.chip.log = s.bus.chip.log ++ new := by
  induction fuel generalizing s with
  | zero => exact absurd hopen nofun
  | succ fuel ih =>
      rw [openRecords] at hopen
      by_cases hleft : s.nleft = 0
      · rw [sdbfsScan_end hleft] at hopen
        cases hopen
        exact ⟨[], (List.append_nil _).symm⟩
      · obtain ⟨t, hscan, hmounted, -, -, hgrows⟩ := sdbfsScan_next h hleft
        obtain ⟨first, hfirst, -⟩ := hgrows.chip
        rw [hscan] at hopen
        dsimp only at hopen
        have hrest (hgo : openRecords vid did fuel t = some (s', ret)) :
            ∃ new, s'.bus.chip.log = s.bus.chip.log ++ new := by
          obtain ⟨new, hnew⟩ := ih hmounted hgo
          exact ⟨first ++ new, by rw [hnew, hfirst, List.append_assoc]⟩
        split_ifs at hopen
        · exact hrest hopen
        · exact hrest hopen
        · cases hopen
          exact ⟨first, hfirst⟩

end Mounted

/-! ## From where the directory is read -/

theorem find_magic {bus : W1Bus} (heeprom : bus.hasEeprom) {es : List Nat} {e : Nat}
    (magic : Nat) (he : es.find? (fun a => MagicAt bus.chip.mem a) = some e) :
    (searchMagic bus magic es).2 = SDB_MAGIC ∧ (searchMagic bus magic es).1.hasEeprom ∧
      (searchMagic bus magic es).1.chip.mem = bus.chip.mem := by
  induction es generalizing bus magic with
  | nil => exact absurd he nofun
  | cons a es ih =>
      have hread := w1ReadEepromBus_eq heeprom a 4
      rw [magic_eq, show ((4 : Nat) : Int) = 4 from rfl] at hread
      rw [searchMagic, hread]
      dsimp only
      rw [if_neg (show ¬ (4 : Int) < 0 by decide), if_neg (show ¬ (4 : Int) ≠ 4 by decide)]
      rw [List.find?_cons] at he
      by_cases hmagic : MagicAt bus.chip.mem a
      · have hword : beNumber ((recordAt bus.chip.mem a).take 4) = SDB_MAGIC := hmagic
        rw [if_pos hword]
        exact ⟨hword, heeprom, rfl⟩
      · have hword : ¬ beNumber ((recordAt bus.chip.mem a).take 4) = SDB_MAGIC := hmagic
        rw [if_neg hword]
        rw [decide_eq_false hmagic] at he
        have hnext : (readBus bus a 4).hasEeprom = true := heeprom
        exact ih hnext _ he

/-- The filesystem at power-up, with the fields of its initializer. -/
def wrcSdb (bus : W1Bus) : SdbfsDir := { bus := bus }

/-- `eeprom_present` returns, and after it a call to `sdbfs_open_id` reads the directory at `e`
and tells what is in it. -/
def OpensFrom (s : SdbfsDir) (e vid did : Nat) : Prop :=
  ∃ fuel s₁, eepromPresent fuel s = some s₁ ∧
    ∃ fuel' s₂ ret, sdbfsOpenId fuel' s₁ vid did = some (s₂, ret) ∧
      (∃ rest, s₂.bus.chip.log = s₁.bus.chip.log ++ Access.read e :: rest) ∧
      match lookup vid did (directoryAt s.bus.chip.mem e) with
      | some record =>
          ret = 0 ∧ s₂.file.fOffset = fileOffset record ∧ s₂.file.fLen = fileLen record
      | none => ret = -enoent

section Present

variable {bus : W1Bus} (heeprom : bus.hasEeprom) {e : Nat}
  (he : entryPoints.find? (fun a => MagicAt bus.chip.mem a) = some e)

include heeprom he

/-- Once the magic is found the directory is listed, from the entry point. -/
theorem eepromPresent_eq : ∃ s, Mounted s bus.chip.mem ∧
    ∀ fuel, eepromPresent fuel (wrcSdb bus) = eepromSdbList fuel s true := by
  obtain ⟨hmagic, heeprom', hmem⟩ := find_magic heeprom 0 he
  refine ⟨{ wrcSdb bus with
    bus := (searchMagic bus 0 entryPoints).1, method := true, hasEeprom := true },
    ⟨rfl, rfl, heeprom', hmem⟩, fun fuel => ?_⟩
  rw [eepromPresent]
  exact if_pos hmagic

/-- The first access of every lookup is to address 0. -/
theorem opensFrom_first {vid did : Nat} (h : OpensFrom (wrcSdb bus) e vid did) :
    e = 0 ∧ sdbRecords (recordAt bus.chip.mem 0) ≠ 0 := by
  obtain ⟨fuel, s₁, hpresent, fuel', s₂, ret, hopen, ⟨rest, hlog⟩, -⟩ := h
  obtain ⟨s, hmounted, hlist⟩ := eepromPresent_eq heeprom he
  rw [hlist] at hpresent
  have hrecords := (eepromSdbList_returns_iff hmounted).mp ⟨fuel, s₁, hpresent⟩
  obtain ⟨t, hscan, hmountedOpen, -, -, hfirst⟩ :=
    sdbfsScan_new (eepromSdbList_new_mounted hmounted hpresent)
  rw [sdbfsOpenId, hscan] at hopen
  obtain ⟨new, hnew⟩ := openRecords_grows hmountedOpen hopen
  rw [hfirst, hlog, List.append_assoc] at hnew
  have hreads := List.append_cancel_left hnew
  exact ⟨Access.read.inj (List.cons.inj hreads).1, hrecords⟩

/-- At address 0 every lookup finds the first record that matches. -/
theorem opensFrom_zero (hzero : e = 0) (hrecords : sdbRecords (recordAt bus.chip.mem 0) ≠ 0)
    (vid did : Nat) : OpensFrom (wrcSdb bus) e vid did := by
  subst hzero
  obtain ⟨s, hmounted, hlist⟩ := eepromPresent_eq heeprom he
  obtain ⟨fuel, s₁, hpresent⟩ := (eepromSdbList_returns_iff hmounted).mpr hrecords
  obtain ⟨t, hscan, hmountedOpen, hleft, hoffset, hfirst⟩ :=
    sdbfsScan_new (eepromSdbList_new_mounted hmounted hpresent)
  have hcount : t.nleft = (sdbRecords (recordAt bus.chip.mem 0) - 1 : Nat) := by omega
  obtain ⟨s₂, ret, hopen, hresult⟩ := openRecords_found hmountedOpen vid did hcount
  obtain ⟨new, hnew⟩ := openRecords_grows hmountedOpen hopen
  refine ⟨fuel, s₁, by rw [hlist]; exact hpresent,
    sdbRecords (recordAt bus.chip.mem 0) - 1 + 1, s₂, ret, ?_, ?_, ?_⟩
  · rw [sdbfsOpenId, hscan]
    exact hopen
  · rw [hnew, hfirst, List.append_assoc]
    exact ⟨_, rfl⟩
  · rw [hoffset] at hresult
    have hdirectory : recordsAfter bus.chip.mem 0 (sdbRecords (recordAt bus.chip.mem 0) - 1) =
      directoryAt (wrcSdb bus).bus.chip.mem 0 := rfl
    rw [hdirectory] at hresult
    cases hfound : lookup vid did (directoryAt (wrcSdb bus).bus.chip.mem 0) with
    | none =>
        rw [hfound] at hresult
        exact hresult
    | some record =>
        rw [hfound] at hresult
        obtain ⟨hret, hfile⟩ := hresult
        exact ⟨hret, by rw [hfile], by rw [hfile]⟩

end Present

/-- The directory is read from the entry point where the magic was found exactly if that is
address 0 and the interconnect record there counts itself. -/
theorem openId_reads_entry_iff {bus : W1Bus} (heeprom : bus.hasEeprom) {e : Nat}
    (he : entryPoints.find? (fun a => MagicAt bus.chip.mem a) = some e) :
    (∀ vid did, OpensFrom (wrcSdb bus) e vid did) ↔
      e = 0 ∧ sdbRecords (recordAt bus.chip.mem 0) ≠ 0 := by
  constructor
  · intro h
    exact opensFrom_first heeprom he (h 0 0)
  · rintro ⟨hzero, hrecords⟩
    exact opensFrom_zero heeprom he hzero hrecords

/-- A directory of two records, of which the second is the file of the MAC address, stored into
an image. -/
def storeDirectory (m : Nat → UInt8) (e : Nat) : Nat → UInt8 :=
  Memory.writeAt (Memory.writeAt m e [0x53, 0x44, 0x42, 0x2d, 0, 2])
    (e + 72) [0, 0, 0, 0, 0, 0, 1, 0, 0, 0, 0, 0, 0, 0, 1, 0xff,
      0x46, 0x69, 0x6c, 0x65, 0x44, 0x61, 0x74, 0x61, 0x6d, 0x61, 0x63, 0x2d]

/-- The directory at address 0. -/
def baseBus : W1Bus := { devs := [0x43], chip := { mem := storeDirectory (fun _ => 0) 0 } }

theorem openId_reads_entry_iff_base :
    OpensFrom (wrcSdb baseBus) 0 0x46696c6544617461 0x6d61632d :=
  (openId_reads_entry_iff (by decide) (by decide)).mpr ⟨rfl, by decide⟩ _ _

/-- The directory at 64.  The bytes where the driver looks for the number of records hold a
one. -/
def movedBus : W1Bus :=
  { devs := [0x43], chip := { mem := storeDirectory (Memory.writeAt (fun _ => 0) 5 [1]) 64 } }

theorem movedBus_hasEeprom : movedBus.hasEeprom = true := by decide

theorem movedBus_magic :
    entryPoints.find? (fun a => MagicAt movedBus.chip.mem a) = some 64 := by decide

/-- `SDB_VENDOR` and `SDB_DEV_MAC`: the directory that was found has the file, and the lookup
reports that there is none. -/
theorem openId_misses :
    entryPoints.find? (fun a => MagicAt movedBus.chip.mem a) = some 64 ∧
      (lookup 0x46696c6544617461 0x6d61632d (directoryAt movedBus.chip.mem 64)).isSome ∧
      ((eepromPresent 2 (wrcSdb movedBus)).bind fun s =>
        sdbfsOpenId 1 s 0x46696c6544617461 0x6d61632d).map Prod.snd = some (-enoent) ∧
      ¬ OpensFrom (wrcSdb movedBus) 64 0x46696c6544617461 0x6d61632d := by
  refine ⟨movedBus_magic, by decide, by decide, fun h => ?_⟩
  exact absurd (opensFrom_first movedBus_hasEeprom movedBus_magic h).1 (by decide)

end Directory
end Storage
end WrpcSw
