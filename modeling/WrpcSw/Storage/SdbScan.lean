import WrpcSw.Storage.SdbDirectory

/-!
# Scanning a directory (`sdb-lib/glue.c`, `dev/sdb-eeprom.c`)

`sdbfs_scan` for every filesystem of the library: the records are in a mapped image, or come from
the read method of a driver.  A new scan takes the number of records from the interconnect record,
which counts itself, and the following calls count down to zero.

* `sdbfsScan_next`, `sdbfsScan_end` — what one call does.
* `scan_terminates_iff` — the scan goes through the directory and ends, unless the interconnect
  record says that there are no records at all.
* `toDev_scan` — the scan of `Directory` is the one over the one-wire bus.
-/

namespace WrpcSw
namespace Storage
namespace Scan

open CInt OneWire Directory

/-! ## The filesystem -/

/-- `struct sdbfs` with the data of its driver.  `read` gives what the buffer holds after a call
of the method for a record; what the method returns is ignored. -/
structure SdbfsDev (δ : Type) where
  entrypoint : Nat := 0
  data : Option (Nat → UInt8) := none
  read : Option (δ → Nat → List UInt8 → δ × List UInt8) := none
  drvdata : δ
  currentRecord : List UInt8 := []
  nleft : Int := 0
  file : Sdbfs := {}

section

variable {δ : Type}

/-- The record at an offset of a mapped image. -/
def mappedRecord (image : Nat → UInt8) (offset : Nat) : List UInt8 :=
  (List.range 64).map fun i => image ((offset + i) % 2 ^ 32)

/-- `sdbfs_readentry`. -/
def sdbfsReadentry (fs : SdbfsDev δ) (offset : Nat) : SdbfsDev δ × Option (List UInt8) :=
  match fs.data, fs.read with
  | some image, _ => (fs, some (mappedRecord image offset))
  | none, none => (fs, none)
  | none, some read =>
      let r := read fs.drvdata offset fs.currentRecord
      ({ fs with drvdata := r.1, currentRecord := r.2 }, some r.2)

/-- `sdbfs_scan`. -/
def sdbfsScan (fs : SdbfsDev δ) (newscan : Bool) : SdbfsDev δ × Option (List UInt8) :=
  if newscan then
    let fs := { fs with file := { fs.file with fOffset := fs.entrypoint } }
    let (fs, ret) := sdbfsReadentry fs fs.file.fOffset
    ({ fs with nleft := (sdbRecords (ret.getD []) : Int) - 1 }, ret)
  else
    let fs := { fs with file := { fs.file with fOffset := (fs.file.fOffset + 64) % 2 ^ 32 } }
    if fs.nleft = 0 then (fs, none)
    else
      let (fs, ret) := sdbfsReadentry fs fs.file.fOffset
      ({ fs with nleft := fs.nleft - 1 }, ret)

/-- The loop over all records: the offsets of the records until the null pointer.  `none` is a
loop that is still going on after `fuel` calls. -/
def scanAll : Nat → SdbfsDev δ → Bool → Option (List Nat)
  | 0, _, _ => none
  | fuel + 1, fs, new =>
      match sdbfsScan fs new with
      | (_, none) => some []
      | (fs, some _) => (scanAll fuel fs false).map fun rest => fs.file.fOffset :: rest

/-- The record type of the record that was read last is overwritten, where the record is. -/
def clearType (fs : SdbfsDev δ) : SdbfsDev δ :=
  match fs.data with
  | some image =>
      { fs with data := some (Function.update image ((fs.file.fOffset + 63) % 2 ^ 32) 0) }
  | none => { fs with currentRecord := fs.currentRecord.set 63 0 }

/-- The loop of `eeprom_sdb_list`. -/
def eepromSdbList : Nat → SdbfsDev δ → Bool → Option (SdbfsDev δ)
  | 0, _, _ => none
  | fuel + 1, fs, new =>
      match sdbfsScan fs new with
      | (fs, none) => some fs
      | (fs, some _) => eepromSdbList fuel (clearType fs) false

/-- `__open`. -/
def openFile (fs : SdbfsDev δ) (record : List UInt8) : SdbfsDev δ :=
  { fs with file := ⟨true, fileOffset record, fileLen record, 0⟩ }

/-- The loop of `sdbfs_open_name` and of `sdbfs_open_id`, which open the first record that is
wanted. -/
def openWanted (wanted : List UInt8 → Bool) : Nat → SdbfsDev δ → Option (SdbfsDev δ × Int)
  | 0, _ => none
  | fuel + 1, fs =>
      match sdbfsScan fs false with
      | (fs, none) => some (fs, -enoent)
      | (fs, some d) =>
          if wanted d then some (openFile fs d, 0) else openWanted wanted fuel fs

/-- `product.name`. -/
def productName (record : List UInt8) : List UInt8 := (record.drop 44).take 19

/-- The name in a record is filled up with blanks. -/
def sdbfsOpenName (fuel : Nat) (fs : SdbfsDev δ) (name : List UInt8) :
    Option (SdbfsDev δ × Int) :=
  let len := name.length
  if len > 19 then some (fs, -enoent)
  else
    openWanted
      (fun d => (productName d).take len = name ∧
        (len < 19 → (productName d).getD len 0 = 32))
      fuel (sdbfsScan fs true).1

def sdbfsOpenId (fuel : Nat) (fs : SdbfsDev δ) (vid did : Nat) : Option (SdbfsDev δ × Int) :=
  openWanted (fun d => vid = vendorId d ∧ did = deviceId d) fuel (sdbfsScan fs true).1

/-! ## What a scan has to return -/

/-- The interconnect record. -/
def interconnect (fs : SdbfsDev δ) : List UInt8 :=
  ((sdbfsReadentry fs fs.entrypoint).2).getD []

/-- The offsets of `n` records behind `offset`. -/
def offsetsAfter (offset n : Nat) : List Nat :=
  (List.range n).map fun k => (offset + 64 * (k + 1)) % 2 ^ 32

/-- The scan returns the interconnect record and the records that follow it, and then null. -/
def ScansDirectory (fs : SdbfsDev δ) : Prop :=
  ∃ fuel, scanAll fuel fs true =
    some (fs.entrypoint :: offsetsAfter fs.entrypoint (sdbRecords (interconnect fs) - 1))

/-- The listing and the lookups end. -/
structure Terminates (fs : SdbfsDev δ) : Prop where
  list : ∃ fuel fs', eepromSdbList fuel fs true = some fs'
  openId : ∀ vid did, ∃ fuel r, sdbfsOpenId fuel fs vid did = some r
  openName : ∀ name, ∃ fuel r, sdbfsOpenName fuel fs name = some r

/-- The records come from an image or from a method. -/
def HasRecords (fs : SdbfsDev δ) : Prop := fs.data.isSome ∨ fs.read.isSome

/-! ## One call -/

section Call

variable {fs : SdbfsDev δ}

theorem offsetsAfter_succ (offset n : Nat) :
    offsetsAfter offset (n + 1) =
      (offset + 64) % 2 ^ 32 :: offsetsAfter ((offset + 64) % 2 ^ 32) n := by
  unfold offsetsAfter
  rw [List.range_succ_eq_map, List.map_cons, List.map_map]
  congr 1
  apply List.map_congr_left
  intro k _
  rw [Function.comp_apply]
  omega

/-- Reading a record touches the record and the driver only. -/
theorem sdbfsReadentry_spec (h : HasRecords fs) (offset : Nat) :
    ∃ fs' record, sdbfsReadentry fs offset = (fs', some record) ∧ HasRecords fs' ∧
      fs'.nleft = fs.nleft ∧ fs'.file = fs.file := by
  rcases fs with ⟨entrypoint, data, read, drvdata, currentRecord, nleft, file⟩
  cases data with
  | some image => exact ⟨_, _, rfl, h, rfl, rfl⟩
  | none =>
      cases read with
      | some read => exact ⟨_, _, rfl, Or.inr rfl, rfl, rfl⟩
      | none =>
          rcases h with h | h
          · exact absurd h nofun
          · exact absurd h nofun

/-- The position in the file does not matter for a read. -/
theorem sdbfsReadentry_record (fs : SdbfsDev δ) (file : Sdbfs) (offset : Nat) :
    (sdbfsReadentry { fs with file := file } offset).2 = (sdbfsReadentry fs offset).2 := by
  unfold sdbfsReadentry
  cases fs.data with
  | some image => rfl
  | none =>
      cases fs.read with
      | some read => rfl
      | none => rfl

/-- A new scan returns the interconnect record. -/
theorem sdbfsScan_new (h : HasRecords fs) :
    ∃ fs', sdbfsScan fs true = (fs', some (interconnect fs)) ∧ HasRecords fs' ∧
      fs'.nleft = (sdbRecords (interconnect fs) : Int) - 1 ∧
      fs'.file.fOffset = fs.entrypoint := by
  have hplaced : HasRecords { fs with file := { fs.file with fOffset := fs.entrypoint } } := h
  obtain ⟨fs', record, hread, hrecords, -, hfile⟩ := sdbfsReadentry_spec hplaced fs.entrypoint
  have hinterconnect : interconnect fs = record := by
    have hsame := congrArg Prod.snd hread
    rw [sdbfsReadentry_record] at hsame
    rw [interconnect, hsame]
    rfl
  refine ⟨{ fs' with nleft := (sdbRecords record : Int) - 1 }, ?_, hrecords, ?_, ?_⟩
  · rw [sdbfsScan, if_pos rfl, hinterconnect]
    dsimp only
    rw [hread]
    rfl
  · rw [hinterconnect]
  · exact congrArg Sdbfs.fOffset hfile

/-- The next record, as long as there are any left. -/
theorem sdbfsScan_next (h : HasRecords fs) (hleft : fs.nleft ≠ 0) :
    ∃ fs' record, sdbfsScan fs false = (fs', some record) ∧ HasRecords fs' ∧
      fs'.nleft = fs.nleft - 1 ∧ fs'.file.fOffset = (fs.file.fOffset + 64) % 2 ^ 32 := by
  have hplaced : HasRecords
      { fs with file := { fs.file with fOffset := (fs.file.fOffset + 64) % 2 ^ 32 } } := h
  obtain ⟨fs', record, hread, hrecords, hnleft, hfile⟩ :=
    sdbfsReadentry_spec hplaced ((fs.file.fOffset + 64) % 2 ^ 32)
  refine ⟨{ fs' with nleft := fs'.nleft - 1 }, record, ?_, hrecords, ?_, ?_⟩
  · rw [sdbfsScan, if_neg Bool.false_ne_true]
    dsimp only
    rw [if_neg hleft, hread]
  · exact congrArg (· - 1) hnleft
  · exact congrArg Sdbfs.fOffset hfile

theorem sdbfsScan_end (hleft : fs.nleft = 0) : ∃ fs', sdbfsScan fs false = (fs', none) := by
  refine ⟨{ fs with file := { fs.file with fOffset := (fs.file.fOffset + 64) % 2 ^ 32 } }, ?_⟩
  rw [sdbfsScan, if_neg Bool.false_ne_true]
  exact if_pos hleft

theorem clearType_spec (h : HasRecords fs) :
    HasRecords (clearType fs) ∧ (clearType fs).nleft = fs.nleft := by
  unfold clearType HasRecords
  cases hdata : fs.data with
  | some image => exact ⟨Or.inl rfl, rfl⟩
  | none =>
      rcases h with h | h
      · rw [hdata] at h
        exact absurd h nofun
      · exact ⟨Or.inr h, rfl⟩

end Call

/-! ## Whole loops -/

section Loops

variable {fs : SdbfsDev δ} (h : HasRecords fs)

include h

/-- The scan visits the records that are left. -/
theorem scanAll_eq {n : Nat} (hleft : fs.nleft = n) :
    scanAll (n + 1) fs false = some (offsetsAfter fs.file.fOffset n) := by
  induction n generalizing fs with
  | zero =>
      obtain ⟨fs', hend⟩ := sdbfsScan_end hleft
      rw [scanAll, hend]
      rfl
  | succ n ih =>
      obtain ⟨fs', record, hscan, hrecords, hnleft, hoffset⟩ := sdbfsScan_next h (by omega)
      rw [scanAll, hscan]
      dsimp only
      rw [ih hrecords (by omega), hoffset, offsetsAfter_succ]
      rfl

theorem eepromSdbList_ends {n : Nat} (hleft : fs.nleft = n) :
    ∃ fs', eepromSdbList (n + 1) fs false = some fs' := by
  induction n generalizing fs with
  | zero =>
      obtain ⟨fs', hend⟩ := sdbfsScan_end hleft
      rw [eepromSdbList, hend]
      exact ⟨fs', rfl⟩
  | succ n ih =>
      obtain ⟨fs', record, hscan, hrecords, hnleft, -⟩ := sdbfsScan_next h (by omega)
      obtain ⟨hcleared, hsame⟩ := clearType_spec hrecords
      rw [eepromSdbList, hscan]
      exact ih hcleared (by omega)

theorem openWanted_ends (wanted : List UInt8 → Bool) {n : Nat} (hleft : fs.nleft = n) :
    ∃ r, openWanted wanted (n + 1) fs = some r := by
  induction n generalizing fs with
  | zero =>
      obtain ⟨fs', hend⟩ := sdbfsScan_end hleft
      rw [openWanted, hend]
      exact ⟨(fs', -enoent), rfl⟩
  | succ n ih =>
      obtain ⟨fs', record, hscan, hrecords, hnleft, -⟩ := sdbfsScan_next h (by omega)
      rw [openWanted, hscan]
      dsimp only
      by_cases hwanted : wanted record
      · rw [if_pos hwanted]
        exact ⟨_, rfl⟩
      · rw [if_neg hwanted]
        exact ih hrecords (by omega)

/-- With `nleft` at -1 the scan returns another record. -/
theorem scanAll_of_neg (hleft : fs.nleft < 0) (fuel : Nat) : scanAll fuel fs false ≠ some [] := by
  cases fuel with
  | zero => exact nofun
  | succ fuel =>
      obtain ⟨fs', record, hscan, -⟩ := sdbfsScan_next h (by omega)
      rw [scanAll, hscan]
      intro hall
      obtain ⟨rest, -, hcons⟩ := Option.map_eq_some_iff.mp hall
      exact absurd hcons nofun

theorem eepromSdbList_runs_on (hleft : fs.nleft < 0) (fuel : Nat) :
    eepromSdbList fuel fs false = none := by
  induction fuel generalizing fs with
  | zero => rfl
  | succ fuel ih =>
      obtain ⟨fs', record, hscan, hrecords, hnleft, -⟩ := sdbfsScan_next h (by omega)
      obtain ⟨hcleared, hsame⟩ := clearType_spec hrecords
      rw [eepromSdbList, hscan]
      exact ih hcleared (by omega)

theorem scansDirectory_iff : ScansDirectory fs ↔ sdbRecords (interconnect fs) ≠ 0 := by
  obtain ⟨fs', hscan, hrecords, hnleft, hoffset⟩ := sdbfsScan_new h
  constructor
  · rintro ⟨fuel, hall⟩ hzero
    cases fuel with
    | zero => exact absurd hall nofun
    | succ fuel =>
        rw [scanAll, hscan, hzero] at hall
        obtain ⟨rest, hrest, hcons⟩ := Option.map_eq_some_iff.mp hall
        have hnil : rest = [] := (List.cons.inj hcons).2
        exact scanAll_of_neg hrecords (by omega) fuel (hnil ▸ hrest)
  · intro hcount
    refine ⟨sdbRecords (interconnect fs) - 1 + 1 + 1, ?_⟩
    rw [scanAll, hscan]
    dsimp only
    rw [scanAll_eq hrecords (n := sdbRecords (interconnect fs) - 1) (by omega), hoffset]
    rfl

theorem eepromSdbList_ends_iff :
    (∃ fuel fs', eepromSdbList fuel fs true = some fs') ↔ sdbRecords (interconnect fs) ≠ 0 := by
  obtain ⟨fs', hscan, hrecords, hnleft, -⟩ := sdbfsScan_new h
  obtain ⟨hcleared, hsame⟩ := clearType_spec hrecords
  constructor
  · rintro ⟨fuel, last, hlist⟩ hzero
    cases fuel with
    | zero => exact absurd hlist nofun
    | succ fuel =>
        rw [eepromSdbList, hscan] at hlist
        have hruns := eepromSdbList_runs_on hcleared (by omega) fuel
        exact absurd (hruns.symm.trans hlist) nofun
  · intro hcount
    obtain ⟨last, hlast⟩ := eepromSdbList_ends hcleared
      (n := sdbRecords (interconnect fs) - 1) (by omega)
    refine ⟨sdbRecords (interconnect fs) - 1 + 1 + 1, last, ?_⟩
    rw [eepromSdbList, hscan]
    exact hlast

theorem terminates_of_records (hcount : sdbRecords (interconnect fs) ≠ 0) : Terminates fs := by
  obtain ⟨fs', hscan, hrecords, hnleft, -⟩ := sdbfsScan_new h
  have hopen : ∀ wanted : List UInt8 → Bool,
      ∃ r, openWanted wanted (sdbRecords (interconnect fs) - 1 + 1) (sdbfsScan fs true).1 =
        some r := by
    intro wanted
    rw [hscan]
    exact openWanted_ends hrecords wanted (by omega)
  refine ⟨(eepromSdbList_ends_iff h).mpr hcount, fun vid did => ⟨_, hopen _⟩, fun name => ?_⟩
  · by_cases hlen : name.length > 19
    · exact ⟨0, _, if_pos hlen⟩
    · obtain ⟨r, hr⟩ := hopen fun d => (productName d).take name.length = name ∧
        (name.length < 19 → (productName d).getD name.length 0 = 32)
      exact ⟨_, r, (if_neg hlen).trans hr⟩

/-- The scan goes through the directory and ends, and so do the listing and the lookups, exactly
if the interconnect record counts at least one record. -/
theorem scan_terminates_iff :
    (ScansDirectory fs ∧ Terminates fs) ↔ sdbRecords (interconnect fs) ≠ 0 := by
  constructor
  · rintro ⟨hscans, -⟩
    exact (scansDirectory_iff h).mp hscans
  · intro hcount
    exact ⟨(scansDirectory_iff h).mpr hcount, terminates_of_records h hcount⟩

end Loops

end

/-- A mapped image with a directory of two records. -/
def mappedFs : SdbfsDev Unit :=
  { data := some fun a => if a = 5 then 2 else 0, drvdata := () }

theorem scan_terminates_mapped : ScansDirectory mappedFs ∧ Terminates mappedFs := by
  have hrecords : HasRecords mappedFs := Or.inl rfl
  exact (scan_terminates_iff hrecords).mpr (by decide)

/-- An image of zeros. -/
def blankFs : SdbfsDev Unit := { data := some fun _ => 0, drvdata := () }

theorem blankFs_runs_on : ¬ (ScansDirectory blankFs ∧ Terminates blankFs) := by
  rintro ⟨hscans, -⟩
  have hrecords : HasRecords blankFs := Or.inl rfl
  have hcount := (scansDirectory_iff hrecords).mp hscans
  exact hcount (by decide)

/-! ## The one-wire bus -/

/-- `sdb_w1_read`: an error leaves the buffer as it is. -/
def sdbW1Read (bus : W1Bus) (offset : Nat) (buf : List UInt8) : W1Bus × List UInt8 :=
  let r := w1ReadEepromBus bus (i32 offset) 64
  (r.1, if r.2.1 < 0 then buf else r.2.2)

/-- `wrc_sdb` as one of the filesystems of the library. -/
def toDev (s : SdbfsDir) : SdbfsDev W1Bus :=
  { entrypoint := s.entrypoint
    read := if s.method then some sdbW1Read else none
    drvdata := s.bus
    currentRecord := s.currentRecord
    nleft := s.nleft
    file := s.file }

theorem toDev_readentry (s : SdbfsDir) (offset : Nat) :
    sdbfsReadentry (toDev s) offset =
      (toDev (Directory.sdbfsReadentry s offset).1, (Directory.sdbfsReadentry s offset).2) := by
  rcases s with ⟨entrypoint, method, currentRecord, nleft, file, hasEeprom, bus⟩
  cases method with
  | false => rfl
  | true => rfl

theorem toDev_scan (s : SdbfsDir) (newscan : Bool) :
    sdbfsScan (toDev s) newscan =
      (toDev (Directory.sdbfsScan s newscan).1, (Directory.sdbfsScan s newscan).2) := by
  cases newscan with
  | true =>
      have hread := toDev_readentry { s with file := { s.file with fOffset := s.entrypoint } }
        s.entrypoint
      rw [sdbfsScan, Directory.sdbfsScan, if_pos rfl, if_pos rfl]
      exact congrArg
        (fun r : SdbfsDev W1Bus × Option (List UInt8) =>
          ({ r.1 with nleft := (sdbRecords (r.2.getD []) : Int) - 1 }, r.2)) hread
  | false =>
      have hread := toDev_readentry
        { s with file := { s.file with fOffset := (s.file.fOffset + 64) % 2 ^ 32 } }
        ((s.file.fOffset + 64) % 2 ^ 32)
      rw [sdbfsScan, Directory.sdbfsScan, if_neg Bool.false_ne_true, if_neg Bool.false_ne_true]
      dsimp only
      by_cases hleft : s.nleft = 0
      · have hleftDev : (toDev s).nleft = 0 := hleft
        rw [if_pos hleft, if_pos hleftDev]
        rfl
      · have hleftDev : ¬ (toDev s).nleft = 0 := hleft
        rw [if_neg hleft, if_neg hleftDev]
        exact congrArg
          (fun r : SdbfsDev W1Bus × Option (List UInt8) =>
            ({ r.1 with nleft := r.1.nleft - 1 }, r.2)) hread

theorem toDev_list (fuel : Nat) (s : SdbfsDir) (new : Bool) :
    eepromSdbList fuel (toDev s) new = (Directory.eepromSdbList fuel s new).map toDev := by
  induction fuel generalizing s new with
  | zero => rfl
  | succ fuel ih =>
      rw [eepromSdbList, Directory.eepromSdbList, toDev_scan]
      rcases Directory.sdbfsScan s new with ⟨s', _ | record⟩
      · rfl
      · exact ih { s' with currentRecord := s'.currentRecord.set 63 0 } false

theorem toDev_open (fuel : Nat) (s : SdbfsDir) (vid did : Nat) :
    sdbfsOpenId fuel (toDev s) vid did =
      (Directory.sdbfsOpenId fuel s vid did).map (Prod.map toDev id) := by
  have hloop : ∀ (fuel : Nat) (s : SdbfsDir),
      openWanted (fun d => vid = vendorId d ∧ did = deviceId d) fuel (toDev s) =
        (openRecords vid did fuel s).map (Prod.map toDev id) := by
    intro fuel
    induction fuel with
    | zero => exact fun _ => rfl
    | succ fuel ih =>
        intro s
        rw [openWanted, openRecords, toDev_scan]
        rcases Directory.sdbfsScan s false with ⟨s', _ | record⟩
        · rfl
        · dsimp only
          by_cases hvid : vid = vendorId record
          · by_cases hdid : did = deviceId record
            · rw [if_pos (decide_eq_true ⟨hvid, hdid⟩), if_neg (not_not_intro hvid),
                if_neg (not_not_intro hdid)]
              rfl
            · rw [if_neg fun hboth => hdid (of_decide_eq_true hboth).2,
                if_neg (not_not_intro hvid), if_pos hdid, ih]
          · rw [if_neg fun hboth => hvid (of_decide_eq_true hboth).1, if_pos hvid, ih]
  rw [sdbfsOpenId, toDev_scan, hloop]
  rfl

end Scan
end Storage
end WrpcSw
