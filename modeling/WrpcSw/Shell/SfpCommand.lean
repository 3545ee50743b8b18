import WrpcSw.Dev.Sfp
import WrpcSw.Shell.Exec
import WrpcSw.Storage.SfpTableDrivers
import WrpcSw.Util.Atoi

/-!
# The command `sfp` (`shell/cmd_sfp.c`)

An operator stores the calibration of transceivers with `sfp add`, and at every boot the init
script runs `sfp detect` and `sfp match`, which look up the one that is plugged in.

* `cmdSfp` — the command, over either driver of the storage.
* `record_samePn_iff` — the padded name of a record is the part number of the description.
* `sfp_learn_match` — what was typed for a transceiver is in the calibration variables after the
  match.
-/

namespace WrpcSw
namespace Shell

open Storage Dev PpPrintf Util

/-- `mprintf`: what reaches the console ends at the first zero. -/
def mprintf (fmt : String) (args : List Arg) : List UInt8 :=
  (Xint.vsprintf (ascii fmt) args).takeWhile (· ≠ 0)

/-! ## Records -/

/-- An array of `SFP_PN_LEN` characters. -/
structure PartNumber where
  chars : List UInt8
  size_eq : chars.length = 16

/-- The argument of `sfp add`, cut to the array and padded with spaces. -/
def padded (name : List UInt8) : PartNumber where
  chars := name.take 16 ++ List.replicate (16 - name.length) 32
  size_eq := by
    rw [List.length_append, List.length_take, List.length_replicate]
    omega

/-- `strncpy(sfp.pn, pn, SFP_PN_LEN)` -/
def strncpyPn (pn : List UInt8) : PartNumber where
  chars := (Storage.chars (pn.take 16)) ++
    List.replicate (16 - (Storage.chars (pn.take 16)).length) 0
  size_eq := by
    have hle : (Storage.chars (pn.take 16)).length ≤ 16 :=
      (List.takeWhile_prefix _).length_le.trans (List.length_take_le ..)
    rw [List.length_append, List.length_replicate]
    omega

/-- A record with these fields; the checksum stays as it was. -/
def fields (sfp : SfpInfo) (pn : PartNumber) (alpha dTx dRx : BitVec 32) : SfpInfo where
  bytes := pn.chars ++ (wordBytes alpha ++ (wordBytes dTx ++ (wordBytes dRx ++ sfp.bytes.drop 28)))
  size_eq := by
    simp only [List.length_append, length_wordBytes, List.length_drop, SfpInfo.length_bytes,
      pn.size_eq]
    rfl

/-- A record with another part number. -/
def withPn (sfp : SfpInfo) (pn : PartNumber) : SfpInfo where
  bytes := pn.chars ++ sfp.bytes.drop 16
  size_eq := by
    simp only [List.length_append, List.length_drop, SfpInfo.length_bytes, pn.size_eq]
    rfl

/-! ## The command -/

/-- The storage, the transceiver, the array of `cmd_sfp`, the calibration and the console. -/
structure SfpNode (σ : Type*) where
  eeprom : σ
  bus : I2c.Bus
  det : Bool
  pn : List UInt8
  pn_size : pn.length = 17
  sfpDeltaTx : BitVec 32
  sfpDeltaRx : BitVec 32
  sfpAlpha : BitVec 32
  out : List UInt8 := []

/-- An argument of `mprintf`. -/
def intArg (value : BitVec 32) : Arg := .int (UInt32.ofBitVec value)

def int8Arg (value : Int) : Arg := .int (UInt32.ofInt value)

namespace SfpNode

variable {σ : Type*} (d : SfpDriver σ) (node : SfpNode σ)

def print (text : List UInt8) : SfpNode σ := { node with out := node.out ++ text }

def detect : SfpNode σ :=
  let (bus, pn, out) : I2c.Bus × {pn : List UInt8 // pn.length = 17} × List UInt8 :=
    if Sfp.sfpPresent node.det then
      let r := Sfp.sfpReadPartId node.bus node.pn
      (r.1, ⟨r.2.2, (Sfp.length_sfpReadPartId ..).trans node.pn_size⟩, [])
    else (node.bus, ⟨node.pn, node.pn_size⟩, mprintf "No SFP.\n" [])
  let pn : {pn : List UInt8 // pn.length = 17} :=
    ⟨pn.1.set 16 0, (List.length_set ..).trans pn.2⟩
  { node with
      bus := bus
      pn := pn.1
      pn_size := pn.2
      out := node.out ++ out ++ mprintf "%s\n" [.str (Storage.chars pn.1)] }

def erase : SfpNode σ :=
  let r := d.erase node.eeprom
  let node := { node with eeprom := r.1 }
  if r.2 = eeRetI2cerr then node.print (mprintf "Could not erase DB\n" []) else node

/-- `sfp` is what happens to be on the stack. -/
def add (sfp : SfpInfo) (name dTx dRx alpha : List UInt8) : SfpNode σ :=
  let sfp := fields sfp (padded name) (atoi alpha) (atoi dTx) (atoi dRx)
  let r := d.getSfp node.eeprom sfp true 0
  let temp := CInt.i8 r.2.1
  let node := { node with eeprom := r.1 }
  if temp = eeRetDbfull then node.print (mprintf "SFP DB is full\n" [])
  else if temp = eeRetI2cerr then node.print (mprintf "I2C error\n" [])
  else node.print (mprintf "%d SFPs in DB\n" [int8Arg temp])

/-- The line of a record. -/
def recordLine (i : Int) (sfp : SfpInfo) : List UInt8 :=
  mprintf "%d: PN:" [int8Arg (i + 1)] ++
    sfp.pn.flatMap (fun c => mprintf "%c" [int8Arg c.toNat]) ++
    mprintf " dTx: %d, dRx: %d, alpha: %d\n"
      [intArg (wordOf sfp.dTx), intArg (wordOf sfp.dRx), intArg (wordOf sfp.alpha)]

/-- The later rounds of `sfp show`, from the position `i` on. -/
def showLoop : Nat → Nat → σ → SfpInfo → σ × List UInt8
  | 0, _, s, _ => (s, [])
  | left + 1, i, s, sfp =>
      let r := d.getSfp s sfp false i
      let rest := showLoop left (i + 1) r.1 r.2.2
      (rest.1, recordLine i r.2.2 ++ rest.2)

/-- The first round returns the count, as a signed byte. -/
def showAll (sfp : SfpInfo) : SfpNode σ :=
  let r := d.getSfp node.eeprom sfp false 0
  let sfpcount := CInt.i8 r.2.1
  let first := { node with eeprom := r.1 }
  if sfpcount = 0 ∨ sfpcount = 0xff then first.print (mprintf "SFP database empty...\n" [])
  else if sfpcount = -1 then first.print (mprintf "SFP database corrupted...\n" [])
  else
    let rest := showLoop d (sfpcount - 1).toNat 1 r.1 r.2.2
    { node with eeprom := rest.1 }.print (recordLine 0 r.2.2 ++ rest.2)

/-- `sfp` and `dbsfp` are what happens to be on the stack. -/
def matchSfp (sfp dbsfp : SfpInfo) : Option (SfpNode σ) :=
  if node.pn.head? = some 0 then some (node.print (mprintf "Run sfp detect first\n" []))
  else
    match d.matchSfp node.eeprom dbsfp (withPn sfp (strncpyPn node.pn)) with
    | none => none
    | some (s, ret, sfp) =>
        let node := { node with eeprom := s }
        if ret > 0 then
          some ({ node with
              sfpDeltaTx := wordOf sfp.dTx
              sfpDeltaRx := wordOf sfp.dRx
              sfpAlpha := wordOf sfp.alpha }.print
            (mprintf "SFP matched, dTx=%d, dRx=%d, alpha=%d\n"
              [intArg (wordOf sfp.dTx), intArg (wordOf sfp.dRx), intArg (wordOf sfp.alpha)]))
        else some (node.print (mprintf "Could not match to DB\n" []))

end SfpNode

/-- A command as it is typed, and what is on the stack when it runs. -/
structure Typed where
  args : List (List UInt8)
  sfp : SfpInfo
  dbsfp : SfpInfo

/-- `cmd_sfp`, which always returns zero.  Without an argument it compares a null pointer. -/
def cmdSfp {σ : Type*} (d : SfpDriver σ) (node : SfpNode σ) (c : Typed) : Option (SfpNode σ) :=
  match c.args with
  | [] => none
  | sub :: args =>
      if strcasecmp sub (ascii "detect") = 0 then some node.detect
      else if strcasecmp sub (ascii "erase") = 0 then some (node.erase d)
      else
        match args with
        | name :: dTx :: dRx :: alpha :: _ =>
            if strcasecmp sub (ascii "add") = 0 then some (node.add d c.sfp name dTx dRx alpha)
            else other sub
        | _ => other sub
where
  /-- The branches behind the one for "add". -/
  other (sub : List UInt8) : Option (SfpNode σ) :=
    if strcasecmp sub (ascii "show") = 0 then some (node.showAll d c.sfp)
    else if strcasecmp sub (ascii "match") = 0 then node.matchSfp d c.sfp c.dbsfp
    else some node

/-- Commands one after the other. -/
def runSfp {σ : Type*} (d : SfpDriver σ) : SfpNode σ → List Typed → Option (SfpNode σ)
  | node, [] => some node
  | node, c :: cs =>
      match cmdSfp d node c with
      | none => none
      | some node => runSfp d node cs

/-! ## The records that are made and looked for -/

section Record

variable (sfp : SfpInfo) (pn : PartNumber) (alpha dTx dRx : BitVec 32)

theorem pn_fields : (fields sfp pn alpha dTx dRx).pn = pn.chars :=
  List.take_left' pn.size_eq

theorem pn_withPn : (withPn sfp pn).pn = pn.chars := List.take_left' pn.size_eq

theorem calibration_fields : (fields sfp pn alpha dTx dRx).calibration =
    (wordBytes dTx, wordBytes dRx, wordBytes alpha) := by
  have hafter : ∀ n, (fields sfp pn alpha dTx dRx).bytes.drop (16 + n) =
      (wordBytes alpha ++ (wordBytes dTx ++ (wordBytes dRx ++ sfp.bytes.drop 28))).drop n := by
    intro n
    rw [← List.drop_drop, fields, List.drop_left' pn.size_eq]
  unfold SfpInfo.calibration
  congr 1
  · show ((fields sfp pn alpha dTx dRx).bytes.drop (16 + 4)).take 4 = _
    rw [hafter, List.drop_left' (length_wordBytes alpha), List.take_left' (length_wordBytes dTx)]
  · congr 1
    · show ((fields sfp pn alpha dTx dRx).bytes.drop (16 + (4 + 4))).take 4 = _
      rw [hafter, ← List.drop_drop, List.drop_left' (length_wordBytes alpha),
        List.drop_left' (length_wordBytes dTx), List.take_left' (length_wordBytes dRx)]
    · show ((fields sfp pn alpha dTx dRx).bytes.drop (16 + 0)).take 4 = _
      rw [hafter, List.drop_zero, List.take_left' (length_wordBytes alpha)]

/-- The checksum is behind all other fields. -/
theorem take_withChksum {n : Nat} (h : n ≤ 28) :
    sfp.withChksum.bytes.take n = sfp.bytes.take n := by
  have hlen : (sfp.bytes.take (sfpInfoSize - 1)).length = 28 := by
    rw [List.length_take, SfpInfo.length_bytes]
    rfl
  rw [SfpInfo.withChksum, List.take_append_of_le_length (by omega), List.take_take]
  congr 1
  exact Nat.min_eq_left h

theorem pn_withChksum : sfp.withChksum.pn = sfp.pn := take_withChksum sfp (by omega)

theorem calibration_withChksum : sfp.withChksum.calibration = sfp.calibration := by
  have hword : ∀ n, n + 4 ≤ 28 →
      (sfp.withChksum.bytes.drop n).take 4 = (sfp.bytes.drop n).take 4 := by
    intro n hn
    rw [List.take_drop, List.take_drop, take_withChksum sfp hn]
  unfold SfpInfo.calibration SfpInfo.dTx SfpInfo.dRx SfpInfo.alpha
  rw [hword 16 (by omega), hword 20 (by omega), hword 24 (by omega)]

theorem chars_of_isString {text : List UInt8} (h : IsString text) : chars text = text :=
  List.takeWhile_eq_self_iff.mpr fun c hc => decide_eq_true (h c hc)

theorem padded_isString {name : List UInt8} (h : IsString name) : IsString (padded name).chars := by
  intro c hc
  rcases List.mem_append.mp hc with hc | hc
  · exact h c (List.mem_of_mem_take hc)
  · rw [List.eq_of_mem_replicate hc]
    decide

theorem chars_strncpyPn (p : List UInt8) : chars (strncpyPn p).chars = chars (p.take 16) := by
  have hstring : ∀ c ∈ chars (p.take 16), decide (c ≠ 0) = true :=
    fun c hc => List.mem_takeWhile_imp (p := fun c => decide (c ≠ 0)) hc
  show chars (chars (p.take 16) ++ _) = _
  unfold chars at hstring ⊢
  rw [List.takeWhile_append_of_pos hstring]
  cases 16 - ((p.take 16).takeWhile fun x => decide (x ≠ 0)).length with
  | zero => exact List.append_nil _
  | succ n => exact List.append_nil _

/-- A string that fills the array is the part number that was read exactly if the part number has
the same characters. -/
theorem chars_eq_iff {a b : List UInt8} (ha : IsString a) (hlen : a.length = b.length) :
    a = chars b ↔ a = b := by
  constructor
  · intro h
    have hprefix : a <+: b := h ▸ List.takeWhile_prefix _
    exact hprefix.eq_of_length hlen
  · rintro rfl
    exact (chars_of_isString ha).symm

/-- A record that was added matches exactly if its padded name is the part number. -/
theorem samePn_iff {name pn rest : List UInt8} (hname : IsString name) (hpn : pn.length = 16)
    (db : SfpInfo) :
    RecordReads.SamePn (fields db (padded name) alpha dTx dRx).withChksum
        (withPn sfp (strncpyPn (pn ++ rest))) ↔ (padded name).chars = pn := by
  unfold RecordReads.SamePn
  rw [pn_withChksum, pn_fields, pn_withPn,
    strncmp_eq_zero_iff (padded name).size_eq (strncpyPn _).size_eq, chars_strncpyPn,
    List.take_left' hpn, chars_of_isString (padded_isString hname)]
  exact chars_eq_iff (padded_isString hname) ((padded name).size_eq.trans hpn.symm)

end Record

/-! ## The commands -/

section Commands

variable {σ : Type*} {d : SfpDriver σ} {Usable : σ → Prop} {Holds : σ → SfpTable → Prop}

/-- A command that only works on the storage. -/
structure Kept (node node' : SfpNode σ) : Prop where
  bus : node'.bus = node.bus
  det : node'.det = node.det
  pn : node'.pn = node.pn
  sfpDeltaTx : node'.sfpDeltaTx = node.sfpDeltaTx
  sfpDeltaRx : node'.sfpDeltaRx = node.sfpDeltaRx
  sfpAlpha : node'.sfpAlpha = node.sfpAlpha

/-- The calibration of a node. -/
def SfpNode.calibration (node : SfpNode σ) : BitVec 32 × BitVec 32 × BitVec 32 :=
  (node.sfpDeltaTx, node.sfpDeltaRx, node.sfpAlpha)

theorem Kept.trans {a b c : SfpNode σ} (h : Kept a b) (h' : Kept b c) : Kept a c :=
  ⟨h'.bus.trans h.bus, h'.det.trans h.det, h'.pn.trans h.pn, h'.sfpDeltaTx.trans h.sfpDeltaTx,
    h'.sfpDeltaRx.trans h.sfpDeltaRx, h'.sfpAlpha.trans h.sfpAlpha⟩

theorem Kept.calibration {a b : SfpNode σ} (h : Kept a b) : b.calibration = a.calibration := by
  unfold SfpNode.calibration
  rw [h.sfpDeltaTx, h.sfpDeltaRx, h.sfpAlpha]

theorem kept_print (node : SfpNode σ) (s : σ) (text : List UInt8) :
    Kept node ({ node with eeprom := s }.print text) := ⟨rfl, rfl, rfl, rfl, rfl, rfl⟩

theorem SfpNode.erase_spec (laws : SfpLaws d Usable Holds) {node : SfpNode σ}
    (h : Usable node.eeprom) :
    Kept node (node.erase d) ∧ Holds (node.erase d).eeprom SfpTable.empty := by
  obtain ⟨s', herase, hholds⟩ := laws.erase h
  unfold SfpNode.erase
  rw [herase]
  dsimp only
  rw [if_neg (by decide)]
  exact ⟨⟨rfl, rfl, rfl, rfl, rfl, rfl⟩, hholds⟩

theorem SfpNode.add_spec (laws : SfpLaws d Usable Holds) {node : SfpNode σ} {t : SfpTable}
    (h : Holds node.eeprom t) (sfp : SfpInfo) (name dTx dRx alpha : List UInt8) :
    Kept node (node.add d sfp name dTx dRx alpha) ∧
      Holds (node.add d sfp name dTx dRx alpha).eeprom
        (t.add (fields sfp (padded name) (atoi alpha) (atoi dTx) (atoi dRx))) := by
  obtain ⟨s', sfp', hadd, hholds⟩ := laws.add h
    (fields sfp (padded name) (atoi alpha) (atoi dTx) (atoi dRx))
  unfold SfpNode.add
  dsimp only
  rw [hadd]
  split_ifs
  · exact ⟨kept_print .., hholds⟩
  · exact ⟨kept_print .., hholds⟩
  · exact ⟨kept_print .., hholds⟩

/-- `sfp detect` with a transceiver. -/
theorem SfpNode.detect_spec {node : SfpNode σ} {page : Nat → UInt8} (hdet : node.det = false)
    (hserves : Sfp.Serves node.bus page) :
    node.detect.eeprom = node.eeprom ∧ node.detect.pn = Sfp.partNumber page ++ [0] ∧
      node.detect.calibration = node.calibration := by
  have hread := Sfp.sfpReadPartId_eq hserves (show 16 ≤ node.pn.length by
    rw [node.pn_size]
    omega)
  have hlength : (Sfp.partNumber page).length = 16 := by
    rw [Sfp.partNumber, List.length_map, List.length_range]
  have hlast : ∃ c, node.pn.drop 16 = [c] := List.length_eq_one_iff.mp (by
    rw [List.length_drop, node.pn_size])
  obtain ⟨c, hc⟩ := hlast
  have hpn : node.detect.pn = (Sfp.sfpReadPartId node.bus node.pn).2.2.set 16 0 := by
    unfold SfpNode.detect
    rw [if_pos (by rw [hdet]; rfl)]
  refine ⟨rfl, ?_, rfl⟩
  rw [hpn, hread, hc, List.set_append_right _ _ (by omega), hlength]
  rfl

/-- The later rounds of `sfp show` print the later records. -/
theorem SfpNode.showLoop_spec (laws : SfpLaws d Usable Holds) {t : SfpTable} (left : Nat) {i : Nat}
    (hi : 0 < i) (hleft : i + left = t.records.length) {s : σ} (h : Holds s t) (sfp : SfpInfo) :
    ∃ s', SfpNode.showLoop d left i s sfp =
        (s', ((t.records.drop i).zipIdx i).flatMap fun r => SfpNode.recordLine r.2 r.1) ∧
      Holds s' t := by
  induction left generalizing i s sfp with
  | zero =>
      rw [SfpNode.showLoop, List.drop_of_length_le (by omega)]
      exact ⟨s, rfl, h⟩
  | succ left ih =>
      have hlt : i < t.records.length := by omega
      obtain ⟨s₁, ret, hread, hholds, -⟩ := laws.read h hlt sfp
      obtain ⟨s', hrest, hholds'⟩ := ih (Nat.succ_pos i) (by omega) hholds t.records[i]
      rw [SfpNode.showLoop, List.drop_eq_getElem_cons hlt, List.zipIdx_cons, List.flatMap_cons]
      simp only [hread, hrest]
      exact ⟨s', rfl, hholds'⟩

/-- `sfp show` prints the records of the table, in their order. -/
theorem SfpNode.showAll_spec (laws : SfpLaws d Usable Holds) {node : SfpNode σ} {t : SfpTable}
    (h : Holds node.eeprom t) (sfp : SfpInfo) :
    (node.showAll d sfp).out = node.out ++
        (if t.records = [] then mprintf "SFP database empty...\n" []
        else t.records.zipIdx.flatMap fun r => SfpNode.recordLine r.2 r.1) ∧
      Holds (node.showAll d sfp).eeprom t := by
  have hmax : t.records.length ≤ 4 := t.fits
  unfold SfpNode.showAll
  by_cases hnil : t.records = []
  · obtain ⟨s', hget, hholds⟩ := laws.vacant h hnil sfp
    rw [hget, if_pos hnil]
    exact ⟨rfl, hholds⟩
  · have hlt : 0 < t.records.length := List.length_pos_iff.mpr hnil
    obtain ⟨s₁, ret, hread, hholds, hret⟩ := laws.read h hlt sfp
    have hcount : CInt.i8 ret = t.records.length := by
      rw [hret rfl]
      unfold CInt.i8
      omega
    obtain ⟨s', hrest, hholds'⟩ := SfpNode.showLoop_spec laws (t.records.length - 1)
      Nat.zero_lt_one (by omega) hholds t.records[0]
    have hleft : ((t.records.length : Int) - 1).toNat = t.records.length - 1 := by omega
    dsimp only
    rw [hread]
    dsimp only
    rw [hcount, if_neg (by omega), if_neg (by omega), if_neg hnil, hleft, hrest]
    refine ⟨?_, hholds'⟩
    have hcons : t.records = t.records[0] :: t.records.drop 1 := by
      rw [← List.drop_eq_getElem_cons hlt, List.drop_zero]
    have hzip : t.records.zipIdx = (t.records[0], 0) :: (t.records.drop 1).zipIdx 1 :=
      (congrArg List.zipIdx hcons).trans List.zipIdx_cons
    rw [hzip, List.flatMap_cons]
    rfl

/-- `sfp match` with the part number of a transceiver. -/
theorem SfpNode.matchSfp_spec (laws : SfpLaws d Usable Holds) {node : SfpNode σ} {t : SfpTable}
    (h : Holds node.eeprom t) (hpn : node.pn.head? ≠ some 0) (sfp dbsfp : SfpInfo) :
    ∃ node', node.matchSfp d sfp dbsfp = some node' ∧ Holds node'.eeprom t ∧
      node'.calibration =
        match t.find (withPn sfp (strncpyPn node.pn)) with
        | some r => (wordOf r.dTx, wordOf r.dRx, wordOf r.alpha)
        | none => node.calibration := by
  obtain ⟨s', hmatch, hholds⟩ := laws.matchSfp (withPn sfp (strncpyPn node.pn)) h dbsfp
  unfold SfpNode.matchSfp
  rw [if_neg hpn, hmatch]
  cases t.find (withPn sfp (strncpyPn node.pn)) with
  | none => exact ⟨_, rfl, hholds, rfl⟩
  | some r =>
      refine ⟨_, rfl, hholds, ?_⟩
      have hcal := SfpInfo.calibration_withCalibration (withPn sfp (strncpyPn node.pn)) r
      unfold SfpInfo.calibration at hcal
      obtain ⟨hdTx, hrest⟩ := Prod.mk.inj hcal
      obtain ⟨hdRx, halpha⟩ := Prod.mk.inj hrest
      show (wordOf (SfpInfo.dTx _), wordOf (SfpInfo.dRx _), wordOf (SfpInfo.alpha _)) = _
      rw [hdTx, hdRx, halpha]

end Commands

/-! ## What an operator does -/

/-- The arguments of an `sfp add`, and what is on the stack when it runs. -/
structure Entry where
  name : List UInt8
  dTx : List UInt8
  dRx : List UInt8
  alpha : List UInt8
  sfp : SfpInfo
  dbsfp : SfpInfo

namespace Entry

variable (e : Entry)

def typed : Typed := ⟨[ascii "add", e.name, e.dTx, e.dRx, e.alpha], e.sfp, e.dbsfp⟩

/-- The record that is made. -/
def record : SfpInfo := fields e.sfp (padded e.name) (atoi e.alpha) (atoi e.dTx) (atoi e.dRx)

/-- The calibration that is typed. -/
def calibration : BitVec 32 × BitVec 32 × BitVec 32 := (atoi e.dTx, atoi e.dRx, atoi e.alpha)

theorem calibration_record : (wordOf e.record.withChksum.dTx, wordOf e.record.withChksum.dRx,
    wordOf e.record.withChksum.alpha) = e.calibration := by
  have hcal := calibration_withChksum e.record
  rw [record, calibration_fields] at hcal
  obtain ⟨hdTx, hrest⟩ := Prod.mk.inj hcal
  obtain ⟨hdRx, halpha⟩ := Prod.mk.inj hrest
  rw [record, hdTx, hdRx, halpha, wordOf_wordBytes, wordOf_wordBytes, wordOf_wordBytes]
  rfl

end Entry

section Session

variable {σ : Type*} {d : SfpDriver σ} {Usable : σ → Prop} {Holds : σ → SfpTable → Prop}

theorem runSfp_append (node : SfpNode σ) (cs cs' : List Typed) :
    runSfp d node (cs ++ cs') = (runSfp d node cs).bind fun node => runSfp d node cs' := by
  induction cs generalizing node with
  | nil => rfl
  | cons c cs ih =>
      rw [List.cons_append, runSfp, runSfp]
      cases cmdSfp d node c with
      | none => rfl
      | some node => exact ih node

/-- A row of `sfp add`. -/
theorem runSfp_adds (laws : SfpLaws d Usable Holds) (entries : List Entry) {node : SfpNode σ}
    {t : SfpTable} (h : Holds node.eeprom t) :
    ∃ node', runSfp d node (entries.map Entry.typed) = some node' ∧ Kept node node' ∧
      Holds node'.eeprom ((entries.map Entry.record).foldl SfpTable.add t) := by
  induction entries generalizing node t with
  | nil => exact ⟨node, rfl, ⟨rfl, rfl, rfl, rfl, rfl, rfl⟩, h⟩
  | cons e entries ih =>
      obtain ⟨hkept, hholds⟩ := SfpNode.add_spec laws h e.sfp e.name e.dTx e.dRx e.alpha
      obtain ⟨node', hrun, hkept', hholds'⟩ := ih hholds
      exact ⟨node', hrun, hkept.trans hkept', hholds'⟩

theorem records_added (entries : List Entry) :
    ((entries.map Entry.record).foldl SfpTable.add SfpTable.empty).records =
      (entries.take sfpsMax).map fun e => e.record.withChksum := by
  rw [SfpTable.records_foldl_add, List.map_map, List.map_take]
  rfl

/-- The table of the records that were added finds the first entry with the part number. -/
theorem find_records {entries : List Entry} (hnames : ∀ e ∈ entries, IsString e.name)
    {pn rest : List UInt8} (hpn : pn.length = 16) (sfp : SfpInfo) :
    ((entries.map Entry.record).foldl SfpTable.add SfpTable.empty).find
        (withPn sfp (strncpyPn (pn ++ rest))) =
      ((entries.take sfpsMax).find? fun e => decide ((padded e.name).chars = pn)).map fun e =>
        e.record.withChksum := by
  unfold SfpTable.find
  rw [records_added, List.find?_map]
  congr 1
  refine List.find?_congr fun e he => ?_
  exact decide_eq_decide.mpr (samePn_iff _ _ _ _ (hnames e (List.mem_of_mem_take he)) hpn e.sfp)

/-- A cleared database, the entries, and then a transceiver that is detected and looked up. -/
def session (entries : List Entry) (sfp dbsfp : SfpInfo) : List Typed :=
  ⟨[ascii "erase"], sfp, dbsfp⟩ :: entries.map Entry.typed ++
    [⟨[ascii "detect"], sfp, dbsfp⟩, ⟨[ascii "match"], sfp, dbsfp⟩]

/-- The calibration after the session: what was typed for the transceiver, in the first of the
entries that have room. -/
def learned (entries : List Entry) (page : Nat → UInt8)
    (before : BitVec 32 × BitVec 32 × BitVec 32) : BitVec 32 × BitVec 32 × BitVec 32 :=
  match (entries.take sfpsMax).find? fun e =>
      decide ((padded e.name).chars = Sfp.partNumber page) with
  | some e => e.calibration
  | none => before

/-- A part number that starts with a zero is the padded name of no entry. -/
theorem learned_of_zero {entries : List Entry} (hnames : ∀ e ∈ entries, IsString e.name)
    {page : Nat → UInt8} (hzero : (Sfp.partNumber page).head? = some 0)
    (before : BitVec 32 × BitVec 32 × BitVec 32) : learned entries page before = before := by
  have hnone : (entries.take sfpsMax).find? (fun e =>
      decide ((padded e.name).chars = Sfp.partNumber page)) = none := by
    rw [List.find?_eq_none]
    intro e he hsame
    rw [← of_decide_eq_true hsame] at hzero
    exact padded_isString (hnames e (List.mem_of_mem_take he)) 0 (List.mem_of_mem_head? hzero) rfl
  rw [learned, hnone]

/-- The line that `sfp show` prints for an entry. -/
def Entry.line (e : Entry) (i : Nat) : List UInt8 :=
  mprintf "%d: PN:" [int8Arg ((i : Int) + 1)] ++
    (padded e.name).chars.flatMap (fun c => mprintf "%c" [int8Arg c.toNat]) ++
    mprintf " dTx: %d, dRx: %d, alpha: %d\n"
      [intArg (atoi e.dTx), intArg (atoi e.dRx), intArg (atoi e.alpha)]

theorem Entry.recordLine_eq (e : Entry) (i : Nat) :
    SfpNode.recordLine i e.record.withChksum = e.line i := by
  have hcal := e.calibration_record
  obtain ⟨hdTx, hrest⟩ := Prod.mk.inj hcal
  obtain ⟨hdRx, halpha⟩ := Prod.mk.inj hrest
  have hpn : e.record.withChksum.pn = (padded e.name).chars := by
    rw [pn_withChksum, Entry.record, pn_fields]
  rw [SfpNode.recordLine, Entry.line, hpn, hdTx, hdRx, halpha]

theorem session_learns (laws : SfpLaws d Usable Holds) {node : SfpNode σ}
    (h : Usable node.eeprom) (hdet : node.det = false) {page : Nat → UInt8}
    (hserves : Sfp.Serves node.bus page) {entries : List Entry}
    (hnames : ∀ e ∈ entries, IsString e.name) (sfp dbsfp : SfpInfo) :
    ∃ node', runSfp d node (session entries sfp dbsfp) = some node' ∧
      node'.calibration = learned entries page node.calibration := by
  obtain ⟨hkept₁, hempty⟩ := SfpNode.erase_spec laws h
  obtain ⟨node₂, hadds, hkept₂, hholds⟩ := runSfp_adds laws entries hempty
  have hkept := hkept₁.trans hkept₂
  obtain ⟨heeprom, hpn, hcal⟩ := SfpNode.detect_spec (hkept.det.trans hdet)
    (show Sfp.Serves node₂.bus page by rw [hkept.bus]; exact hserves)
  rw [hkept.calibration] at hcal
  rw [← heeprom] at hholds
  have hlength : (Sfp.partNumber page).length = 16 := by
    rw [Sfp.partNumber, List.length_map, List.length_range]
  have hhead : node₂.detect.pn.head? = (Sfp.partNumber page).head? := by
    rw [hpn]
    rfl
  have hrun : runSfp d node (session entries sfp dbsfp) = node₂.detect.matchSfp d sfp dbsfp := by
    have hstart : runSfp d node (session entries sfp dbsfp) = runSfp d (node.erase d)
        (entries.map Entry.typed ++
          [⟨[ascii "detect"], sfp, dbsfp⟩, ⟨[ascii "match"], sfp, dbsfp⟩]) := rfl
    rw [hstart, runSfp_append, hadds]
    show (match node₂.detect.matchSfp d sfp dbsfp with
      | none => none
      | some node => runSfp d node []) = _
    cases node₂.detect.matchSfp d sfp dbsfp with
    | none => rfl
    | some node => rfl
  rw [hrun]
  by_cases hzero : (Sfp.partNumber page).head? = some 0
  · -- `sfp match` takes the array for empty
    unfold SfpNode.matchSfp
    rw [hhead, if_pos hzero, learned_of_zero hnames hzero]
    exact ⟨_, rfl, hcal⟩
  · obtain ⟨node', hmatch, -, hresult⟩ :=
      SfpNode.matchSfp_spec laws hholds (by rw [hhead]; exact hzero) sfp dbsfp
    rw [hpn, find_records hnames hlength] at hresult
    refine ⟨node', hmatch, ?_⟩
    unfold learned
    cases hfind : (entries.take sfpsMax).find? fun e =>
        decide ((padded e.name).chars = Sfp.partNumber page) with
    | none =>
        rw [hfind] at hresult
        exact hresult.trans hcal
    | some e =>
        rw [hfind] at hresult
        exact hresult.trans e.calibration_record

/-- What `sfp show` prints after the database was cleared and filled. -/
def listing (entries : List Entry) : List UInt8 :=
  if entries = [] then mprintf "SFP database empty...\n" []
  else (entries.take sfpsMax).zipIdx.flatMap fun r => r.1.line r.2

theorem session_shows (laws : SfpLaws d Usable Holds) {node : SfpNode σ}
    (h : Usable node.eeprom) (entries : List Entry) (sfp dbsfp : SfpInfo) :
    ∃ node₁ node₂, runSfp d node (⟨[ascii "erase"], sfp, dbsfp⟩ :: entries.map Entry.typed) =
        some node₁ ∧
      runSfp d node₁ [⟨[ascii "show"], sfp, dbsfp⟩] = some node₂ ∧
      node₂.out = node₁.out ++ listing entries := by
  obtain ⟨-, hempty⟩ := SfpNode.erase_spec laws h
  obtain ⟨node₁, hadds, -, hholds⟩ := runSfp_adds laws entries hempty
  refine ⟨node₁, _, hadds, rfl, ?_⟩
  rw [(SfpNode.showAll_spec laws hholds sfp).1, records_added]
  unfold listing
  cases entries with
  | nil => rfl
  | cons e entries =>
      rw [if_neg (List.cons_ne_nil _ _), if_neg (by simp [sfpsMax]), List.zipIdx_map,
        List.flatMap_map]
      congr 1
      refine List.flatMap_congr fun r _ => ?_
      exact r.1.recordLine_eq r.2

/-- Blank storage, a transceiver on the bus, and some calibration. -/
def blankNode {σ : Type*} (eeprom : σ) (page : Nat → UInt8) : SfpNode σ where
  eeprom := eeprom
  bus := Sfp.servingBus page
  det := false
  pn := List.replicate 17 0
  pn_size := rfl
  sfpDeltaTx := 1
  sfpDeltaRx := 2
  sfpAlpha := 3

/-- `sfp add A 5 -6 7` -/
def entryA : Entry := ⟨ascii "A", ascii "5", ascii "-6", ascii "7", SfpInfo.zero, SfpInfo.zero⟩

/-- A description whose part number is the letter `A` and spaces. -/
def pageA (n : Nat) : UInt8 := if n = 40 then 65 else 32

def sdbNode : SfpNode Sdb.Eeprom := blankNode (sfpFileOf fun _ => 0xff) pageA

def i2cNode : SfpNode I2c.Eeprom := blankNode { mem := fun _ => 0xff } pageA

theorem sdbNode_sound : Sdb.SoundDb sdbNode.eeprom 0 117 fun _ => 0xff :=
  ⟨rfl, Nat.le_refl _, nofun, rfl⟩

/-- With both drivers, on storage whose accesses do not fail: `sfp show` prints the first four of
the entries that were added, in their order, with the padded name and the numbers as typed. -/
theorem sfp_show_lists {sdb : SfpNode Sdb.Eeprom} {base len : Nat} {m : Nat → UInt8}
    (hsdb : Sdb.SoundDb sdb.eeprom base len m) {i2c : SfpNode I2c.Eeprom}
    (hi2c : i2c.eeprom.hasEeprom = true) (entries : List Entry) (sfp dbsfp : SfpInfo) :
    (∃ node₁ node₂, runSfp Sdb.sfpDriver sdb
          (⟨[ascii "erase"], sfp, dbsfp⟩ :: entries.map Entry.typed) = some node₁ ∧
        runSfp Sdb.sfpDriver node₁ [⟨[ascii "show"], sfp, dbsfp⟩] = some node₂ ∧
        node₂.out = node₁.out ++ listing entries) ∧
      ∃ node₁ node₂, runSfp I2c.sfpDriver i2c
          (⟨[ascii "erase"], sfp, dbsfp⟩ :: entries.map Entry.typed) = some node₁ ∧
        runSfp I2c.sfpDriver node₁ [⟨[ascii "show"], sfp, dbsfp⟩] = some node₂ ∧
        node₂.out = node₁.out ++ listing entries :=
  ⟨session_shows Sdb.sfpLaws ⟨base, len, m, hsdb⟩ entries sfp dbsfp,
    session_shows I2c.sfpLaws hi2c entries sfp dbsfp⟩

theorem sfp_show_lists_one :
    (∃ node₁ node₂, runSfp Sdb.sfpDriver sdbNode
          (⟨[ascii "erase"], SfpInfo.zero, SfpInfo.zero⟩ :: [entryA].map Entry.typed) = some node₁ ∧
        runSfp Sdb.sfpDriver node₁ [⟨[ascii "show"], SfpInfo.zero, SfpInfo.zero⟩] = some node₂ ∧
        node₂.out = node₁.out ++ ascii "1: PN:A                dTx: 5, dRx: -6, alpha: 7\n") ∧
      ∃ node₁ node₂, runSfp I2c.sfpDriver i2cNode
          (⟨[ascii "erase"], SfpInfo.zero, SfpInfo.zero⟩ :: [entryA].map Entry.typed) = some node₁ ∧
        runSfp I2c.sfpDriver node₁ [⟨[ascii "show"], SfpInfo.zero, SfpInfo.zero⟩] = some node₂ ∧
        node₂.out = node₁.out ++ ascii "1: PN:A                dTx: 5, dRx: -6, alpha: 7\n" := by
  have hpresent : i2cNode.eeprom.hasEeprom = true := rfl
  have hlisting : listing [entryA] =
      ascii "1: PN:A                dTx: 5, dRx: -6, alpha: 7\n" := by decide
  rw [← hlisting]
  exact sfp_show_lists sdbNode_sound hpresent [entryA] SfpInfo.zero SfpInfo.zero

/-- With both drivers, on storage whose accesses do not fail: after the database was cleared and
filled, a transceiver that is detected and looked up gets the calibration that was typed for its
part number in the first of the four entries that have room, or keeps the one there was. -/
theorem sfp_learn_match {sdb : SfpNode Sdb.Eeprom} {base len : Nat} {m : Nat → UInt8}
    (hsdb : Sdb.SoundDb sdb.eeprom base len m) {i2c : SfpNode I2c.Eeprom}
    (hi2c : i2c.eeprom.hasEeprom = true) (hdet : sdb.det = false ∧ i2c.det = false)
    {page : Nat → UInt8} (hserves : Sfp.Serves sdb.bus page ∧ Sfp.Serves i2c.bus page)
    {entries : List Entry} (hnames : ∀ e ∈ entries, IsString e.name) (sfp dbsfp : SfpInfo) :
    (∃ node', runSfp Sdb.sfpDriver sdb (session entries sfp dbsfp) = some node' ∧
        node'.calibration = learned entries page sdb.calibration) ∧
      ∃ node', runSfp I2c.sfpDriver i2c (session entries sfp dbsfp) = some node' ∧
        node'.calibration = learned entries page i2c.calibration :=
  ⟨session_learns Sdb.sfpLaws ⟨base, len, m, hsdb⟩ hdet.1 hserves.1 hnames sfp dbsfp,
    session_learns I2c.sfpLaws hi2c hdet.2 hserves.2 hnames sfp dbsfp⟩

theorem sfp_learn_match_one :
    (∃ node', runSfp Sdb.sfpDriver sdbNode (session [entryA] SfpInfo.zero SfpInfo.zero) =
          some node' ∧ node'.calibration = (5, -6, 7)) ∧
      ∃ node', runSfp I2c.sfpDriver i2cNode (session [entryA] SfpInfo.zero SfpInfo.zero) =
          some node' ∧ node'.calibration = (5, -6, 7) := by
  have hnames : ∀ e ∈ [entryA], IsString e.name := by
    intro e he c hc
    rw [List.mem_singleton.mp he] at hc
    obtain rfl : c = 65 := List.mem_singleton.mp hc
    decide
  have hserves : Sfp.Serves sdbNode.bus pageA ∧ Sfp.Serves i2cNode.bus pageA :=
    ⟨Sfp.servingBus_serves pageA, Sfp.servingBus_serves pageA⟩
  have hpresent : i2cNode.eeprom.hasEeprom = true := rfl
  have hlearned : learned [entryA] pageA (1, 2, 3) = (5, -6, 7) := by decide
  rw [← hlearned]
  exact sfp_learn_match sdbNode_sound hpresent ⟨rfl, rfl⟩ hserves hnames SfpInfo.zero SfpInfo.zero

end Session

end Shell
end WrpcSw
