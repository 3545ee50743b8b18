import WrpcSw.Storage.SfpMatch

/-!
# The SFP database as a table (`dev/sdb-eeprom.c`, `dev/eeprom.c`)

On storage whose accesses succeed, both drivers keep the same table: at most `SFPS_MAX` records,
in the order in which they were added, each with its checksum.

* `SfpTable` — the table, and what an erase and an add do to it.
* `SfpLaws` — a driver keeps a table: its calls return and leave what the table says.
* `SfpLaws.matchSfp` — the search then returns the first record of the table that has the part
  number.
* `Sdb.sfpLaws`, `I2c.sfpLaws` — both drivers keep one.
-/

namespace WrpcSw
namespace Storage

open Memory CInt

/-! ## The table -/

/-- At most `SFPS_MAX` records, each with its checksum. -/
structure SfpTable where
  records : List SfpInfo
  fits : records.length ≤ sfpsMax
  intact : ∀ r ∈ records, r.checksum = r.chksum

namespace SfpTable

def empty : SfpTable := ⟨[], Nat.zero_le _, nofun⟩

variable (t : SfpTable) (sfp : SfpInfo)

/-- A full table stays as it is. -/
def add : SfpTable :=
  if h : t.records.length < sfpsMax then
    { records := t.records ++ [sfp.withChksum]
      fits := by
        rw [List.length_append, List.length_singleton]
        exact h
      intact := by
        intro r hr
        rcases List.mem_append.mp hr with hr | hr
        · exact t.intact r hr
        · rw [List.mem_singleton.mp hr]
          exact sfp.checksum_withChksum }
  else t

/-- What an add returns. -/
def addReturn : Int :=
  if t.records.length < sfpsMax then (t.records.length + 1 : Nat) else eeRetDbfull

/-- The first record with the part number of `sfp`. -/
def find : Option SfpInfo := t.records.find? fun r => decide (RecordReads.SamePn r sfp)

theorem records_add : (t.add sfp).records = (t.records ++ [sfp.withChksum]).take sfpsMax := by
  unfold add
  split_ifs with h
  · rw [List.take_of_length_le]
    rw [List.length_append, List.length_singleton]
    exact h
  · have hfull : t.records.length = sfpsMax := Nat.le_antisymm t.fits (Nat.not_lt.mp h)
    rw [← hfull, List.take_left]

/-- A cut before an append makes no difference to a cut behind it. -/
theorem take_take_append {α : Type*} (n : Nat) (l l' : List α) :
    (l.take n ++ l').take n = (l ++ l').take n := by
  have hleft : n - min n l.length = n - l.length := by omega
  rw [List.take_append, List.take_append, List.take_take, Nat.min_self, List.length_take, hleft]

/-- The table has the first records that were added. -/
theorem records_foldl_add (adds : List SfpInfo) :
    (adds.foldl add t).records = (t.records ++ adds.map SfpInfo.withChksum).take sfpsMax := by
  induction adds generalizing t with
  | nil =>
      rw [List.foldl_nil, List.map_nil, List.append_nil, List.take_of_length_le t.fits]
  | cons sfp adds ih =>
      rw [List.foldl_cons, ih, records_add, take_take_append, List.map_cons, List.append_assoc]
      rfl

end SfpTable

/-! ## Drivers -/

/-- The functions of a driver that the commands call. -/
structure SfpDriver (σ : Type*) where
  erase : σ → σ × Int
  getSfp : σ → SfpInfo → Bool → Nat → σ × Int × SfpInfo

variable {σ : Type*}

/-- `eeprom_match_sfp`; it goes on forever if it is not done after 256 calls. -/
def SfpDriver.matchSfp (d : SfpDriver σ) (s : σ) (dbsfp sfp : SfpInfo) :
    Option (σ × Int × SfpInfo) :=
  eepromMatchSfp (fun s buf pos => d.getSfp s buf false pos) 256 s dbsfp sfp

/-- The driver keeps a table.  `Usable` storage has room for one, `Holds` is storage with one. -/
structure SfpLaws (d : SfpDriver σ) (Usable : σ → Prop) (Holds : σ → SfpTable → Prop) : Prop where
  erase : ∀ {s}, Usable s → ∃ s', d.erase s = (s', 0) ∧ Holds s' SfpTable.empty
  add : ∀ {s t}, Holds s t → ∀ sfp, ∃ s' sfp',
    d.getSfp s sfp true 0 = (s', t.addReturn, sfp') ∧ Holds s' (t.add sfp)
  vacant : ∀ {s t}, Holds s t → t.records = [] → ∀ buf, ∃ s',
    d.getSfp s buf false 0 = (s', 0, buf) ∧ Holds s' t
  read : ∀ {s t}, Holds s t → ∀ {pos} (h : pos < t.records.length) (buf), ∃ s' ret,
    d.getSfp s buf false pos = (s', ret, t.records[pos]) ∧ Holds s' t ∧
      (pos = 0 → ret = t.records.length)

namespace SfpLaws

variable {d : SfpDriver σ} {Usable : σ → Prop} {Holds : σ → SfpTable → Prop} {t : SfpTable}

/-- What the search returns for the record that it finds. -/
def found (sfp : SfpInfo) : Option SfpInfo → Int × SfpInfo
  | some r => (1, sfp.withCalibration r)
  | none => (0, sfp)

variable (sfp : SfpInfo)

/-- The rounds from a later position on. -/
theorem matchLoop_later (laws : SfpLaws d Usable Holds) (n : Nat) {pos : Nat} (hpos : 0 < pos)
    (hn : pos + n = t.records.length) {s : σ} (h : Holds s t) (buf : SfpInfo) :
    ∃ s', matchLoop (fun s buf pos => d.getSfp s buf false pos) sfp n s buf t.records.length pos =
        some (s', found sfp ((t.records.drop pos).find? fun r =>
          decide (RecordReads.SamePn r sfp))) ∧ Holds s' t := by
  have hmax : t.records.length ≤ 4 := t.fits
  induction n generalizing pos s buf with
  | zero =>
      have hend : ¬ (pos : Int) < (t.records.length : Int) := by omega
      rw [matchLoop, if_neg hend, List.drop_of_length_le (by omega)]
      exact ⟨s, rfl, h⟩
  | succ n ih =>
      have hlt : pos < t.records.length := by omega
      obtain ⟨s', ret, hread, hholds, -⟩ := laws.read h hlt buf
      have hindex : ((pos : Int) % 256).toNat = pos := by omega
      have hnext : i8 ((pos : Int) + 1) = (pos + 1 : Nat) := by
        unfold i8
        omega
      have hlater : ¬ (pos : Int) = 0 := by omega
      rw [matchLoop, if_pos (by omega)]
      simp only [hindex, hread, hlater, false_and, if_false, hnext]
      rw [List.drop_eq_getElem_cons hlt, List.find?_cons]
      by_cases hhit : strncmp 16 t.records[pos].pn sfp.pn = 0
      · have hsame : decide (RecordReads.SamePn t.records[pos] sfp) = true := decide_eq_true hhit
        rw [if_pos hhit, hsame]
        exact ⟨s', rfl, hholds⟩
      · have hother : decide (RecordReads.SamePn t.records[pos] sfp) = false :=
          decide_eq_false hhit
        rw [if_neg hhit, hother]
        exact ih (Nat.succ_pos pos) (by omega) hholds _

/-- The search finds the first record of the table that has the part number, and leaves the table
as it is. -/
theorem matchSfp (laws : SfpLaws d Usable Holds) {s : σ} (h : Holds s t) (dbsfp : SfpInfo) :
    ∃ s', d.matchSfp s dbsfp sfp = some (s', found sfp (t.find sfp)) ∧ Holds s' t := by
  have hmax : t.records.length ≤ 4 := t.fits
  unfold SfpDriver.matchSfp eepromMatchSfp
  rw [show 256 = 255 + 1 from rfl, matchLoop, if_pos Int.zero_lt_one]
  rw [show ((0 : Int) % 256).toNat = 0 from rfl]
  by_cases hnil : t.records = []
  · obtain ⟨s', hnone, hholds⟩ := laws.vacant h hnil dbsfp
    have hfind : t.find sfp = none := by
      rw [SfpTable.find, hnil]
      rfl
    rw [hnone, hfind]
    exact ⟨s', rfl, hholds⟩
  · have hlt : 0 < t.records.length := List.length_pos_iff.mpr hnil
    obtain ⟨s', ret, hread, hholds, hret⟩ := laws.read h hlt dbsfp
    have hcount : i8 (ret : Int) % 256 = t.records.length := by
      rw [hret rfl]
      unfold i8
      omega
    have hbound : ¬ ((t.records.length : Int) = 0 ∨ (t.records.length : Int) = 0xff) := by omega
    have hnonneg : ¬ (t.records.length : Int) < 0 := by omega
    simp only [hread, hcount, if_true, true_and, hbound, hnonneg, if_false]
    have hcons : t.records = t.records[0] :: t.records.drop 1 := by
      rw [← List.drop_eq_getElem_cons hlt, List.drop_zero]
    have hfind : t.find sfp = (t.records[0] :: t.records.drop 1).find? fun r =>
        decide (RecordReads.SamePn r sfp) := congrArg (List.find? _) hcons
    rw [hfind, List.find?_cons]
    by_cases hhit : strncmp 16 t.records[0].pn sfp.pn = 0
    · have hsame : decide (RecordReads.SamePn t.records[0] sfp) = true := decide_eq_true hhit
      rw [if_pos hhit, hsame]
      exact ⟨s', rfl, hholds⟩
    · have hother : decide (RecordReads.SamePn t.records[0] sfp) = false := decide_eq_false hhit
      obtain ⟨s'', hloop, hholds'⟩ := laws.matchLoop_later sfp (t.records.length - 1)
        Nat.zero_lt_one (by omega) hholds t.records[0]
      rw [if_neg hhit, hother]
      exact ⟨s'', matchLoop_mono _ sfp (by omega) hloop, hholds'⟩

end SfpLaws

end Storage
end WrpcSw
