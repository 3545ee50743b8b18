import WrpcSw.Storage.SdbSound
import WrpcSw.Storage.SfpMatchDrivers
import WrpcSw.Storage.SfpTable

/-!
# The table of both drivers

A memory shows a table if its visible records are those of the table.  On storage whose accesses
succeed, the calls of both drivers keep it so.

* `I2c.sfpLaws`, `Sdb.sfpLaws` — the drivers keep a table.
-/

namespace WrpcSw
namespace Storage

open Memory

/-! ## The memory -/

section Memory

variable {m : Nat → UInt8} {base : Nat} {t : SfpTable}

theorem count_eq (h : Sdb.visible m base = t.records) : (m base).toNat = t.records.length := by
  rw [← h, Sdb.length_visible]

theorem recordAt_eq (h : Sdb.visible m base = t.records) {pos : Nat}
    (hpos : pos < t.records.length) : Sdb.recordAt m base pos = t.records[pos] := by
  have hin : pos < (Sdb.visible m base).length := by rwa [h]
  have hget : t.records[pos] = (Sdb.visible m base)[pos] := by
    simp only [h]
  rw [hget]
  simp [Sdb.visible]

theorem visible_erased (m : Nat → UInt8) (base : Nat) :
    Sdb.visible (writeAt m base [0]) base = SfpTable.empty.records := by
  rw [Sdb.visible, writeAt_singleton]
  rfl

/-- The memory after an add. -/
theorem visible_added (h : Sdb.visible m base = t.records) (hroom : t.records.length < sfpsMax)
    (sfp : SfpInfo) :
    Sdb.visible (writeAt (writeAt m (Sdb.addPlace m base) sfp.withChksum.bytes) base
      [m base + 1]) base = (t.add sfp).records := by
  rw [Sdb.visible_counted (by rwa [count_eq h]) sfp, h, SfpTable.add, dif_pos hroom]

theorem succ_count (h : Sdb.visible m base = t.records) (hroom : t.records.length < sfpsMax) :
    (((m base + 1).toNat : Nat) : Int) = t.addReturn := by
  have hlt : t.records.length < 4 := hroom
  have hcount := count_eq h
  rw [SfpTable.addReturn, if_pos hroom, UInt8.toNat_add, UInt8.toNat_one,
    Nat.mod_eq_of_lt (by omega), hcount]

end Memory

/-! ## The fixed addresses -/

namespace I2c

/-- There is an EEPROM, and it shows the table. -/
structure HoldsTable (s : Eeprom) (t : SfpTable) : Prop where
  present : s.hasEeprom = true
  shows : Sdb.visible s.mem eeBaseSfp = t.records

def sfpDriver : SfpDriver Eeprom := ⟨eepromSfpdbErase, eepromGetSfp⟩

/-- The part of an add that writes. -/
theorem addSfpRecord_eq {s : Eeprom} (h : s.hasEeprom = true) (hroom : s.sfpcount.toNat < sfpsMax)
    (sfp : SfpInfo) :
    addSfpRecord s sfp =
      ({ s with
          mem := writeAt (writeAt s.mem (eeBaseSfp + 1 + s.sfpcount.toNat * sfpInfoSize)
            sfp.withChksum.bytes) eeBaseSfp [s.sfpcount + 1]
          sfpcount := s.sfpcount + 1 }, ((s.sfpcount + 1).toNat : Int), sfp.withChksum) := by
  have hin : eeBaseSfp + 1 + s.sfpcount.toNat * sfpInfoSize + sfp.withChksum.bytes.length ≤
      65536 := by
    have hlt : s.sfpcount.toNat < 4 := hroom
    rw [SfpInfo.length_bytes]
    unfold eeBaseSfp sfpInfoSize
    omega
  have hcount : ∀ c : UInt8, eeBaseSfp + [c].length ≤ 65536 := fun c => by
    unfold eeBaseSfp
    rw [List.length_singleton]
    omega
  have hrecord := write_eq h _ _ hin
  simp only [addSfpRecord, hrecord]
  have hlast := write_eq (s := { s with
      mem := writeAt s.mem (eeBaseSfp + 1 + s.sfpcount.toNat * sfpInfoSize) sfp.withChksum.bytes
      sfpcount := s.sfpcount + 1 }) h eeBaseSfp [s.sfpcount + 1] (hcount _)
  simp only [hlast]

section Table

variable {s : Eeprom} {t : SfpTable} (h : HoldsTable s t)

include h

theorem HoldsTable.of_mem {s' : Eeprom} (hmem : s'.mem = s.mem)
    (hpresent : s'.hasEeprom = s.hasEeprom) : HoldsTable s' t :=
  ⟨hpresent.trans h.present, by rw [hmem]; exact h.shows⟩

/-- The count as the calls read it. -/
theorem HoldsTable.readSfpcount :
    ∃ s', readSfpcount s = (s', true) ∧ HoldsTable s' t ∧ s'.mem = s.mem ∧
      s'.sfpcount = s.mem eeBaseSfp := by
  have hin : eeBaseSfp + 1 ≤ 65536 := by
    unfold eeBaseSfp
    omega
  unfold I2c.readSfpcount
  rw [read_eq h.present eeBaseSfp 1 hin]
  exact ⟨_, rfl, h.of_mem rfl rfl, rfl, rfl⟩

theorem HoldsTable.add (sfp : SfpInfo) :
    ∃ s' sfp', eepromGetSfp s sfp true 0 = (s', t.addReturn, sfp') ∧
      HoldsTable s' (t.add sfp) := by
  obtain ⟨s₁, hread, h₁, hmem, hcount⟩ := h.readSfpcount
  have hlen := count_eq h.shows
  unfold eepromGetSfp
  rw [if_neg (by decide), if_pos rfl, hread]
  simp only [Bool.not_true, Bool.false_eq_true, if_false, true_and, hcount, hlen]
  by_cases hfull : t.records.length = sfpsMax
  · have hnot : ¬ t.records.length < sfpsMax := by omega
    rw [if_pos hfull, SfpTable.addReturn, if_neg hnot, SfpTable.add, dif_neg hnot]
    exact ⟨s₁, sfp, rfl, h₁⟩
  · have hroom : t.records.length < sfpsMax := lt_of_le_of_ne t.fits hfull
    have hlt : t.records.length < 4 := hroom
    have hplace : eeBaseSfp + 1 + s₁.sfpcount.toNat * sfpInfoSize =
        Sdb.addPlace s.mem eeBaseSfp := by
      rw [hcount]
      rfl
    rw [if_neg hfull]
    simp only [if_true]
    rw [addSfpRecord_eq h₁.present (by rw [hcount, hlen]; exact hroom) sfp, hplace, hcount, hmem]
    exact ⟨_, _, congrArg₂ Prod.mk rfl (congrArg₂ Prod.mk (succ_count h.shows hroom) rfl),
      h₁.present, visible_added h.shows hroom sfp⟩

theorem HoldsTable.vacant (hnil : t.records = []) (buf : SfpInfo) :
    ∃ s', eepromGetSfp s buf false 0 = (s', 0, buf) ∧ HoldsTable s' t := by
  obtain ⟨s', hmem, hpresent, -, hget⟩ := getSfp_first h.present
  have hzero : sfpCount s = 0 := by
    have hlen := count_eq h.shows
    rw [hnil] at hlen
    exact UInt8.toNat_inj.mp hlen
  have hcall := hget buf
  rw [if_pos hzero] at hcall
  exact ⟨s', hcall, h.of_mem hmem hpresent⟩

theorem HoldsTable.read {pos : Nat} (hpos : pos < t.records.length) (buf : SfpInfo) :
    ∃ s' ret, eepromGetSfp s buf false pos = (s', ret, t.records[pos]) ∧ HoldsTable s' t ∧
      (pos = 0 → ret = t.records.length) := by
  have hmax : pos < sfpsMax := lt_of_lt_of_le hpos t.fits
  have hrecord := recordAt_eq h.shows hpos
  have hintact := t.intact t.records[pos] (List.getElem_mem hpos)
  -- only the first call reads the count before its record
  by_cases hzero : pos = 0
  · subst hzero
    obtain ⟨s₁, hmem, hpresent, hcount, hget⟩ := getSfp_first h.present
    have hne : sfpCount s ≠ 0 := by
      intro hzero
      have hlen := count_eq h.shows
      rw [show s.mem eeBaseSfp = 0 from hzero] at hlen
      exact absurd hpos (by rw [← hlen]; exact Nat.not_lt_zero 0)
    obtain ⟨s', hmem', hpresent', hread⟩ :=
      @readSfpRecord_eq s₁ 0 (hpresent.trans h.present) hmax
    have hcall := hget buf
    rw [if_neg hne, hread buf, hmem, hrecord, if_pos hintact] at hcall
    refine ⟨s', _, hcall, (h.of_mem hmem hpresent).of_mem hmem' hpresent', fun _ => ?_⟩
    rw [hcount, sfpCount, count_eq h.shows]
  · obtain ⟨s', hmem', hpresent', hread⟩ := readSfpRecord_eq h.present hmax
    have hcall : eepromGetSfp s buf false pos = readSfpRecord s buf pos :=
      getSfp_later buf hzero hmax
    rw [hread buf, hrecord] at hcall
    exact ⟨s', _, hcall, h.of_mem hmem' hpresent', fun hpos0 => absurd hpos0 hzero⟩

end Table

theorem sfpLaws : SfpLaws sfpDriver (fun s => s.hasEeprom = true) HoldsTable where
  erase := by
    intro s hpresent
    have hin : eeBaseSfp + [(0 : UInt8)].length ≤ 65536 := by
      unfold eeBaseSfp
      rw [List.length_singleton]
      omega
    have herase : eepromSfpdbErase s = ({ s with mem := writeAt s.mem eeBaseSfp [0] }, 0) := by
      unfold eepromSfpdbErase
      rw [write_eq hpresent eeBaseSfp [0] hin]
      rfl
    exact ⟨_, herase, hpresent, visible_erased s.mem eeBaseSfp⟩
  add h sfp := h.add sfp
  vacant h hnil buf := h.vacant hnil buf
  read h _ hpos buf := h.read hpos buf

end I2c

/-! ## The files -/

namespace Sdb

/-- The database has its file, and no access fails. -/
abbrev SoundDb (s : Eeprom) (base len : Nat) (m : Nat → UInt8) : Prop :=
  Sound sdbDevSfp (1 + sfpsMax * sfpInfoSize) s base len m

/-- The file shows the table. -/
def HoldsTable (s : Eeprom) (t : SfpTable) : Prop :=
  ∃ base len m, SoundDb s base len m ∧ visible m base = t.records

def sfpDriver : SfpDriver Eeprom := ⟨eepromSfpdbErase, eepromGetSfp⟩

section Sound

variable {s : Eeprom} {base len : Nat} {m : Nat → UInt8}

/-- The count as the calls read it. -/
theorem Sound.readSfpcount (h : SoundDb s base len m) (hopen : s.vol.Open base len) :
    ∃ s', readSfpcount s = (s', true) ∧ s'.vol.Open base len ∧ SoundDb s' base len m ∧
      s'.sfpcount = m base := by
  have hroom := h.room
  obtain ⟨w, hread, hw, hsound⟩ := h.fread hopen 0 1 (by omega)
  unfold Sdb.readSfpcount
  rw [hread]
  exact ⟨_, rfl, hw, hsound.congr rfl rfl, by rw [readAt_one]; rfl⟩

/-- The part of an add that writes. -/
theorem Sound.addSfpRecord (h : SoundDb s base len m) (hopen : s.vol.Open base len)
    (hcount : s.sfpcount = m base) (hroom : (m base).toNat < sfpsMax) (sfp : SfpInfo) :
    ∃ s', addSfpRecord s sfp = (s', ((m base + 1).toNat : Int), sfp.withChksum) ∧
      SoundDb s' base len (writeAt (writeAt m (addPlace m base) sfp.withChksum.bytes) base
        [m base + 1]) := by
  have hlen := h.room
  have hplace : 1 + s.sfpcount.toNat * sfpInfoSize + sfp.withChksum.bytes.length ≤ len := by
    have hmul := Nat.mul_le_mul_right sfpInfoSize (Nat.succ_le_of_lt hroom)
    rw [Nat.succ_mul] at hmul
    rw [hcount, SfpInfo.length_bytes]
    omega
  have haddr : base + (1 + s.sfpcount.toNat * sfpInfoSize) = addPlace m base := by
    rw [addPlace, hcount]
    omega
  obtain ⟨w, hrecord, hw, hsound⟩ := h.fwrite hopen _ _ hplace
  rw [haddr] at hsound
  have hnext : SoundDb { s with vol := w, sfpcount := s.sfpcount + 1 } base len _ :=
    hsound.congr rfl rfl
  obtain ⟨w', hlast, -, hsound'⟩ := hnext.fwrite hw 0 [s.sfpcount + 1]
    (by rw [List.length_singleton]; omega)
  simp only [Sdb.addSfpRecord, hrecord, hlast, Bool.not_true, Bool.false_eq_true, if_false]
  rw [hcount] at hsound' ⊢
  exact ⟨_, rfl, hsound'.congr rfl rfl⟩

/-- The part of a read behind the count. -/
theorem Sound.readSfpRecord (h : SoundDb s base len m) (hopen : s.vol.Open base len) {pos : Nat}
    (hpos : pos < sfpsMax)
    (hsum : (recordAt m base pos).checksum = (recordAt m base pos).chksum) (buf : SfpInfo) :
    ∃ s', readSfpRecord s buf pos = (s', (s.sfpcount.toNat : Int), recordAt m base pos) ∧
      SoundDb s' base len m := by
  have hin : 1 + pos * sfpInfoSize + sfpInfoSize ≤ len := by
    have hmul := Nat.mul_le_mul_right sfpInfoSize (Nat.succ_le_of_lt hpos)
    rw [Nat.succ_mul] at hmul
    have hroom := h.room
    omega
  obtain ⟨w, hread, -, hsound⟩ := h.fread hopen _ _ hin
  have hbytes : readAt m (base + (1 + pos * sfpInfoSize)) sfpInfoSize =
      (recordAt m base pos).bytes := by
    rw [recordAt, Nat.add_assoc]
  rw [hbytes] at hread
  simp only [Sdb.readSfpRecord, hread, SfpInfo.fill_bytes, Bool.not_true, Bool.false_eq_true,
    if_false]
  rw [if_neg (not_not_intro hsum)]
  exact ⟨_, rfl, hsound.congr rfl rfl⟩

end Sound

section Table

variable {s : Eeprom} {t : SfpTable} (h : HoldsTable s t)

include h

theorem HoldsTable.add (sfp : SfpInfo) :
    ∃ s' sfp', eepromGetSfp s sfp true 0 = (s', t.addReturn, sfp') ∧
      HoldsTable s' (t.add sfp) := by
  obtain ⟨base, len, m, hsound, hshows⟩ := h
  obtain ⟨w, hopen, hw, hopened⟩ := hsound.openId
  obtain ⟨s₁, hread, hw₁, h₁, hcount⟩ := hopened.readSfpcount hw
  have hlen := count_eq hshows
  unfold eepromGetSfp
  rw [if_neg (by decide), hopen]
  simp only [Bool.not_true, Bool.false_eq_true, if_false, if_true, hread, true_and, hcount, hlen]
  by_cases hfull : t.records.length = sfpsMax
  · have hnot : ¬ t.records.length < sfpsMax := by omega
    rw [if_pos hfull, SfpTable.addReturn, if_neg hnot, SfpTable.add, dif_neg hnot]
    exact ⟨s₁, sfp, rfl, base, len, m, h₁, hshows⟩
  · have hroom : t.records.length < sfpsMax := lt_of_le_of_ne t.fits hfull
    obtain ⟨s', hadd, hsound'⟩ := h₁.addSfpRecord hw₁ hcount (by rw [hlen]; exact hroom) sfp
    rw [succ_count hshows hroom] at hadd
    rw [if_neg hfull, hadd]
    simp only [false_and, if_false]
    exact ⟨s', _, rfl, base, len, _, hsound', visible_added hshows hroom sfp⟩

theorem HoldsTable.vacant (hnil : t.records = []) (buf : SfpInfo) :
    ∃ s', eepromGetSfp s buf false 0 = (s', 0, buf) ∧ HoldsTable s' t := by
  obtain ⟨base, len, m, hsound, hshows⟩ := h
  obtain ⟨w, hopen, hw, hopened⟩ := hsound.openId
  obtain ⟨s₁, hread, -, h₁, hcount⟩ := hopened.readSfpcount hw
  have hzero : m base = 0 := by
    have hlen := count_eq hshows
    rw [hnil] at hlen
    exact UInt8.toNat_inj.mp hlen
  unfold eepromGetSfp
  rw [if_neg (by decide), hopen]
  simp only [Bool.not_true, Bool.false_eq_true, if_false, if_true, hread, hcount, hzero, false_and,
    Bool.not_false, and_self]
  exact ⟨s₁, rfl, base, len, m, h₁, hshows⟩

theorem HoldsTable.read {pos : Nat} (hpos : pos < t.records.length) (buf : SfpInfo) :
    ∃ s' ret, eepromGetSfp s buf false pos = (s', ret, t.records[pos]) ∧ HoldsTable s' t ∧
      (pos = 0 → ret = t.records.length) := by
  obtain ⟨base, len, m, hsound, hshows⟩ := h
  obtain ⟨w, hopen, hw, hopened⟩ := hsound.openId
  have hmax : pos < sfpsMax := lt_of_lt_of_le hpos t.fits
  have hrecord := recordAt_eq hshows hpos
  have hsum : (recordAt m base pos).checksum = (recordAt m base pos).chksum := by
    rw [hrecord]
    exact t.intact _ (List.getElem_mem hpos)
  unfold eepromGetSfp
  rw [if_neg (Nat.not_le_of_lt hmax), hopen]
  simp only [Bool.not_true, Bool.false_eq_true, if_false, false_and]
  -- only the first call reads the count before its record
  by_cases hzero : pos = 0
  · subst hzero
    obtain ⟨s₁, hread, hw₁, h₁, hcount⟩ := hopened.readSfpcount hw
    have hlen := count_eq hshows
    have hne : m base ≠ 0 := by
      intro hnone
      rw [hnone] at hlen
      rw [← hlen] at hpos
      exact absurd hpos (Nat.not_lt_zero _)
    obtain ⟨s', hget, hsound'⟩ := h₁.readSfpRecord hw₁ hmax hsum buf
    rw [hrecord, hcount, hlen] at hget
    simp only [if_true, hread, hcount, hne, Bool.not_true, Bool.false_eq_true, if_false,
      and_false]
    exact ⟨s', _, hget, ⟨base, len, m, hsound', hshows⟩, fun _ => rfl⟩
  · obtain ⟨s', hget, hsound'⟩ := hopened.readSfpRecord hw hmax hsum buf
    rw [hrecord] at hget
    simp only [hzero, if_false, Bool.not_true, Bool.false_eq_true, false_and, false_implies,
      and_true]
    exact ⟨s', _, hget, base, len, m, hsound', hshows⟩

end Table

theorem sfpLaws : SfpLaws sfpDriver (fun s => ∃ base len m, SoundDb s base len m) HoldsTable where
  erase := by
    rintro s ⟨base, len, m, hsound⟩
    obtain ⟨w, hopen, hw, hopened⟩ := hsound.openId
    have hroom := hsound.room
    obtain ⟨w', hwrite, -, hsound'⟩ := hopened.fwrite hw 0 [0] (by
      rw [List.length_singleton]
      omega)
    have herase : eepromSfpdbErase s = (({ s with vol := w' } : Eeprom).close, 0) := by
      simp only [eepromSfpdbErase, hopen, hwrite, Bool.not_true, Bool.false_eq_true, if_false,
        if_true]
    exact ⟨_, herase, base, len, _, hsound'.congr rfl rfl, visible_erased m base⟩
  add h sfp := h.add sfp
  vacant h hnil buf := h.vacant hnil buf
  read h _ hpos buf := h.read hpos buf

end Sdb

end Storage
end WrpcSw
