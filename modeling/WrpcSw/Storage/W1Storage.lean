import WrpcSw.Storage.W1Files

/-!
# The storage on the one-wire EEPROM (`dev/sdb-eeprom.c`)

The functions of the storage with the W1 methods.  Each of them works on one file.  Where
it writes follows from what the EEPROM holds: from the number of records, or from the
size of the script.

* `Stays` — only bytes of the file are asked for, and no others change.
* `fwrite_leaves` — a write leaves the file exactly if it overruns.
* `storage_confined_iff` — which calls stay in their file.
-/

namespace WrpcSw
namespace Storage

open Memory CInt OneWire

/-! ## Between two states of the chip -/

/-- Only bytes of the file are asked for, and no others change. -/
def Stays (base len : Nat) (c c' : Chip) : Prop :=
  (∃ new, c'.log = c.log ++ new ∧ ∀ a ∈ new, InFile base len a.addr) ∧
    ∀ addr, ¬InFile base len addr → c'.mem addr = c.mem addr

/-- The file is left exactly if `out`. -/
structure Leaves (base len : Nat) (out : Prop) (c c' : Chip) : Prop where
  grows : c.Grows c'
  stays : Stays base len c c' ↔ ¬out

section Stays

variable {base len : Nat} {out : Prop} {c c' c'' : Chip}

/-- What changes is asked for, so that the log decides. -/
theorem stays_of_log (h : c.Grows c') {new : List Access} (hlog : c'.log = c.log ++ new)
    (hin : ∀ a ∈ new, InFile base len a.addr) : Stays base len c c' := by
  refine ⟨⟨new, hlog, hin⟩, ?_⟩
  intro addr houtside
  obtain ⟨all, hall, hmem⟩ := h
  obtain rfl := List.append_cancel_left (hall.symm.trans hlog)
  by_contra hne
  exact houtside (hin _ (hmem addr hne))

theorem stays_trans_iff (h : c.Grows c') (h' : c'.Grows c'') :
    Stays base len c c'' ↔ Stays base len c c' ∧ Stays base len c' c'' := by
  obtain ⟨new, hlog, hmem⟩ := id h
  obtain ⟨new', hlog', hmem'⟩ := id h'
  constructor
  · rintro ⟨⟨all, hall, hin⟩, -⟩
    rw [hlog', hlog, List.append_assoc] at hall
    obtain rfl := List.append_cancel_left hall
    exact ⟨stays_of_log h hlog fun a ha => hin a (List.mem_append_left _ ha),
      stays_of_log h' hlog' fun a ha => hin a (List.mem_append_right _ ha)⟩
  · rintro ⟨⟨⟨first, hfirst, hin⟩, -⟩, ⟨second, hsecond, hin'⟩, -⟩
    refine stays_of_log (h.trans h') (?_ : c''.log = c.log ++ (first ++ second)) ?_
    · rw [hsecond, hfirst, List.append_assoc]
    · intro a ha
      rcases List.mem_append.mp ha with ha | ha
      · exact hin a ha
      · exact hin' a ha

theorem Stays.refl (c : Chip) : Stays base len c c :=
  stays_of_log (Chip.Grows.refl c) (List.append_nil _).symm (fun a ha => absurd ha (by simp))

theorem Leaves.of_stays (h : c.Grows c') (hstays : Stays base len c c') (hnot : ¬out) :
    Leaves base len out c c' :=
  ⟨h, iff_of_true hstays hnot⟩

theorem Leaves.congr {out' : Prop} (h : Leaves base len out c c') (hiff : out ↔ out') :
    Leaves base len out' c c' :=
  ⟨h.grows, h.stays.trans (not_congr hiff)⟩

/-- First a step that stays in the file. -/
theorem Leaves.after (h : Leaves base len False c c') (h' : Leaves base len out c' c'') :
    Leaves base len out c c'' := by
  refine ⟨h.grows.trans h'.grows, ?_⟩
  rw [stays_trans_iff h.grows h'.grows, h.stays, h'.stays]
  exact and_iff_right not_false

/-- Behind a step that stays if the first one did. -/
theorem Leaves.before (h : Leaves base len out c c') (hgrows : c'.Grows c'')
    (h' : ¬out → Stays base len c' c'') : Leaves base len out c c'' := by
  refine ⟨h.grows.trans hgrows, ?_⟩
  rw [stays_trans_iff h.grows hgrows, h.stays]
  exact ⟨And.left, fun hover => ⟨hover, h' hover⟩⟩

end Stays

/-! ## Accesses of the open file -/

/-- What an access of the open file keeps. -/
structure Served (base len : Nat) (v w : VolumeOf W1Bus) : Prop where
  opened : w.Open base len
  bus : v.dev.Grows w.dev

section Served

variable {base len : Nat} {u v w : VolumeOf W1Bus}

theorem Served.trans (h : Served base len u v) (h' : Served base len v w) :
    Served base len u w :=
  ⟨h'.opened, h'.bus.devs.trans h.bus.devs, h.bus.chip.trans h'.bus.chip⟩

theorem Served.hasEeprom (h : Served base len v w) : w.dev.hasEeprom = v.dev.hasEeprom := by
  unfold W1Bus.hasEeprom
  rw [h.bus.devs]

end Served

section Access

variable {s : Sdb.EepromOf W1Bus} {base len : Nat}

/-- A file of the directory is opened. -/
theorem w1OpenId_opens {did : Nat} (h : s.vol.files did = some (base, len)) :
    ∃ v, s.openId did = ({ s with vol := v }, true) ∧ v.Open base len ∧ v.dev = s.vol.dev := by
  unfold Sdb.EepromOf.openId sdbfsOpenId
  rw [h]
  exact ⟨_, rfl, ⟨rfl, rfl, rfl⟩, rfl⟩

theorem VolumeOf.Open.request {v : VolumeOf W1Bus} (h : v.Open base len)
    (hsize : base + len ≤ 65536) (offset count : Nat) : Request v.fs base len offset count where
  currentp := h.currentp
  fOffset := by rw [h.fOffset]
  fLen := by rw [h.fLen]
  size := hsize
  offset := Or.inr (Int.natCast_nonneg offset)
  count := Int.natCast_nonneg count

/-- The bytes at addresses that do not wrap. -/
theorem map_addrs (mem : Nat → UInt8) {addr n : Nat} (htop : addr + n ≤ 65536) :
    (addrs addr n).map mem = readAt mem addr n := by
  unfold addrs addrsFrom readAt
  rw [List.map_map]
  apply List.map_congr_left
  intro i hi
  have hlt := List.mem_range.mp hi
  have hsame : (((addr : Int) % 65536).toNat + i) % 65536 = addr + i := by omega
  simp only [Function.comp_apply, hsame]

variable (h : s.vol.Open base len) (hsize : base + len ≤ 65536) (offset : Nat)

include h hsize in
/-- A read stays in the file.  Inside the file it gives the bytes, if there is an EEPROM. -/
theorem fread_served (count : Nat) :
    ∃ v ok bytes, s.fread offset count = ({ s with vol := v }, ok, bytes) ∧
      Served base len s.vol v ∧ Stays base len s.vol.dev.chip v.dev.chip ∧
      (ok = true ↔ s.vol.dev.hasEeprom = true ∧ offset + count ≤ len) ∧
      (ok = true → bytes = readAt s.vol.dev.chip.mem (base + offset) count) := by
  have hrequest := h.request hsize offset count
  have hplace : s.vol.fs.place offset = offset := Sdbfs.place_nat _ offset
  have hconfined := hrequest.read_confined s.vol.dev
  simp only [hplace] at hconfined
  obtain ⟨new, hlog, hin, -⟩ := hconfined
  have hgrows := w1ReadEepromBus_grows s.vol.dev (i32 ((s.vol.fs.fOffset : Int) + offset))
    (s.vol.fs.clip offset count)
  unfold Sdb.EepromOf.fread sdbfsFread
  simp only [h.currentp, if_true, hplace]
  refine ⟨_, _, _, rfl, ⟨h.moved _ _ _, hgrows⟩, stays_of_log hgrows.chip hlog hin, ?_⟩
  rw [decide_eq_true_iff]
  simp only [SdbfsMethods.read, w1ReadEepromBus]
  cases s.vol.dev.hasEeprom with
  | false =>
      have hfail : ((-1 : Int) = count) ↔ False := ⟨fun heq => by omega, False.elim⟩
      simp [hfail]
  | true =>
      by_cases hinside : offset + count ≤ len
      · simp only [if_true, h.clip_inside hinside, w1ReadEeprom, Chip.rMemory, targetOf_eq, Int.toNat_natCast]
        refine ⟨iff_of_true trivial ⟨trivial, hinside⟩, fun _ => ?_⟩
        have hself : i32 ((s.vol.fs.fOffset : Int) + offset) = ((base + offset : Nat) : Int) := by
          rw [h.fOffset]
          exact (startOf_eq (by omega) (by omega) hsize).trans (Nat.cast_add ..).symm
        rw [hself]
        exact map_addrs _ (by omega)
      · have hfail : (len : Int) - offset ≠ count := by omega
        simp [w1ReadEeprom, h.clip_outside (Nat.lt_of_not_le hinside), hfail, hinside]

include h hsize in
/-- A write leaves the file if it overruns.  Otherwise what it stores ends in the file. -/
theorem fwrite_served (buf : List UInt8) :
    ∃ v ok, s.fwrite offset buf = ({ s with vol := v }, ok) ∧ Served base len s.vol v ∧
      (¬(s.vol.dev.hasEeprom = true ∧ Overruns base len offset) →
        Stays base len s.vol.dev.chip v.dev.chip ∧
          (ok = true → buf = [] ∨ offset + buf.length ≤ len)) ∧
      (s.vol.dev.hasEeprom = true → Overruns base len offset → offset < 65536 →
        ¬Stays base len s.vol.dev.chip v.dev.chip) := by
  have hrequest := h.request hsize offset buf.length
  have hplace : s.vol.fs.place offset = offset := Sdbfs.place_nat _ offset
  have hgrows := w1WriteEepromBus_grows s.vol.dev (i32 ((s.vol.fs.fOffset : Int) + offset))
    (fun i => buf.getD i 0) (s.vol.fs.clip offset buf.length)
  unfold Sdb.EepromOf.fwrite sdbfsFwrite
  simp only [h.currentp, if_true, hplace]
  refine ⟨_, _, rfl, ⟨h.moved _ _ _, hgrows⟩, ?_, ?_⟩
  · intro hnot
    by_cases hover : Overruns base len offset
    · have hnone : s.vol.dev.hasEeprom = false := by simpa [hover] using hnot
      have hfail : (-1 : Int) ≠ buf.length := by omega
      simp [SdbfsMethods.write, w1WriteEepromBus, hnone, hfail, Stays.refl]
    · rw [← hplace] at hover
      have hconfined := hrequest.write_confined hover s.vol.dev buf
      simp only [hplace] at hconfined
      obtain ⟨⟨new, hlog, hin, -⟩, hend⟩ := hconfined
      refine ⟨stays_of_log hgrows.chip hlog hin, fun hok => ?_⟩
      rw [of_decide_eq_true hok] at hend
      rcases hend with hnone | hend
      · exact Or.inl (List.eq_nil_of_length_eq_zero (by omega))
      · exact Or.inr (by omega)
  · rintro heeprom hover hoffset ⟨⟨new, hlog, hin⟩, -⟩
    obtain ⟨addr, haddr, hout⟩ := exists_outside_of_overruns hover hoffset
    rw [← hplace] at hover
    have hwrite := (hrequest.write_overruns hover heeprom buf).1
    simp only [hplace] at hwrite
    obtain rfl := List.append_cancel_left (hwrite.symm.trans hlog)
    exact hout (hin _ (List.mem_map_of_mem haddr))

include h hsize in
/-- A write that starts in the file, or at its end. -/
theorem fwrite_inside (buf : List UInt8) (hle : offset ≤ len) :
    ∃ v ok, s.fwrite offset buf = ({ s with vol := v }, ok) ∧ Served base len s.vol v ∧
      Stays base len s.vol.dev.chip v.dev.chip ∧ (ok = true → offset + buf.length ≤ len) := by
  have hnot : ¬Overruns base len offset := fun hover => absurd hover.1 (by omega)
  obtain ⟨v, ok, hwrite, hserved, hstays, -⟩ := fwrite_served h hsize offset buf
  obtain ⟨hstays, hend⟩ := hstays fun hover => hnot hover.2
  refine ⟨v, ok, hwrite, hserved, hstays, fun hok => ?_⟩
  rcases hend hok with rfl | hend
  · exact hle
  · exact hend

include h hsize in
/-- A write at any address of the chip leaves the file if it overruns. -/
theorem fwrite_leaves (buf : List UInt8) (hoffset : offset < 65536) :
    ∃ v ok, s.fwrite offset buf = ({ s with vol := v }, ok) ∧ Served base len s.vol v ∧
      Leaves base len (s.vol.dev.hasEeprom = true ∧ Overruns base len offset) s.vol.dev.chip
        v.dev.chip := by
  obtain ⟨v, ok, hwrite, hserved, hstays, hover⟩ := fwrite_served h hsize offset buf
  refine ⟨v, ok, hwrite, hserved, hserved.bus.chip, ?_, fun hnot => (hstays hnot).1⟩
  intro hkept hboth
  exact hover hboth.1 hboth.2 hoffset hkept

end Access

/-! ## The calibration value -/

theorem eepromPhtrans_stays {s : Sdb.EepromOf W1Bus} {base len : Nat}
    (hfile : s.vol.files Sdb.sdbDevCalib = some (base, len)) (hsize : base + len ≤ 65536)
    (val : BitVec 32) (write : Bool) :
    Stays base len s.vol.dev.chip (Sdb.eepromPhtrans s val write).1.vol.dev.chip := by
  obtain ⟨v, hopen, hopened, hdev⟩ := w1OpenId_opens hfile
  unfold Sdb.eepromPhtrans
  simp only [hopen, Bool.not_true, Bool.false_eq_true, if_false]
  rw [← hdev]
  cases write with
  | true =>
      obtain ⟨w, ok, hwrite, -, hstays, -⟩ :=
        fwrite_inside (s := { s with vol := v }) hopened hsize 0 (wordBytes (val ||| validityBit))
          (Nat.zero_le len)
      simp only [if_true, hwrite]
      exact hstays
  | false =>
      obtain ⟨w, ok, bytes, hread, -, hstays, -⟩ :=
        fread_served (s := { s with vol := v }) hopened hsize 0 4
      simp only [Bool.false_eq_true, if_false, hread]
      split_ifs
      · exact hstays
      · exact hstays
      · exact hstays

/-! ## The SFP database -/

/-- The number of records that `eeprom_get_sfp` goes by: the one in the file, which only the
call for the first record reads, or the one it has kept. -/
def sfpcountAt (s : Sdb.EepromOf W1Bus) (base pos : Nat) : UInt8 :=
  if pos = 0 then s.vol.dev.chip.mem base else s.sfpcount

section Sfp

variable {s : Sdb.EepromOf W1Bus} {base len : Nat} (h : s.vol.Open base len)
  (hsize : base + len ≤ 65536)

include h hsize in
theorem readSfpcount_served :
    ∃ v ok c, Sdb.readSfpcount s = ({ s with vol := v, sfpcount := c }, ok) ∧
      Served base len s.vol v ∧ Stays base len s.vol.dev.chip v.dev.chip ∧
      (ok = true ↔ s.vol.dev.hasEeprom = true ∧ 0 < len) ∧
      (ok = true → c = s.vol.dev.chip.mem base) := by
  obtain ⟨v, ok, bytes, hread, hserved, hstays, hok, hbytes⟩ := fread_served h hsize 0 1
  unfold Sdb.readSfpcount
  rw [hread]
  refine ⟨v, ok, _, rfl, hserved, hstays, hok.trans (by rw [Nat.zero_add, Nat.succ_le_iff]), ?_⟩
  intro htrue
  rw [hbytes htrue, readAt_one]
  rfl

include h hsize in
/-- The count that a call goes by: in the first one it is read, which needs an EEPROM and a
file that is not empty. -/
theorem counted_served (pos : Nat) :
    ∃ v ok c, (if pos = 0 then Sdb.readSfpcount s else (s, true)) =
        ({ s with vol := v, sfpcount := c }, ok) ∧
      Served base len s.vol v ∧ Stays base len s.vol.dev.chip v.dev.chip ∧
      (ok = true ↔ (pos = 0 → s.vol.dev.hasEeprom = true ∧ 0 < len)) ∧
      (ok = true → c = sfpcountAt s base pos) := by
  by_cases hfirst : pos = 0
  · obtain ⟨v, ok, c, hread, hserved, hstays, hok, hc⟩ := readSfpcount_served h hsize
    refine ⟨v, ok, c, by rw [if_pos hfirst, hread], hserved, hstays, ?_, ?_⟩
    · rw [hok]
      exact ⟨fun hcounted _ => hcounted, fun hcounted => hcounted hfirst⟩
    · intro htrue
      rw [hc htrue, sfpcountAt, if_pos hfirst]
  · refine ⟨s.vol, true, s.sfpcount, if_neg hfirst, ⟨h, rfl, Chip.Grows.refl _⟩, Stays.refl _,
      ?_, ?_⟩
    · exact iff_of_true rfl fun hzero => absurd hzero hfirst
    · exact fun _ => (if_neg hfirst).symm

include h hsize in
theorem readSfpRecord_leaves (sfp : SfpInfo) (pos : Nat) :
    Leaves base len False s.vol.dev.chip (Sdb.readSfpRecord s sfp pos).1.vol.dev.chip := by
  obtain ⟨v, ok, bytes, hread, hserved, hstays, -⟩ :=
    fread_served h hsize (1 + pos * sfpInfoSize) sfpInfoSize
  have hleaves := Leaves.of_stays hserved.bus.chip hstays not_false
  unfold Sdb.readSfpRecord
  simp only [hread]
  split_ifs
  · exact hleaves
  · exact hleaves
  · exact hleaves

include h hsize in
/-- A record that is added leaves the file if it overruns.  The count is written into it. -/
theorem addSfpRecord_leaves (sfp : SfpInfo) :
    Leaves base len
      (s.vol.dev.hasEeprom = true ∧ Overruns base len (1 + s.sfpcount.toNat * sfpInfoSize : Nat))
      s.vol.dev.chip (Sdb.addSfpRecord s sfp).1.vol.dev.chip := by
  have hlt := s.sfpcount.toNat_lt
  obtain ⟨v, ok, hwrite, hserved, hleaves⟩ :=
    fwrite_leaves h hsize (1 + s.sfpcount.toNat * sfpInfoSize) sfp.withChksum.bytes
      (by unfold sfpInfoSize; omega)
  unfold Sdb.addSfpRecord
  simp only [hwrite]
  cases ok with
  | false => exact hleaves
  | true =>
      obtain ⟨w, ok, hcount, hserved', hstays, -⟩ :=
        fwrite_inside (s := { s with vol := v, sfpcount := s.sfpcount + 1 }) hserved.opened hsize 0
          [s.sfpcount + 1] (Nat.zero_le len)
      simp only [Bool.not_true, Bool.false_eq_true, if_false, hcount]
      split_ifs
      · exact hleaves.before hserved'.bus.chip fun _ => hstays
      · exact hleaves.before hserved'.bus.chip fun _ => hstays

end Sfp

/-- A record is added, behind as many records that it overruns. -/
structure SfpOverruns (s : Sdb.EepromOf W1Bus) (base len : Nat) (add : Bool) (pos : Nat) :
    Prop where
  added : add = true
  inRange : pos < sfpsMax
  hasEeprom : s.vol.dev.hasEeprom = true
  counted : pos = 0 → 0 < len
  notFull : (sfpcountAt s base pos).toNat ≠ sfpsMax
  overruns : Overruns base len (1 + (sfpcountAt s base pos).toNat * sfpInfoSize : Nat)

theorem eepromGetSfp_leaves {s : Sdb.EepromOf W1Bus} {base len : Nat}
    (hfile : s.vol.files Sdb.sdbDevSfp = some (base, len)) (hsize : base + len ≤ 65536)
    (sfp : SfpInfo) (add : Bool) (pos : Nat) :
    Leaves base len (SfpOverruns s base len add pos) s.vol.dev.chip
      (Sdb.eepromGetSfp s sfp add pos).1.vol.dev.chip := by
  obtain ⟨v, hopen, hopened, hdev⟩ := w1OpenId_opens hfile
  unfold Sdb.eepromGetSfp
  by_cases hpos : pos ≥ sfpsMax
  · rw [if_pos hpos]
    exact Leaves.of_stays (Chip.Grows.refl _) (Stays.refl _)
      fun hover => absurd hover.inRange (by omega)
  rw [if_neg hpos]
  simp only [hopen, Bool.not_true, Bool.false_eq_true, if_false]
  obtain ⟨w, ok, c, hcount, hserved, hstays, hok, hc⟩ :=
    counted_served (s := { s with vol := v }) hopened hsize pos
  have hsame : sfpcountAt { s with vol := v } base pos = sfpcountAt s base pos := by
    unfold sfpcountAt
    simp only [hdev]
  rw [hsame] at hc
  simp only [hcount]
  rw [← hdev]
  have hread : Leaves base len False v.dev.chip w.dev.chip :=
    Leaves.of_stays hserved.bus.chip hstays not_false
  cases ok with
  | false =>
      apply hread.congr
      refine iff_of_false not_false fun hover => ?_
      exact absurd (hok.mpr fun hzero => ⟨by rw [hdev]; exact hover.hasEeprom, hover.counted hzero⟩)
        Bool.false_ne_true
  | true =>
      obtain rfl := hc rfl
      simp only [Bool.not_true, Bool.false_eq_true, if_false]
      by_cases hfull : add = true ∧ (sfpcountAt s base pos).toNat = sfpsMax
      · rw [if_pos hfull]
        exact hread.congr (iff_of_false not_false fun hover => hover.notFull hfull.2)
      rw [if_neg hfull]
      cases add with
      | false =>
          have hnot : ¬SfpOverruns s base len false pos := fun hover =>
            absurd hover.added Bool.false_ne_true
          have hrecord := readSfpRecord_leaves hserved.opened hsize (s := { s with
            vol := w, sfpcount := sfpcountAt s base pos }) sfp pos
          simp only [Bool.false_eq_true, if_false]
          split_ifs
          · exact hread.congr (iff_of_false not_false hnot)
          · exact (hread.after hrecord).congr (iff_of_false not_false hnot)
      | true =>
          have hrecord := addSfpRecord_leaves hserved.opened hsize (s := { s with
            vol := w, sfpcount := sfpcountAt s base pos }) sfp
          simp only [Bool.not_true, Bool.false_eq_true, false_and, and_false, if_false, if_true]
          apply (hread.after hrecord).congr
          rw [hserved.hasEeprom, hdev]
          constructor
          · rintro ⟨heeprom, hover⟩
            exact ⟨rfl, by omega, heeprom, fun hzero => (hok.mp rfl hzero).2,
              fun heq => hfull ⟨rfl, heq⟩, hover⟩
          · exact fun hover => ⟨hover.hasEeprom, hover.overruns⟩

/-! ## The init script -/

section Script

/-- One round of `writeArgs`. -/
def writeArg (s : Sdb.EepromOf W1Bus) (used : Nat) (arg : List UInt8) :
    Sdb.EepromOf W1Bus × Option Nat :=
  let r := s.fwrite (2 + used) arg
  if !r.2 then (r.1, none)
  else
    let used := u16 (used + arg.length)
    let r := r.1.fwrite (2 + used) [space]
    if !r.2 then (r.1, none) else (r.1, some (u16 (used + 1)))

theorem writeArgs_cons (s : Sdb.EepromOf W1Bus) (used : Nat) (arg : List UInt8)
    (args : List (List UInt8)) :
    Sdb.writeArgs s used (arg :: args) =
      match (writeArg s used arg).2 with
      | none => ((writeArg s used arg).1, none)
      | some u => Sdb.writeArgs (writeArg s used arg).1 u args := by
  unfold writeArg
  rw [Sdb.writeArgs]
  rcases s.fwrite (2 + used) arg with ⟨v, _ | _⟩
  · rfl
  · simp only [Bool.not_true, Bool.false_eq_true, if_false]
    rcases v.fwrite (2 + u16 (used + arg.length)) [space] with ⟨w, _ | _⟩
    · rfl
    · rfl

variable {s : Sdb.EepromOf W1Bus} {base len : Nat} (h : s.vol.Open base len)
  (hsize : base + len ≤ 65536)

/-- Where the separator goes: to the place of an empty argument, or behind one that fits. -/
theorem separator_place {used : Nat} {arg : List UInt8} (hused : used < 65536)
    (harg : arg = [] ∨ 2 + used + arg.length ≤ len) :
    u16 (used + arg.length) = used ∨ 2 + u16 (used + arg.length) ≤ len := by
  unfold u16
  rcases harg with rfl | hend
  · exact Or.inl (by simpa using Nat.mod_eq_of_lt hused)
  · exact Or.inr (by omega)

include h hsize in
/-- An argument leaves the file if its first write overruns.  Otherwise the round fails or
ends in the file. -/
theorem writeArg_served (used : Nat) (arg : List UInt8) :
    ∃ v used', writeArg s used arg = ({ s with vol := v }, used') ∧ Served base len s.vol v ∧
      (¬(s.vol.dev.hasEeprom = true ∧ Overruns base len (2 + used : Nat)) → used < 65536 →
        Stays base len s.vol.dev.chip v.dev.chip ∧ ∀ u, used' = some u → 2 + u ≤ len) ∧
      (s.vol.dev.hasEeprom = true → Overruns base len (2 + used : Nat) → 2 + used < 65536 →
        ¬Stays base len s.vol.dev.chip v.dev.chip) := by
  obtain ⟨v, ok, hwrite, hserved, hstays, hover⟩ := fwrite_served h hsize (2 + used) arg
  unfold writeArg
  simp only [hwrite]
  cases ok with
  | false =>
      refine ⟨v, none, rfl, hserved, fun hnot _ => ⟨(hstays hnot).1, ?_⟩, hover⟩
      rintro u ⟨⟩
  | true =>
      obtain ⟨w, ok, hspace, hserved', hstays', -⟩ :=
        fwrite_served (s := { s with vol := v }) hserved.opened hsize
          (2 + u16 (used + arg.length)) [space]
      have hboth := hserved.trans hserved'
      simp only [Bool.not_true, Bool.false_eq_true, if_false, hspace]
      -- the separator is written behind the argument, or in its place if that is empty
      have hspaced : ¬(s.vol.dev.hasEeprom = true ∧ Overruns base len (2 + used : Nat)) →
          used < 65536 → ¬(v.dev.hasEeprom = true ∧
            Overruns base len (2 + u16 (used + arg.length) : Nat)) := by
        intro hnot hused
        rcases separator_place hused ((hstays hnot).2 rfl) with hsame | hinside
        · rwa [hsame, hserved.hasEeprom]
        · exact fun hover => absurd hover.2.1 (by omega)
      have hfits : ¬(s.vol.dev.hasEeprom = true ∧ Overruns base len (2 + used : Nat)) →
          used < 65536 → Stays base len s.vol.dev.chip w.dev.chip ∧
            (ok = true → 2 + u16 (used + arg.length) + 1 ≤ len) := by
        intro hnot hused
        obtain ⟨hkept, hend⟩ := hstays' (hspaced hnot hused)
        have hall := (stays_trans_iff hserved.bus.chip hserved'.bus.chip).mpr
          ⟨(hstays hnot).1, hkept⟩
        refine ⟨hall, fun hok => ?_⟩
        rcases hend hok with hempty | hend
        · exact absurd hempty (by simp)
        · exact hend
      have hleft : s.vol.dev.hasEeprom = true → Overruns base len (2 + used : Nat) →
          2 + used < 65536 → ¬Stays base len s.vol.dev.chip w.dev.chip := by
        intro heeprom hout hlt hkept
        exact hover heeprom hout hlt
          ((stays_trans_iff hserved.bus.chip hserved'.bus.chip).mp hkept).1
      cases ok with
      | false =>
          refine ⟨w, none, rfl, hboth, fun hnot hused => ⟨(hfits hnot hused).1, ?_⟩, hleft⟩
          rintro u ⟨⟩
      | true =>
          refine ⟨w, some (u16 (u16 (used + arg.length) + 1)), rfl, hboth,
            fun hnot hused => ⟨(hfits hnot hused).1, ?_⟩, hleft⟩
          rintro u ⟨⟩
          have hend := (hfits hnot hused).2 rfl
          have hle : u16 (u16 (used + arg.length) + 1) ≤ u16 (used + arg.length) + 1 :=
            Nat.mod_le _ _
          omega

include h hsize in
/-- The arguments that are written from inside the file on stay in it. -/
theorem writeArgs_served (used : Nat) (args : List (List UInt8)) :
    ∃ v used', Sdb.writeArgs s used args = ({ s with vol := v }, used') ∧
      Served base len s.vol v ∧
      (2 + used ≤ len →
        Stays base len s.vol.dev.chip v.dev.chip ∧ ∀ u, used' = some u → 2 + u ≤ len) := by
  induction args generalizing s used with
  | nil =>
      refine ⟨s.vol, some used, rfl, ⟨h, rfl, Chip.Grows.refl _⟩, fun hle => ⟨Stays.refl _, ?_⟩⟩
      rintro u ⟨⟩
      exact hle
  | cons arg args ih =>
      obtain ⟨v, used', harg, hserved, hstays, -⟩ := writeArg_served h hsize used arg
      have hinside : 2 + used ≤ len →
          Stays base len s.vol.dev.chip v.dev.chip ∧ ∀ u, used' = some u → 2 + u ≤ len :=
        fun hle => hstays (fun hover => absurd hover.2.1 (by omega)) (by omega)
      rw [writeArgs_cons, harg]
      cases used' with
      | none => exact ⟨v, none, rfl, hserved, hinside⟩
      | some u =>
          obtain ⟨w, used', hargs, hserved', hstays'⟩ :=
            ih (s := { s with vol := v }) hserved.opened u
          refine ⟨w, used', hargs, hserved.trans hserved', fun hle => ?_⟩
          obtain ⟨hkept, hend⟩ := hinside hle
          obtain ⟨hkept', hend'⟩ := hstays' (hend u rfl)
          exact ⟨(stays_trans_iff hserved.bus.chip hserved'.bus.chip).mpr ⟨hkept, hkept'⟩, hend'⟩

/-- The end of `eeprom_init_add`: the newline, the size and its readback. -/
def endLine (s : Sdb.EepromOf W1Bus) (used : Nat) : Sdb.EepromOf W1Bus × Int :=
  let r := s.fwrite (2 + used - 1) [newline]
  if !r.2 then (r.1.close, -1)
  else
    let r := r.1.fwrite 0 (sizeBytes used)
    if !r.2 then (r.1.close, -1)
    else
      let r := r.1.fread 0 2
      (r.1.close, if r.2.1 then 0 else -1)

/-- What `eeprom_init_add` writes. -/
def writeLine (s : Sdb.EepromOf W1Bus) (used : Nat) (args : List (List UInt8)) :
    Sdb.EepromOf W1Bus × Int :=
  let w := Sdb.writeArgs s used args
  match w.2 with
  | none => (w.1.close, -1)
  | some used => endLine w.1 used

include h hsize in
/-- Behind the newline, the end of a line stays in the file. -/
theorem endLine_leaves {out : Prop} (used : Nat)
    (hline : Leaves base len out s.vol.dev.chip
      (s.fwrite (2 + used - 1) [newline]).1.vol.dev.chip) :
    Leaves base len out s.vol.dev.chip (endLine s used).1.vol.dev.chip := by
  obtain ⟨v, ok, hwrite, hserved, -⟩ := fwrite_served h hsize (2 + used - 1) [newline]
  rw [hwrite] at hline
  unfold endLine
  simp only [hwrite]
  cases ok with
  | false => exact hline
  | true =>
      obtain ⟨w, ok, hsized, hserved', hstays', -⟩ :=
        fwrite_inside (s := { s with vol := v }) hserved.opened hsize 0 (sizeBytes used)
          (Nat.zero_le len)
      simp only [Bool.not_true, Bool.false_eq_true, if_false, hsized]
      have hline' := hline.before hserved'.bus.chip fun _ => hstays'
      cases ok with
      | false => exact hline'
      | true =>
          obtain ⟨x, ok, bytes, hread, hserved'', hstays'', -⟩ :=
            fread_served (s := { s with vol := w }) hserved'.opened hsize 0 2
          simp only [Bool.not_true, Bool.false_eq_true, if_false, hread]
          exact hline'.before hserved''.bus.chip fun _ => hstays''

include h hsize in
/-- The end of a line that the file has room for. -/
theorem endLine_inside (used : Nat) :
    s.vol.dev.chip.Grows (endLine s used).1.vol.dev.chip ∧
      (2 + used ≤ len → Stays base len s.vol.dev.chip (endLine s used).1.vol.dev.chip) := by
  obtain ⟨v, ok, hwrite, hserved, hstays, -⟩ := fwrite_served h hsize (2 + used - 1) [newline]
  have hline : Leaves base len (¬Stays base len s.vol.dev.chip v.dev.chip) s.vol.dev.chip
      v.dev.chip := ⟨hserved.bus.chip, not_not.symm⟩
  have hleaves := endLine_leaves h hsize used (by rw [hwrite]; exact hline)
  refine ⟨hleaves.grows, fun hle => hleaves.stays.mpr (not_not.mpr ?_)⟩
  exact (hstays fun hover => absurd hover.2.1 (by omega)).1

include h hsize in
/-- A command that is added leaves the file if its first write overruns. -/
theorem writeLine_leaves {used : Nat} (hused : used ≤ 256) (args : List (List UInt8)) :
    Leaves base len
      (s.vol.dev.hasEeprom = true ∧
        Overruns base len (if args = [] then used + 1 else used + 2 : Nat))
      s.vol.dev.chip (writeLine s used args).1.vol.dev.chip := by
  cases args with
  | nil =>
      obtain ⟨v, ok, hwrite, -, hleaves⟩ :=
        fwrite_leaves h hsize (2 + used - 1) [newline] (by omega)
      have hplace : 2 + used - 1 = used + 1 := by omega
      rw [if_pos rfl, ← hplace]
      apply endLine_leaves h hsize used
      rw [hwrite]
      exact hleaves
  | cons arg args =>
      rw [if_neg (List.cons_ne_nil arg args), Nat.add_comm used 2]
      obtain ⟨v, used', harg, hserved, hstays, hover⟩ := writeArg_served h hsize used arg
      have hleaves : Leaves base len
          (s.vol.dev.hasEeprom = true ∧ Overruns base len (2 + used : Nat)) s.vol.dev.chip
          v.dev.chip :=
        ⟨hserved.bus.chip, fun hkept hboth => hover hboth.1 hboth.2 (by omega) hkept,
          fun hnot => (hstays hnot (by omega)).1⟩
      unfold writeLine
      rw [writeArgs_cons, harg]
      cases used' with
      | none => exact hleaves
      | some u =>
          have hend : ¬(s.vol.dev.hasEeprom = true ∧ Overruns base len (2 + used : Nat)) →
              2 + u ≤ len := fun hnot => (hstays hnot (by omega)).2 u rfl
          obtain ⟨w, used', hargs, hserved', hstays'⟩ :=
            writeArgs_served (s := { s with vol := v }) hserved.opened hsize u args
          simp only [hargs]
          have hleaves' := hleaves.before hserved'.bus.chip fun hnot => (hstays' (hend hnot)).1
          cases used' with
          | none => exact hleaves'
          | some u' =>
              obtain ⟨hgrows, hkept⟩ :=
                endLine_inside (s := { s with vol := w }) hserved'.opened hsize u'
              exact hleaves'.before hgrows fun hnot =>
                hkept ((hstays' (hend hnot)).2 u' rfl)

end Script

/-- The size that `eeprom_init_add` finds; one that is too large counts as none. -/
def usedAt (s : Sdb.EepromOf W1Bus) (base : Nat) : Nat :=
  let stored := sizeOf16 (readAt s.vol.dev.chip.mem base 2)
  if stored > 256 then 0 else stored

/-- A command is added, behind a script so large that it overruns. -/
structure InitOverruns (s : Sdb.EepromOf W1Bus) (base len : Nat) (args : List (List UInt8)) :
    Prop where
  hasEeprom : s.vol.dev.hasEeprom = true
  sized : 2 ≤ len
  overruns : Overruns base len (if args = [] then usedAt s base + 1 else usedAt s base + 2 : Nat)

theorem eepromInitAdd_leaves {s : Sdb.EepromOf W1Bus} {base len : Nat}
    (hfile : s.vol.files Sdb.sdbDevInit = some (base, len)) (hsize : base + len ≤ 65536)
    (args : List (List UInt8)) :
    Leaves base len (InitOverruns s base len args) s.vol.dev.chip
      (Sdb.eepromInitAdd s args).1.vol.dev.chip := by
  obtain ⟨v, hopen, hopened, hdev⟩ := w1OpenId_opens hfile
  obtain ⟨w, ok, bytes, hread, hserved, hstays, hok, hbytes⟩ :=
    fread_served (s := { s with vol := v }) hopened hsize 0 2
  have hleaves : Leaves base len False s.vol.dev.chip w.dev.chip := by
    rw [← hdev]
    exact Leaves.of_stays hserved.bus.chip hstays not_false
  unfold Sdb.eepromInitAdd
  simp only [hopen, Bool.not_true, Bool.false_eq_true, if_false, hread]
  cases ok with
  | false =>
      apply hleaves.congr
      refine iff_of_false not_false fun hover => ?_
      exact absurd (hok.mpr ⟨by rw [← hover.hasEeprom, hdev], hover.sized⟩) Bool.false_ne_true
  | true =>
      obtain ⟨heeprom, hsized⟩ := hok.mp rfl
      have hused : usedAt s base =
          if sizeOf16 bytes > 256 then 0 else sizeOf16 bytes := by
        rw [hbytes rfl]
        unfold usedAt
        simp only [hdev, Nat.add_zero]
      simp only [Bool.not_true, Bool.false_eq_true, if_false, ← hused]
      have hsmall : usedAt s base ≤ 256 := by
        rw [hused]
        split_ifs <;> omega
      have hline := writeLine_leaves (s := { s with vol := w }) hserved.opened hsize hsmall args
      refine Leaves.congr (hleaves.after hline) ?_
      constructor
      · rintro ⟨-, hover⟩
        exact ⟨by rw [← hdev]; exact heeprom, by omega, hover⟩
      · rintro ⟨-, -, hover⟩
        exact ⟨hserved.hasEeprom.trans heeprom, hover⟩

/-! ## All of them -/

/-- For a file below 65536: a read is confined to it.  A write is, on every device, exactly if
it meets the condition.  The calibration value stays in its file; a record or a command that
is added does exactly if its first write does not overrun. -/
theorem storage_confined_iff {v : VolumeOf W1Bus} {base len : Nat} {offset count : Int}
    (h : Request v.fs base len offset count) {s : Sdb.EepromOf W1Bus} {did : Nat}
    (hfile : s.vol.files did = some (base, len)) :
    Confined base len count v.dev.chip.log (sdbfsFread v offset count).1.dev.chip.log
        (sdbfsFread v offset count).2.1 ∧
      ((∀ (bus : W1Bus) (buf : List UInt8),
          Confined base len count bus.chip.log
            (sdbfsFwrite { v with dev := bus } offset buf count).1.dev.chip.log
            (sdbfsFwrite { v with dev := bus } offset buf count).2) ↔
        Meets base len (v.fs.place offset) count) ∧
      (did = Sdb.sdbDevCalib → ∀ val write,
        Stays base len s.vol.dev.chip (Sdb.eepromPhtrans s val write).1.vol.dev.chip) ∧
      (did = Sdb.sdbDevSfp → ∀ sfp add pos,
        (Stays base len s.vol.dev.chip (Sdb.eepromGetSfp s sfp add pos).1.vol.dev.chip ↔
          ¬SfpOverruns s base len add pos)) ∧
      (did = Sdb.sdbDevInit → ∀ args,
        (Stays base len s.vol.dev.chip (Sdb.eepromInitAdd s args).1.vol.dev.chip ↔
          ¬InitOverruns s base len args)) := by
  refine ⟨sdbfsFread_confined h, sdbfsFwrite_confined_iff h, ?_, ?_, ?_⟩
  · rintro rfl val write
    exact eepromPhtrans_stays hfile h.size val write
  · rintro rfl sfp add pos
    exact (eepromGetSfp_leaves hfile h.size sfp add pos).stays
  · rintro rfl args
    exact (eepromInitAdd_leaves hfile h.size args).stays

/-- A file of 128 bytes on an EEPROM with `count` in its first byte, and no bytes else. -/
def sfpStorage (count : UInt8) : Sdb.EepromOf W1Bus where
  vol :=
    { fs := { currentp := true, fOffset := 704, fLen := 128 }
      dev :=
        { devs := [0x43]
          chip := { mem := fun addr => if addr = 704 then count else 0xff } }
      files := fun _ => some (704, 128) }

/-- On a blank EEPROM a read of the count is confined, and a record that is added is not. -/
theorem storage_confined_blank :
    Confined 704 128 1 [] (sdbfsFread (sfpStorage 0xff).vol 0 1).1.dev.chip.log
        (sdbfsFread (sfpStorage 0xff).vol 0 1).2.1 ∧
      ¬Stays 704 128 (sfpStorage 0xff).vol.dev.chip
        (Sdb.eepromGetSfp (sfpStorage 0xff) SfpInfo.zero true 0).1.vol.dev.chip := by
  have hrequest : Request (sfpStorage 0xff).vol.fs 704 128 0 1 :=
    ⟨rfl, rfl, rfl, by decide, Or.inr le_rfl, by decide⟩
  obtain ⟨hread, -, -, hsfp, -⟩ := storage_confined_iff hrequest (s := sfpStorage 0xff)
    (rfl : (sfpStorage 0xff).vol.files Sdb.sdbDevSfp = some (704, 128))
  refine ⟨hread, fun hstays => (hsfp rfl SfpInfo.zero true 0).mp hstays ?_⟩
  exact ⟨rfl, by decide, rfl, by decide, by decide, by decide⟩

/-- Behind five records, a sixth one goes behind the file, and over what is there. -/
theorem eepromGetSfp_changes :
    (sfpStorage 5).vol.dev.chip.mem 850 = 0xff ∧
      (Sdb.eepromGetSfp (sfpStorage 5) SfpInfo.zero true 0).1.vol.dev.chip.mem 850 = 0 ∧
      ¬InFile 704 128 850 := by
  refine ⟨by decide, by decide, by unfold InFile; omega⟩

end Storage
end WrpcSw
