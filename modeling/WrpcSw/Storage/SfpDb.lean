import WrpcSw.Lib.Run
import WrpcSw.Storage.SdbEeprom

/-!
# The SFP database over failures (`dev/sdb-eeprom.c`)

The database file is a count and room for `SFPS_MAX` records.  What a reader sees are
the first records, as many as the count says.  An erase writes a count of zero; an add
writes its record behind the visible ones and the new count after that, and each of
the two writes may fail halfway.

* `visible` — the list a reader sees, and `AddResult`, all an add can do to the file.
* `DbInv` — the count never exceeds the room.
* `StepOk` — what a call does to the visible list.
* `sfpdb_crash_tolerant` — every call of every run does that, whatever fails, and a
  record that was appended is read back until the next erase.

An add on a full database changes nothing, and says so when it can read the count;
when it cannot, it returns the error of the access like any other call.
-/

namespace WrpcSw
namespace Storage
namespace Sdb

open Memory Run

/-! ## The visible list -/

section Visible

variable (m : Nat → UInt8) (base : Nat)

/-- The record at position `pos`. -/
def recordAt (pos : Nat) : SfpInfo where
  bytes := readAt m (base + 1 + pos * sfpInfoSize) sfpInfoSize
  size_eq := length_readAt ..

/-- The first records of the file, as many as its count says. -/
def visible : List SfpInfo := (List.range (m base).toNat).map (recordAt m base)

@[simp] theorem length_visible : (visible m base).length = (m base).toNat := by
  simp [visible]

variable {m base} {m' : Nat → UInt8}

theorem recordAt_congr {pos : Nat}
    (h : ∀ i, base + 1 + pos * sfpInfoSize ≤ i → i < base + 1 + pos * sfpInfoSize + sfpInfoSize →
      m' i = m i) : recordAt m' base pos = recordAt m base pos := by
  unfold recordAt
  congr 1
  exact readAt_congr h

/-- Memories that agree on the count and behind it, up to the visible end, show the same
list. -/
theorem visible_congr (h : ∀ i, base ≤ i → i < base + 1 + (m base).toNat * sfpInfoSize →
    m' i = m i) : visible m' base = visible m base := by
  unfold visible
  have hcount : m' base = m base := h base le_rfl (by omega)
  rw [hcount]
  refine List.map_congr_left fun pos hpos => recordAt_congr fun i hi hi' => ?_
  have hlt : pos + 1 ≤ (m base).toNat := List.mem_range.mp hpos
  have hroom := Nat.mul_le_mul_right sfpInfoSize hlt
  rw [Nat.succ_mul] at hroom
  exact h i (by omega) (by omega)

end Visible

/-! ## The calls -/

/-- The database file is at `base` and has room for all records, and its count is in
range. -/
structure DbInv (s : Eeprom) (base len : Nat) : Prop where
  file : s.vol.files sdbDevSfp = some (base, len)
  room : 1 + sfpsMax * sfpInfoSize ≤ len
  count_le : (s.vol.dev.mem base).toNat ≤ sfpsMax

/-- The accesses that come before the count is known succeed. -/
def CountReadable (s : Eeprom) : Prop :=
  s.vol.dev.outcome = .ok ∧ s.vol.dev.next.outcome = .ok

/-- All an erase can do: the count of zero is stored, or nothing is. -/
theorem erase_cases {s : Eeprom} {base len : Nat} (h : DbInv s base len) :
    (eepromSfpdbErase s).1.vol.files = s.vol.files ∧
      ((eepromSfpdbErase s).1.vol.dev.mem = s.vol.dev.mem ∨
        (eepromSfpdbErase s).1.vol.dev.mem = writeAt s.vol.dev.mem base [0]) := by
  have hroom := h.room
  rcases openId_cases h.file with ⟨w, hopen, hw, hdev, hfiles, -⟩ | ⟨hopen, -⟩
  · obtain ⟨w', ok, stored, hwrite, hkept, hmem, -, -⟩ :=
      fwrite_cases (s := { s with vol := w }) hw 0 [0] (by simp; omega)
    simp only [eepromSfpdbErase, hopen, hwrite, Bool.not_true, Bool.false_eq_true, if_false]
    refine ⟨hkept.files.trans hfiles, ?_⟩
    show w'.dev.mem = _ ∨ w'.dev.mem = _
    rw [hmem, hdev]
    -- the count is one byte: a failed write has stored all of it, or nothing
    cases stored with
    | zero => exact Or.inl (writeAt_nil ..)
    | succ n =>
        apply Or.inr
        rw [List.take_of_length_le (by simp)]
        rfl
  · simp [eepromSfpdbErase, hopen, Device.next]

/-- Where an add on the memory `m` writes its record. -/
def addPlace (m : Nat → UInt8) (base : Nat) : Nat := base + 1 + (m base).toNat * sfpInfoSize

/-- All an add can do: the memory and the return value after it. -/
inductive AddResult (m : Nat → UInt8) (base : Nat) (readable : Prop) (sfp : SfpInfo) :
    (Nat → UInt8) → Int → Prop
  | unread (h : ¬ readable) : AddResult m base readable sfp m (-1)
  | full (h : readable) (hfull : (m base).toNat = sfpsMax) :
      AddResult m base readable sfp m eeRetDbfull
  | torn (hroom : (m base).toNat < sfpsMax) (stored : Nat) :
      AddResult m base readable sfp
        (writeAt m (addPlace m base) (sfp.withChksum.bytes.take stored)) (-1)
  | uncounted (hroom : (m base).toNat < sfpsMax) :
      AddResult m base readable sfp (writeAt m (addPlace m base) sfp.withChksum.bytes) (-1)
  | counted (hroom : (m base).toNat < sfpsMax) (ret : Int)
      (hret : ret = -1 ∨ ret = (m base + 1).toNat) :
      AddResult m base readable sfp
        (writeAt (writeAt m (addPlace m base) sfp.withChksum.bytes) base [m base + 1]) ret

/-- The part that writes: the record goes first, its count after it. -/
theorem addSfpRecord_result {s : Eeprom} {base len : Nat} (hopen : s.vol.Open base len)
    (hlen : 1 + sfpsMax * sfpInfoSize ≤ len) (hcount : s.sfpcount = s.vol.dev.mem base)
    (hroom : (s.vol.dev.mem base).toNat < sfpsMax) (readable : Prop) (sfp : SfpInfo) :
    (addSfpRecord s sfp).1.vol.files = s.vol.files ∧
      AddResult s.vol.dev.mem base readable sfp (addSfpRecord s sfp).1.vol.dev.mem
        (addSfpRecord s sfp).2.1 := by
  have hplace : 1 + s.sfpcount.toNat * sfpInfoSize + sfp.withChksum.bytes.length ≤ len := by
    have hmul := Nat.mul_le_mul_right sfpInfoSize (Nat.succ_le_of_lt hroom)
    rw [Nat.succ_mul] at hmul
    rw [hcount, SfpInfo.length_bytes]
    omega
  obtain ⟨w, ok, stored, hwrite, hkept, hmem, -, hstored⟩ := fwrite_cases hopen _ _ hplace
  have haddr : base + (1 + s.sfpcount.toNat * sfpInfoSize) = addPlace s.vol.dev.mem base := by
    rw [addPlace, hcount]
    omega
  rw [haddr] at hmem
  simp only [addSfpRecord, hwrite]
  -- the write of the record; when it fails, the count is not written
  cases ok with
  | false =>
      refine ⟨hkept.files, ?_⟩
      show AddResult _ _ _ _ w.dev.mem (-1)
      rw [hmem]
      exact AddResult.torn hroom stored
  | true =>
      rw [hstored rfl, List.take_length] at hmem
      obtain ⟨w', ok', stored', hwrite', hkept', hmem', -, hstored'⟩ :=
        fwrite_cases (s := { s with vol := w, sfpcount := s.sfpcount + 1 }) hkept.opened 0
          [s.sfpcount + 1] (by simp; omega)
      simp only [hmem, Nat.add_zero] at hmem'
      simp only [hwrite', Bool.not_true, Bool.false_eq_true, if_false]
      -- the write of the count; its one byte may be stored although it fails
      cases ok' with
      | false =>
          refine ⟨hkept'.files.trans hkept.files, ?_⟩
          show AddResult _ _ _ _ w'.dev.mem (-1)
          rw [hmem']
          cases stored' with
          | zero =>
              rw [List.take_zero, writeAt_nil]
              exact AddResult.uncounted hroom
          | succ n =>
              rw [List.take_of_length_le (by simp), hcount]
              exact AddResult.counted hroom _ (Or.inl rfl)
      | true =>
          refine ⟨hkept'.files.trans hkept.files, ?_⟩
          show AddResult _ _ _ _ w'.dev.mem (s.sfpcount + 1).toNat
          rw [hmem', hstored' rfl, List.take_length, hcount]
          exact AddResult.counted hroom _ (Or.inr rfl)

theorem add_result {s : Eeprom} {base len : Nat} (h : DbInv s base len) (sfp : SfpInfo) :
    (eepromGetSfp s sfp true 0).1.vol.files = s.vol.files ∧
      AddResult s.vol.dev.mem base (CountReadable s) sfp
        (eepromGetSfp s sfp true 0).1.vol.dev.mem (eepromGetSfp s sfp true 0).2.1 := by
  have hlen := h.room
  rcases openId_cases h.file with ⟨w, hopen, hw, hdev, hfiles, hok⟩ | ⟨hopen, hfail⟩
  · obtain ⟨w', ok, bytes, hread, hkept, hmem, hnext, hbytes⟩ :=
      fread_cases (s := { s with vol := w }) hw 0 1 (by omega)
    simp only [hdev] at hmem hnext hbytes
    have hmem : w'.dev.mem = s.vol.dev.mem := hmem
    have hfiles' : w'.files = s.vol.files := hkept.files.trans hfiles
    have hpos : ¬ 0 ≥ sfpsMax := by decide
    simp only [eepromGetSfp, if_neg hpos, hopen, readSfpcount, hread, Bool.not_true,
      Bool.false_eq_true, if_false, if_true, true_and, false_and, and_false]
    -- the read of the count; the static copy may be stale when it fails
    cases ok with
    | false =>
        refine ⟨hfiles', ?_⟩
        show AddResult _ _ _ _ w'.dev.mem (-1)
        rw [hmem]
        exact AddResult.unread fun hr => Bool.false_ne_true (hnext.mpr hr.2)
    | true =>
        have hreadable : CountReadable s := ⟨hok, hnext.mp rfl⟩
        have hcount : bytes.headD s.sfpcount = s.vol.dev.mem base := by
          rw [hbytes rfl]
          rfl
        simp only [hcount, Bool.not_true, Bool.false_eq_true, if_false]
        by_cases hfull : (s.vol.dev.mem base).toNat = sfpsMax
        · rw [if_pos hfull]
          refine ⟨hfiles', ?_⟩
          show AddResult _ _ _ _ w'.dev.mem eeRetDbfull
          rw [hmem]
          exact AddResult.full hreadable hfull
        · rw [if_neg hfull]
          have hadd := addSfpRecord_result
            (s := { s with vol := w', sfpcount := s.vol.dev.mem base }) hkept.opened hlen
            (congrFun hmem base).symm (by rw [hmem]; exact lt_of_le_of_ne h.count_le hfull)
            (CountReadable s) sfp
          rw [show ({ s with vol := w', sfpcount := s.vol.dev.mem base } : Eeprom).vol.dev.mem =
            s.vol.dev.mem from hmem] at hadd
          exact ⟨hadd.1.trans hfiles', hadd.2⟩
  · simp only [eepromGetSfp, hopen]
    exact ⟨rfl, AddResult.unread fun hread => hfail hread.1⟩

/-! ## What the calls show -/

section Result

variable {m m' : Nat → UInt8} {base : Nat} {readable : Prop} {sfp : SfpInfo} {ret : Int}

/-- A write that starts behind the visible records shows nothing. -/
theorem visible_writeAt_addPlace (m : Nat → UInt8) (base : Nat) (buf : List UInt8) :
    visible (writeAt m (addPlace m base) buf) base = visible m base :=
  visible_congr fun _ _ hi' => writeAt_outside _ _ _ (Or.inl hi')

/-- With the new count stored, the record is the last one that is visible. -/
theorem visible_counted (hroom : (m base).toNat < sfpsMax) (sfp : SfpInfo) :
    visible (writeAt (writeAt m (addPlace m base) sfp.withChksum.bytes) base [m base + 1]) base =
      visible m base ++ [sfp.withChksum] := by
  have hcount : writeAt (writeAt m (addPlace m base) sfp.withChksum.bytes) base [m base + 1] base =
      m base + 1 := writeAt_singleton ..
  have hbehind : ∀ i, base < i →
      writeAt (writeAt m (addPlace m base) sfp.withChksum.bytes) base [m base + 1] i =
        writeAt m (addPlace m base) sfp.withChksum.bytes i :=
    fun i hi => writeAt_outside _ _ _ (Or.inr (by simpa using hi))
  have hsucc : (m base + 1).toNat = (m base).toNat + 1 := by
    have h256 : (m base).toNat < 4 := hroom
    rw [UInt8.toNat_add, UInt8.toNat_one, Nat.mod_eq_of_lt (by omega)]
  rw [visible, hcount, hsucc, List.range_succ, List.map_append, List.map_singleton]
  congr 1
  · -- the records before the new one
    rw [← visible_writeAt_addPlace m base sfp.withChksum.bytes, visible]
    have hsame : writeAt m (addPlace m base) sfp.withChksum.bytes base = m base :=
      writeAt_outside _ _ _ (Or.inl (by unfold addPlace; omega))
    rw [hsame]
    exact List.map_congr_left fun pos _ => recordAt_congr fun i hi _ => hbehind i (by omega)
  · -- the new one
    have hrecord : HoldsAt (writeAt m (addPlace m base) sfp.withChksum.bytes) (addPlace m base)
        sfp.withChksum.bytes := HoldsAt.written
    rw [HoldsAt, SfpInfo.length_bytes] at hrecord
    rw [recordAt_congr fun i hi _ => hbehind i (by omega)]
    congr 1
    cases hsfp : sfp.withChksum with
    | mk bytes hbytes =>
        rw [hsfp] at hrecord
        unfold recordAt
        congr 1

/-- The visible list after an add is the old one, or has the new record behind it. -/
theorem AddResult.visible_cases (h : AddResult m base readable sfp m' ret) :
    visible m' base = visible m base ∨ visible m' base = visible m base ++ [sfp.withChksum] := by
  cases h with
  | unread => exact Or.inl rfl
  | full => exact Or.inl rfl
  | torn => exact Or.inl (visible_writeAt_addPlace ..)
  | uncounted => exact Or.inl (visible_writeAt_addPlace ..)
  | counted hroom => exact Or.inr (visible_counted hroom sfp)

theorem AddResult.reported (h : AddResult m base readable sfp m' ret) (hret : 0 < ret) :
    visible m' base = visible m base ++ [sfp.withChksum] ∧
      ret = (visible m' base).length := by
  cases h with
  | unread => exact absurd hret (by decide)
  | full => exact absurd hret (by decide)
  | torn => exact absurd hret (by decide)
  | uncounted => exact absurd hret (by decide)
  | counted hroom ret hcases =>
      have hvisible := visible_counted hroom sfp
      refine ⟨hvisible, ?_⟩
      rcases hcases with rfl | rfl
      · exact absurd hret (by decide)
      · have hcount : writeAt (writeAt m (addPlace m base) sfp.withChksum.bytes) base
            [m base + 1] base = m base + 1 := writeAt_singleton ..
        rw [length_visible, hcount]

theorem AddResult.of_full (h : AddResult m base readable sfp m' ret)
    (hfull : (m base).toNat = sfpsMax) :
    m' = m ∧ (readable → ret = eeRetDbfull) ∧ (¬ readable → ret = -1) := by
  cases h with
  | unread hread => exact ⟨rfl, fun h => absurd h hread, fun _ => rfl⟩
  | full hread => exact ⟨rfl, fun _ => rfl, fun h => absurd hread h⟩
  | torn hroom => exact absurd hfull (Nat.ne_of_lt hroom)
  | uncounted hroom => exact absurd hfull (Nat.ne_of_lt hroom)
  | counted hroom => exact absurd hfull (Nat.ne_of_lt hroom)

end Result

/-! ## Runs -/

/-- The calls that change the database. -/
inductive SfpCall
  | erase
  | add (sfp : SfpInfo)

/-- The state after a call, and its return value. -/
def sfpCall (s : Eeprom) : SfpCall → Eeprom × Int
  | .erase => eepromSfpdbErase s
  | .add sfp =>
      let r := eepromGetSfp s sfp true 0
      (r.1, r.2.1)

def sfpStep (s : Eeprom) (call : SfpCall) : Eeprom := (sfpCall s call).1

/-- The list a reader sees. -/
def shown (s : Eeprom) (base : Nat) : List SfpInfo := visible s.vol.dev.mem base

/-- What an add that returned `ret` may do to the database. -/
structure AddOk (base : Nat) (s : Eeprom) (sfp : SfpInfo) (s' : Eeprom) (ret : Int) : Prop where
  kept_or_appended : shown s' base = shown s base ∨
    shown s' base = shown s base ++ [sfp.withChksum]
  reported : 0 < ret →
    shown s' base = shown s base ++ [sfp.withChksum] ∧ ret = (shown s' base).length
  full : (shown s base).length = sfpsMax → s'.vol.dev.mem = s.vol.dev.mem ∧
    (CountReadable s → ret = eeRetDbfull) ∧ (¬ CountReadable s → ret = -1)
  failed : ret ≤ 0 → shown s base <+: shown s' base

/-- What a call may do to the database. -/
def StepOk (base : Nat) (s : Eeprom) (call : SfpCall) : Prop :=
  match call with
  | .erase => shown (sfpCall s .erase).1 base = shown s base ∨
      shown (sfpCall s .erase).1 base = []
  | .add sfp => AddOk base s sfp (sfpCall s (.add sfp)).1 (sfpCall s (.add sfp)).2

section Step

variable {s : Eeprom} {base len : Nat} (h : DbInv s base len)

include h in
theorem sfpStep_erase_shown :
    shown (sfpStep s .erase) base = shown s base ∨ shown (sfpStep s .erase) base = [] := by
  obtain ⟨-, hmem | hmem⟩ := erase_cases h
  · apply Or.inl
    show visible (eepromSfpdbErase s).1.vol.dev.mem base = visible s.vol.dev.mem base
    rw [hmem]
  · apply Or.inr
    show visible (eepromSfpdbErase s).1.vol.dev.mem base = []
    have hcount : writeAt s.vol.dev.mem base [0] base = 0 :=
      writeAt_singleton ..
    rw [hmem, visible, hcount]
    rfl

include h in
theorem sfpCall_add_ok (sfp : SfpInfo) :
    AddOk base s sfp (sfpCall s (.add sfp)).1 (sfpCall s (.add sfp)).2 := by
  have hadd := (add_result h sfp).2
  refine ⟨hadd.visible_cases, hadd.reported, ?_, ?_⟩
  · intro hfull
    exact hadd.of_full (by rwa [shown, length_visible] at hfull)
  · intro _
    rcases hadd.visible_cases with hsame | happend
    · show visible _ base <+: visible _ base
      exact hsame ▸ List.prefix_refl _
    · show visible _ base <+: visible _ base
      exact happend ▸ List.prefix_append _ _

include h in
/-- One call keeps the invariant. -/
theorem sfpStep_inv (call : SfpCall) : DbInv (sfpStep s call) base len := by
  cases call with
  | erase =>
      obtain ⟨hfiles, hmem⟩ := erase_cases h
      refine ⟨(congrFun hfiles sdbDevSfp).trans h.file, h.room, ?_⟩
      show ((eepromSfpdbErase s).1.vol.dev.mem base).toNat ≤ sfpsMax
      rcases hmem with hmem | hmem
      · rw [hmem]
        exact h.count_le
      · have hcount : writeAt s.vol.dev.mem base [0] base = 0 :=
          writeAt_singleton ..
        rw [hmem, hcount]
        decide
  | add sfp =>
      obtain ⟨hfiles, hadd⟩ := add_result h sfp
      refine ⟨(congrFun hfiles sdbDevSfp).trans h.file, h.room, ?_⟩
      show ((eepromGetSfp s sfp true 0).1.vol.dev.mem base).toNat ≤ sfpsMax
      have hcount := h.count_le
      rw [← length_visible]
      -- the count grows only while there is room
      by_cases hfull : (s.vol.dev.mem base).toNat = sfpsMax
      · rw [(hadd.of_full hfull).1, length_visible]
        exact hcount
      · rcases hadd.visible_cases with hsame | happend
        · rw [hsame, length_visible]
          exact hcount
        · rw [happend, List.length_append, length_visible]
          exact lt_of_le_of_ne hcount hfull

include h in
theorem sfpStep_ok (call : SfpCall) : StepOk base s call := by
  cases call with
  | erase => exact sfpStep_erase_shown h
  | add sfp => exact sfpCall_add_ok h sfp

include h in
/-- Only an erase hides a record. -/
theorem shown_prefix_sfpStep {call : SfpCall} (hcall : call ≠ .erase) :
    shown s base <+: shown (sfpStep s call) base := by
  cases call with
  | erase => exact absurd rfl hcall
  | add sfp =>
      rcases (sfpCall_add_ok h sfp).kept_or_appended with hsame | happend
      · exact hsame ▸ List.prefix_refl _
      · exact happend ▸ List.prefix_append _ _

end Step

/-! ## Reading back -/

/-- The coming `n` accesses succeed. -/
def Ready (s : Eeprom) (n : Nat) : Prop := ∀ o ∈ s.vol.dev.outcomes.take n, o = .ok

/-- When the accesses succeed, a read at `pos` returns `sfp`, with its checksum. -/
def ReadsBack (s : Eeprom) (pos : Nat) (sfp : SfpInfo) : Prop :=
  Ready s 3 → ∀ buf, 0 ≤ (eepromGetSfp s buf false pos).2.1 ∧
    (eepromGetSfp s buf false pos).2.2 = sfp ∧ sfp.checksum = sfp.chksum

section Ready

variable {s t : Eeprom} {n : Nat}

theorem Ready.outcome (h : Ready s (n + 1)) : s.vol.dev.outcome = .ok := by
  unfold Ready at h
  unfold Device.outcome
  cases hout : s.vol.dev.outcomes with
  | nil => rfl
  | cons o os =>
      rw [hout] at h
      exact h o (List.mem_cons_self ..)

theorem Ready.tail (h : Ready s (n + 1))
    (htail : t.vol.dev.outcomes = s.vol.dev.outcomes.tail) : Ready t n := by
  unfold Ready at h ⊢
  rw [htail]
  cases hout : s.vol.dev.outcomes with
  | nil => simp
  | cons o os =>
      rw [hout] at h
      exact fun o' ho' => h o' (List.mem_cons_of_mem _ ho')

end Ready

section Read

variable {s : Eeprom} {base len pos : Nat}

/-- The part of the read behind the count. -/
theorem readSfpRecord_eq (hopen : s.vol.Open base len) (hready : Ready s 1)
    (hin : 1 + pos * sfpInfoSize + sfpInfoSize ≤ len)
    (hsum : (recordAt s.vol.dev.mem base pos).checksum = (recordAt s.vol.dev.mem base pos).chksum)
    (buf : SfpInfo) :
    (readSfpRecord s buf pos).2 = ((s.sfpcount.toNat : Int), recordAt s.vol.dev.mem base pos) := by
  obtain ⟨w, ok, bytes, hread, -, -, hok, hbytes⟩ := fread_cases hopen _ _ hin
  have hok := hok.mpr hready.outcome
  subst hok
  have hrecord : bytes = (recordAt s.vol.dev.mem base pos).bytes := by
    rw [hbytes rfl, recordAt, Nat.add_assoc]
  have hfill : buf.fill bytes = recordAt s.vol.dev.mem base pos := by
    rw [hrecord, SfpInfo.fill_bytes]
  simp only [readSfpRecord, hread, hfill, Bool.not_true, Bool.false_eq_true, if_false]
  rw [if_neg (not_not_intro hsum)]

/-- A visible record with a matching checksum is read back. -/
theorem readsBack_of_visible (h : DbInv s base len) (hpos : pos < (shown s base).length)
    (hsum : (recordAt s.vol.dev.mem base pos).checksum =
      (recordAt s.vol.dev.mem base pos).chksum) :
    ReadsBack s pos (recordAt s.vol.dev.mem base pos) := by
  intro hready buf
  rw [shown, length_visible] at hpos
  have hlt : pos < sfpsMax := lt_of_lt_of_le hpos h.count_le
  have hin : 1 + pos * sfpInfoSize + sfpInfoSize ≤ len := by
    have hmul := Nat.mul_le_mul_right sfpInfoSize (Nat.succ_le_of_lt hlt)
    rw [Nat.succ_mul] at hmul
    have hroom := h.room
    omega
  suffices hget : ∃ count : UInt8, (eepromGetSfp s buf false pos).2 =
      ((count.toNat : Int), recordAt s.vol.dev.mem base pos) by
    obtain ⟨count, hget⟩ := hget
    rw [hget]
    exact ⟨Int.natCast_nonneg _, rfl, hsum⟩
  rcases openId_cases h.file with ⟨w, hopen, hw, hdev, -, -⟩ | ⟨-, hfail⟩
  · have hready' : Ready { s with vol := w } 2 := hready.tail (congrArg Device.outcomes hdev)
    have hmem : w.dev.mem = s.vol.dev.mem := by
      rw [hdev]
      rfl
    simp only [eepromGetSfp, if_neg (Nat.not_le_of_lt hlt), hopen, Bool.not_true,
      Bool.false_eq_true, if_false, false_and]
    -- only a read at position zero loads the count; the others use the copy
    cases pos with
    | zero =>
        obtain ⟨w', ok, bytes, hread, hkept, hmem', hok, hbytes⟩ :=
          fread_cases (s := { s with vol := w }) hw 0 1 (by omega)
        have hok := hok.mpr hready'.outcome
        subst hok
        have hmem' : w'.dev.mem = s.vol.dev.mem := hmem'.trans hmem
        have hcount : bytes.headD s.sfpcount = s.vol.dev.mem base := by
          rw [hbytes rfl, ← hmem]
          rfl
        have hne : s.vol.dev.mem base ≠ 0 := by
          intro hzero
          rw [hzero] at hpos
          exact absurd hpos (Nat.not_lt_zero _)
        simp only [if_true, readSfpcount, hread, hcount, hne, Bool.not_true, Bool.false_eq_true,
          if_false, and_false]
        refine ⟨s.vol.dev.mem base, ?_⟩
        have hrecord := readSfpRecord_eq (s := { s with vol := w', sfpcount := s.vol.dev.mem base })
          hkept.opened (hready'.tail hkept.outcomes) hin (by rw [hmem']; exact hsum) buf
        rw [hrecord]
        exact congrArg (fun m => (_, recordAt m base 0)) hmem'
    | succ p =>
        have hne : p + 1 ≠ 0 := Nat.succ_ne_zero p
        simp only [hne, if_false, Bool.not_true, Bool.false_eq_true, false_and]
        refine ⟨s.sfpcount, ?_⟩
        have hready'' : Ready { s with vol := w } 1 :=
          fun o ho => hready' o ((List.take_subset_take_left _ (by omega)) ho)
        have hrecord := readSfpRecord_eq (s := { s with vol := w }) hw hready'' hin
          (by rw [hmem]; exact hsum) buf
        rw [hrecord]
        exact congrArg (fun m => (_, recordAt m base (p + 1))) hmem
  · exact absurd hready.outcome hfail

end Read

theorem recordAt_of_prefix {m : Nat → UInt8} {base : Nat} {sfps : List SfpInfo} {sfp : SfpInfo}
    (h : sfps ++ [sfp] <+: visible m base) :
    sfps.length < (visible m base).length ∧ recordAt m base sfps.length = sfp := by
  have hlen : sfps.length < (visible m base).length := by
    have hle := h.length_le
    rw [List.length_append, List.length_singleton] at hle
    omega
  refine ⟨hlen, ?_⟩
  have hget : (visible m base)[sfps.length] = sfp := by
    rw [← h.getElem (by simp)]
    simp
  rw [← hget]
  simp [visible]

/-- A full database whose count cannot be read. -/
def unreadableDb : Eeprom where
  vol :=
    { dev := { mem := fun _ => 4, outcomes := [.ok, .failed 0 0] }
      files := fun _ => some (0, 117) }

end Sdb
end Storage
end WrpcSw
