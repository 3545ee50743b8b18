import WrpcSw.Lib.Run
import WrpcSw.Storage.I2cEeprom

/-!
# The sections of the older storage (`include/eeprom.h`, `dev/eeprom.c`)

The calibration word, the SFP database and the init script are meant to lie behind each
other.  The base of the script leaves out the calibration word and the count of the
database, so the script starts on the last five bytes of the fourth record.  A long
script does not end at the end of the EEPROM either: its addresses wrap around.

A byte counts as read by a function when its address is in the log of a call.

* `calReads_bound`, `sfpReads_bound`, `scriptReads_bound` — where the readers look.
* `Independent` — a step changes no byte that the readers of the other sections read.
* `Safe` — the steps that stay away from the overlap.
* `sections_independent` — along a run of such steps the sections are independent.
* `initAdd_not_independent` — adding a line to the script never is.
-/

namespace WrpcSw
namespace Storage
namespace I2c

open Memory CInt Run

/-! ## What is read -/

/-- The call reads the byte at `a`. -/
def ReadBy (s : Eeprom) (call : Eeprom → Eeprom) (a : Nat) : Prop :=
  a ∈ (call { s with reads := [] }).reads

/-- `eeprom_phtrans` reads the byte. -/
def CalReads (s : Eeprom) (a : Nat) : Prop :=
  ∃ val, ReadBy s (fun t => (eepromPhtrans t val false).1) a

/-- `eeprom_get_sfp` reads the byte. -/
def SfpReads (s : Eeprom) (a : Nat) : Prop :=
  ∃ sfp add pos, ReadBy s (fun t => (eepromGetSfp t sfp add pos).1) a

/-- A function of the script reads the byte. -/
def ScriptReads (s : Eeprom) (a : Nat) : Prop :=
  ReadBy s (fun t => (eepromInitShow t).1) a ∨
    (∃ bufsize next, bufsize < 256 ∧
      ReadBy s (fun t => (eepromInitReadcmd t bufsize next).1) a) ∨
    ∃ args, ReadBy s (fun t => (eepromInitAdd t args).1) a

/-- The characters that `eeprom_init_show` prints. -/
def shownSize (s : Eeprom) : Nat :=
  let stored := sizeOf16 (readAt s.mem eeBaseInit 2)
  if stored = 0 ∨ stored = 0xffff then 0 else stored

/-- What the C types and the first count promise about a state. -/
structure Sound (s : Eeprom) : Prop where
  eeprom : s.hasEeprom = true
  count_le : (s.mem eeBaseSfp).toNat ≤ sfpsMax
  sfpcount_le : s.sfpcount.toNat ≤ sfpsMax
  ptr_lt : s.ptr < 65536
  used_lt : s.used < 65536

/-! ## Where the readers look -/

section Reads

variable {s : Eeprom} {a : Nat}

/-- What an access adds to the log. -/
theorem mem_read_reads {offset size : Nat} (h : a ∈ (s.read offset size).1.reads) :
    a ∈ s.reads ∨ ∃ i, i < size ∧ a = (offset + i) % 65536 := by
  unfold Eeprom.read at h
  cases heeprom : s.hasEeprom with
  | false =>
      rw [heeprom] at h
      exact Or.inl h
  | true =>
      rw [heeprom] at h
      rcases List.mem_append.mp h with hold | hnew
      · exact Or.inl hold
      · obtain ⟨i, hi, rfl⟩ := List.mem_map.mp hnew
        exact Or.inr ⟨i, List.mem_range.mp hi, rfl⟩

@[simp] theorem write_reads (offset : Nat) (buf : List UInt8) :
    (s.write offset buf).1.reads = s.reads := by
  unfold Eeprom.write
  split_ifs <;> rfl

theorem eepromPhtrans_state (s : Eeprom) (val : BitVec 32) :
    (eepromPhtrans s val false).1 = (s.read eeBaseCal 4).1 := by
  unfold eepromPhtrans
  simp only [Bool.false_eq_true, if_false]
  cases (s.read eeBaseCal 4).2 with
  | none => rfl
  | some bs =>
      simp only
      split_ifs <;> rfl

theorem calReads_bound (h : CalReads s a) : eeBaseCal ≤ a ∧ a < eeBaseCal + 4 := by
  obtain ⟨val, hread⟩ := h
  have hbase : eeBaseCal = 4096 := rfl
  have hread : a ∈ (eepromPhtrans { s with reads := [] } val false).1.reads := hread
  rw [eepromPhtrans_state] at hread
  rcases mem_read_reads hread with hold | ⟨i, hi, rfl⟩
  · exact absurd hold List.not_mem_nil
  · omega

@[simp] theorem addSfpRecord_reads (s : Eeprom) (sfp : SfpInfo) :
    (addSfpRecord s sfp).1.reads = s.reads := by
  simp [addSfpRecord]

theorem readSfpRecord_state (s : Eeprom) (sfp : SfpInfo) (pos : Nat) :
    (readSfpRecord s sfp pos).1 = (s.read (eeBaseSfp + 1 + pos * sfpInfoSize) sfpInfoSize).1 := by
  unfold readSfpRecord
  obtain ⟨t, bytes⟩ := s.read (eeBaseSfp + 1 + pos * sfpInfoSize) sfpInfoSize
  cases bytes with
  | none => rfl
  | some bs =>
      simp only
      split_ifs <;> rfl

theorem readSfpcount_reads (s : Eeprom) :
    (readSfpcount s).1.reads = (s.read eeBaseSfp 1).1.reads := by
  unfold readSfpcount
  obtain ⟨t, bytes⟩ := s.read eeBaseSfp 1
  cases bytes <;> rfl

/-- The state of `eeprom_get_sfp` once the count is known. -/
def counted (s : Eeprom) (pos : Nat) : Eeprom := if pos = 0 then (readSfpcount s).1 else s

theorem counted_reads {pos : Nat} (h : a ∈ (counted s pos).reads) :
    a ∈ s.reads ∨ a = eeBaseSfp := by
  have hbase : eeBaseSfp = 4100 := rfl
  unfold counted at h
  split_ifs at h
  · rw [readSfpcount_reads] at h
    rcases mem_read_reads h with hold | ⟨i, hi, rfl⟩
    · exact Or.inl hold
    · exact Or.inr (by omega)
  · exact Or.inl h

/-- Behind the count, a call does nothing, appends a record or reads one. -/
theorem eepromGetSfp_state (s : Eeprom) (sfp : SfpInfo) (add : Bool) {pos : Nat}
    (hpos : pos < sfpsMax) :
    (eepromGetSfp s sfp add pos).1 = counted s pos ∨
      (eepromGetSfp s sfp add pos).1 = (addSfpRecord (counted s pos) sfp).1 ∨
      (eepromGetSfp s sfp add pos).1 = (readSfpRecord (counted s pos) sfp pos).1 := by
  have hcounted : (if pos = 0 then readSfpcount s else (s, true)).1 = counted s pos := by
    unfold counted
    split_ifs <;> rfl
  rw [eepromGetSfp, if_neg (Nat.not_le_of_lt hpos), ← hcounted]
  simp only
  generalize (if pos = 0 then readSfpcount s else (s, true)) = c
  split_ifs <;> simp

/-- A call reads the count, or a record of the database. -/
theorem sfpReads_bound (h : SfpReads s a) :
    eeBaseSfp ≤ a ∧ a < eeBaseSfp + 1 + sfpsMax * sfpInfoSize := by
  obtain ⟨sfp, add, pos, hread⟩ := h
  have hread : a ∈ (eepromGetSfp { s with reads := [] } sfp add pos).1.reads := hread
  have hbase : eeBaseSfp = 4100 := rfl
  have hmax : sfpsMax = 4 := rfl
  have hsize : sfpInfoSize = 29 := rfl
  have hcount : a ∈ (counted { s with reads := [] } pos).reads → a = eeBaseSfp := fun hmem =>
    (counted_reads hmem).resolve_left List.not_mem_nil
  rcases Nat.lt_or_ge pos sfpsMax with hpos | hpos
  · rcases eepromGetSfp_state { s with reads := [] } sfp add hpos with hst | hst | hst
    · rw [hst] at hread
      have := hcount hread
      omega
    · rw [hst, addSfpRecord_reads] at hread
      have := hcount hread
      omega
    · rw [hst, readSfpRecord_state] at hread
      rcases mem_read_reads hread with hold | ⟨i, hi, rfl⟩
      · have := hcount hold
        omega
      · rw [hsize] at hi ⊢
        rw [Nat.mod_eq_of_lt (by omega)]
        omega
  · rw [eepromGetSfp, if_pos hpos] at hread
    exact absurd hread List.not_mem_nil

/-- The loop of `eeprom_init_show` walks over its characters. -/
theorem mem_showBytes_reads {i left : Nat} (h : a ∈ (showBytes s i left).1.reads) :
    a ∈ s.reads ∨ ∃ k, k < left ∧ a = (eeBaseInit + 2 + (i + k)) % 65536 := by
  induction left generalizing s i with
  | zero => exact Or.inl h
  | succ left ih =>
      have hstep : ∀ b, b ∈ (s.read (eeBaseInit + 2 + i) 1).1.reads →
          b ∈ s.reads ∨ b = (eeBaseInit + 2 + i) % 65536 := by
        intro b hb
        rcases mem_read_reads hb with hold | ⟨k, hk, rfl⟩
        · exact Or.inl hold
        · obtain rfl : k = 0 := by omega
          exact Or.inr rfl
      have hfirst : a ∈ (s.read (eeBaseInit + 2 + i) 1).1.reads → a ∈ s.reads ∨
          ∃ k, k < left + 1 ∧ a = (eeBaseInit + 2 + (i + k)) % 65536 := by
        intro ha
        rcases hstep a ha with hold | rfl
        · exact Or.inl hold
        · exact Or.inr ⟨0, Nat.succ_pos left, rfl⟩
      unfold showBytes at h
      revert h hfirst
      obtain ⟨t, bytes⟩ := s.read (eeBaseInit + 2 + i) 1
      intro hfirst h
      cases bytes with
      | none => exact hfirst h
      | some bs =>
          rcases ih h with hold | ⟨k, hk, rfl⟩
          · exact hfirst hold
          · refine Or.inr ⟨k + 1, Nat.succ_lt_succ hk, ?_⟩
            rw [Nat.add_assoc i 1 k, Nat.add_comm 1 k]

/-- The loop of `eeprom_init_readcmd` stays behind the size. -/
theorem mem_readLine_reads {room : Nat} {buf : List UInt8}
    (hptr : eeBaseInit + s.ptr + room ≤ 65536) (h : a ∈ (readLine s buf room).1.reads) :
    a ∈ s.reads ∨ eeBaseInit ≤ a := by
  induction room generalizing s buf with
  | zero => exact Or.inl h
  | succ room ih =>
      have hbase : eeBaseInit = 4212 := rfl
      have hstep : a ∈ (s.read (eeBaseInit + s.ptr) 1).1.reads → a ∈ s.reads ∨ eeBaseInit ≤ a := by
        intro ha
        rcases mem_read_reads ha with hold | ⟨k, hk, rfl⟩
        · exact Or.inl hold
        · exact Or.inr (by omega)
      have hu : u16 (s.ptr + 1) = s.ptr + 1 := u16_eq_self (by omega)
      unfold readLine at h
      rw [hu] at h
      revert h hstep
      obtain ⟨t, bytes⟩ := s.read (eeBaseInit + s.ptr) 1
      intro hstep h
      cases bytes with
      | none => exact hstep h
      | some bs =>
          simp only at h
          split_ifs at h
          · exact hstep h
          · exact (ih (by show eeBaseInit + (s.ptr + 1) + room ≤ _; omega) h).elim hstep Or.inr

theorem sizeOf16_lt (bs : List UInt8) : sizeOf16 bs < 65536 := u16_lt _

/-- The size of the script is behind the base. -/
theorem mem_read_size {n : Nat} (hn : n ≤ 2) (h : a ∈ (s.read eeBaseInit n).1.reads) :
    a ∈ s.reads ∨ eeBaseInit ≤ a := by
  have hbase : eeBaseInit = 4212 := rfl
  rcases mem_read_reads h with hold | ⟨i, hi, rfl⟩
  · exact Or.inl hold
  · exact Or.inr (by omega)

@[simp] theorem writeArgs_reads (s : Eeprom) (used : Nat) (args : List (List UInt8)) :
    (writeArgs s used args).1.reads = s.reads := by
  induction args generalizing s used with
  | nil => rfl
  | cons arg args ih =>
      unfold writeArgs
      simp only
      split_ifs
      · exact write_reads ..
      · rw [write_reads, write_reads]
      · rw [ih, write_reads, write_reads]

theorem mem_eepromInitAdd_reads {args : List (List UInt8)}
    (h : a ∈ (eepromInitAdd s args).1.reads) : a ∈ s.reads ∨ eeBaseInit ≤ a := by
  have hsize : a ∈ (s.read eeBaseInit 2).1.reads → a ∈ s.reads ∨ eeBaseInit ≤ a :=
    mem_read_size le_rfl
  unfold eepromInitAdd at h
  revert hsize h
  obtain ⟨t, bytes⟩ := s.read eeBaseInit 2
  intro h hsize
  cases bytes with
  | none => exact hsize h
  | some bs =>
      have hargs := writeArgs_reads t (if sizeOf16 bs = 0xffff then 0 else sizeOf16 bs) args
      simp only at h hsize
      revert hargs h
      obtain ⟨w, used⟩ := writeArgs t (if sizeOf16 bs = 0xffff then 0 else sizeOf16 bs) args
      intro hargs h
      have hw : w.reads = t.reads := hargs
      cases used with
      | none => exact hsize (hw ▸ h)
      | some used =>
          simp only at h
          split_ifs at h
          · exact hsize (by simpa [hw] using h)
          · exact hsize (by simpa [hw] using h)
          · rcases mem_read_size le_rfl h with hold | hbase
            · exact hsize (by simpa [hw] using hold)
            · exact Or.inr hbase
          · rcases mem_read_size le_rfl h with hold | hbase
            · exact hsize (by simpa [hw] using hold)
            · exact Or.inr hbase

/-- The part of `eeprom_init_readcmd` behind the size. -/
theorem mem_readLine_reads_of_lt {bufsize pos : Nat} (hpos : scriptPos s.ptr = pos)
    (hbuf : bufsize < 256) (hptr : s.ptr < 65536) (hlt : pos < 65536)
    (h : a ∈ (readLine s [] (bufsize + 1 - pos)).1.reads) : a ∈ s.reads ∨ eeBaseInit ≤ a := by
  have hbase : eeBaseInit = 4212 := rfl
  have hsub : pos = s.ptr - 2 ∧ 2 ≤ s.ptr := by
    unfold scriptPos at hpos
    omega
  rcases Nat.lt_or_ge bufsize pos with hroom | hroom
  · rw [show bufsize + 1 - pos = 0 by omega] at h
    exact Or.inl h
  · exact mem_readLine_reads (by omega) h

/-- A reader of the script looks behind its base, or has wrapped around. -/
theorem scriptReads_bound (hs : Sound s) (h : ScriptReads s a) :
    eeBaseInit ≤ a ∨ 65536 + a < eeBaseInit + 2 + shownSize s := by
  have hbase : eeBaseInit = 4212 := rfl
  have hnew : ¬ a ∈ ({ s with reads := [] } : Eeprom).reads := List.not_mem_nil
  rcases h with hshow | ⟨bufsize, next, hbuf, hcmd⟩ | ⟨args, hadd⟩
  · have hshow : a ∈ (showBytes (({ s with reads := [] } : Eeprom).read eeBaseInit 2).1 0
        (shownSize s)).1.reads := by
      have hlog : a ∈ (eepromInitShow { s with reads := [] }).1.reads := hshow
      rw [eepromInitShow, read_eq (s := { s with reads := [] }) hs.eeprom eeBaseInit 2
        (by decide)] at hlog
      rw [read_eq (s := { s with reads := [] }) hs.eeprom eeBaseInit 2 (by decide)]
      exact hlog
    -- only the printing goes past the top of the address space
    rcases mem_showBytes_reads hshow with hold | ⟨k, hk, rfl⟩
    · exact Or.inl ((mem_read_size le_rfl hold).resolve_left hnew)
    · omega
  · have hcmd : a ∈ (eepromInitReadcmd { s with reads := [] } bufsize next).1.reads := hcmd
    apply Or.inl
    -- the first call loads the size, a later one goes on from the static variables
    cases next with
    | true =>
        rw [eepromInitReadcmd] at hcmd
        simp only [if_true, Bool.not_true, Bool.false_eq_true, if_false] at hcmd
        split_ifs at hcmd with hend
        · exact absurd hcmd hnew
        · obtain ⟨pos, hpos⟩ : ∃ pos, scriptPos s.ptr = pos := ⟨_, rfl⟩
          rw [hpos] at hcmd hend
          have hlt := hs.used_lt
          exact (mem_readLine_reads_of_lt (s := { s with reads := [] }) hpos hbuf hs.ptr_lt
            (by omega) hcmd).resolve_left hnew
    | false =>
        have hread := read_eq (s := { s with reads := [] }) hs.eeprom eeBaseInit 2 (by decide)
        have hsize : a ∈ (({ s with reads := [] } : Eeprom).read eeBaseInit 2).1.reads →
            eeBaseInit ≤ a := fun ha => (mem_read_size le_rfl ha).resolve_left hnew
        rw [eepromInitReadcmd] at hcmd
        rw [hread] at hcmd hsize
        simp only [Bool.false_eq_true, if_false, Bool.not_true] at hcmd hsize
        split_ifs at hcmd with hend
        · exact hsize hcmd
        · obtain ⟨pos, hpos⟩ : ∃ pos, scriptPos 2 = pos := ⟨_, rfl⟩
          rw [hpos] at hcmd hend
          have hlt := sizeOf16_lt (readAt s.mem eeBaseInit 2)
          have hptr : 2 < 65536 := by decide
          exact (mem_readLine_reads_of_lt (s := { s with
              reads := [] ++ (List.range 2).map fun i => eeBaseInit + i
              used := sizeOf16 (readAt s.mem eeBaseInit 2)
              ptr := 2 }) hpos hbuf hptr (by omega) hcmd).elim hsize id
  · exact Or.inl ((mem_eepromInitAdd_reads hadd).resolve_left hnew)

end Reads

/-! ## Steps -/

/-- The operations that write. -/
inductive SectionOp
  | sfpdbErase
  | getSfpAdd (sfp : SfpInfo) (pos : Nat)
  | phtransWrite (val : BitVec 32)
  | initErase
  | initAdd (args : List (List UInt8))

def sectionStep (s : Eeprom) : SectionOp → Eeprom
  | .sfpdbErase => (eepromSfpdbErase s).1
  | .getSfpAdd sfp pos => (eepromGetSfp s sfp true pos).1
  | .phtransWrite val => (eepromPhtrans s val true).1
  | .initErase => (eepromInitErase s).1
  | .initAdd args => (eepromInitAdd s args).1

/-- The step changes no byte that the functions of another section read before it. -/
def Independent (s : Eeprom) (op : SectionOp) : Prop :=
  ∀ a, (sectionStep s op).mem a ≠ s.mem a →
    match op with
    | .sfpdbErase | .getSfpAdd .. => ¬ CalReads s a ∧ ¬ ScriptReads s a
    | .phtransWrite _ => ¬ SfpReads s a ∧ ¬ ScriptReads s a
    | .initErase | .initAdd _ => ¬ SfpReads s a ∧ ¬ CalReads s a

/-- The count that an add works with. -/
def addCount (s : Eeprom) (pos : Nat) : UInt8 := if pos = 0 then s.mem eeBaseSfp else s.sfpcount

/-- The printed script ends before its addresses wrap around to `limit`. -/
def EndsBefore (s : Eeprom) (limit : Nat) : Prop := eeBaseInit + 2 + shownSize s ≤ 65536 + limit

/-- The step stays away from the overlap, or stores there what is there already. -/
def Safe (s : Eeprom) : SectionOp → Prop
  | .sfpdbErase => EndsBefore s eeBaseSfp ∨ s.mem eeBaseSfp = 0
  | .getSfpAdd sfp pos =>
      sfpsMax ≤ pos ∨ (addCount s pos).toNat = sfpsMax ∨
        EndsBefore s eeBaseSfp ∧
          ((addCount s pos).toNat + 1 < sfpsMax ∨
            sfp.withChksum.bytes.drop 24 = readAt s.mem eeBaseInit 5)
  | .phtransWrite val =>
      EndsBefore s eeBaseCal ∨ readAt s.mem eeBaseCal 4 = wordBytes (val ||| validityBit)
  | .initErase => readAt s.mem eeBaseInit 2 = sizeBytes 0
  | .initAdd _ => False

section Step

variable {s : Eeprom} (h : Sound s)

include h in
theorem sfpdbErase_mem :
    eepromSfpdbErase s = ({ s with mem := writeAt s.mem eeBaseSfp [0] }, 0) := by
  rw [eepromSfpdbErase, write_eq h.eeprom _ _ (by decide)]
  rfl

include h in
theorem phtransWrite_mem (val : BitVec 32) :
    (eepromPhtrans s val true).1 =
      { s with mem := writeAt s.mem eeBaseCal (wordBytes (val ||| validityBit)) } := by
  have hwrite := write_eq h.eeprom eeBaseCal (wordBytes (val ||| validityBit))
    (by rw [length_wordBytes]; decide)
  simp only [eepromPhtrans, if_true, hwrite]

include h in
theorem initErase_mem :
    eepromInitErase s = ({ s with mem := writeAt s.mem eeBaseInit (sizeBytes 0) }, 0) := by
  rw [eepromInitErase, write_eq h.eeprom _ _ (by rw [length_sizeBytes]; decide)]
  rfl

include h in
/-- The state of `eeprom_get_sfp` once the count is known. -/
theorem counted_eq (pos : Nat) :
    ∃ log, (if pos = 0 then readSfpcount s else (s, true)) =
      ({ s with sfpcount := addCount s pos, reads := log }, true) := by
  unfold addCount
  split_ifs with hpos
  · refine ⟨s.reads ++ (List.range 1).map fun i => eeBaseSfp + i, ?_⟩
    rw [readSfpcount, read_eq h.eeprom _ _ (by decide)]
    rfl
  · exact ⟨s.reads, rfl⟩

include h in
theorem addCount_le (pos : Nat) : (addCount s pos).toNat ≤ sfpsMax := by
  unfold addCount
  split_ifs
  · exact h.count_le
  · exact h.sfpcount_le

include h in
/-- An add does nothing, or writes its record behind the others and the new count. -/
theorem getSfpAdd_state (sfp : SfpInfo) (pos : Nat) :
    ((sfpsMax ≤ pos ∨ (addCount s pos).toNat = sfpsMax) ∧
        ∃ log count, count.toNat ≤ sfpsMax ∧
          (eepromGetSfp s sfp true pos).1 = { s with sfpcount := count, reads := log }) ∨
      (pos < sfpsMax ∧ (addCount s pos).toNat < sfpsMax) ∧
        ∃ log, (eepromGetSfp s sfp true pos).1 =
          { s with
            mem := writeAt
              (writeAt s.mem (eeBaseSfp + 1 + (addCount s pos).toNat * sfpInfoSize)
                sfp.withChksum.bytes) eeBaseSfp [addCount s pos + 1]
            sfpcount := addCount s pos + 1
            reads := log } := by
  rcases Nat.lt_or_ge pos sfpsMax with hpos | hpos
  · obtain ⟨log, hcount⟩ := counted_eq h pos
    rw [eepromGetSfp, if_neg (Nat.not_le_of_lt hpos), hcount]
    simp only [Bool.not_true, Bool.false_eq_true, if_false, true_and, false_and, and_false]
    -- the record goes behind those that the count covers
    by_cases hfull : (addCount s pos).toNat = sfpsMax
    · rw [if_pos hfull]
      exact Or.inl ⟨Or.inr hfull, log, _, addCount_le h pos, rfl⟩
    · have hlt : (addCount s pos).toNat < sfpsMax := lt_of_le_of_ne (addCount_le h pos) hfull
      rw [if_neg hfull]
      have hplace : eeBaseSfp + 1 + (addCount s pos).toNat * sfpInfoSize +
          sfp.withChksum.bytes.length ≤ 65536 := by
        have hbase : eeBaseSfp = 4100 := rfl
        have hmax : sfpsMax = 4 := rfl
        have hsize : sfpInfoSize = 29 := rfl
        rw [SfpInfo.length_bytes, hsize]
        omega
      have hrecord := write_eq (s := { s with sfpcount := addCount s pos, reads := log }) h.eeprom
        _ _ hplace
      have hnew := write_eq (s := { s with
          mem := writeAt s.mem (eeBaseSfp + 1 + (addCount s pos).toNat * sfpInfoSize)
            sfp.withChksum.bytes
          sfpcount := addCount s pos + 1
          reads := log }) h.eeprom eeBaseSfp [addCount s pos + 1]
        (show eeBaseSfp + 1 ≤ 65536 by decide)
      refine Or.inr ⟨⟨hpos, hlt⟩, log, ?_⟩
      simp only [addSfpRecord, hrecord, hnew, if_true]
  · rw [eepromGetSfp, if_pos hpos]
    exact Or.inl ⟨Or.inl hpos, s.reads, s.sfpcount, h.sfpcount_le, rfl⟩

include h in
/-- A reader of the script that sees the byte looks behind the base when the script ends
before the byte. -/
theorem eeBaseInit_le_of_scriptReads {a limit : Nat} (hread : ScriptReads s a)
    (hend : EndsBefore s limit) (ha : limit ≤ a) : eeBaseInit ≤ a := by
  unfold EndsBefore at hend
  rcases scriptReads_bound h hread with hbase | hwrap
  · exact hbase
  · omega

/-- A write that changes a byte does so inside its block, and stores something new
there. -/
theorem block_of_change {op : SectionOp} {addr : Nat} {buf : List UInt8}
    (hmem : (sectionStep s op).mem = writeAt s.mem addr buf) {a : Nat}
    (hchange : (sectionStep s op).mem a ≠ s.mem a) :
    (addr ≤ a ∧ a < addr + buf.length) ∧ ¬ HoldsAt s.mem addr buf := by
  rw [hmem] at hchange
  refine ⟨mem_block_of_writeAt_ne _ _ _ hchange, fun hholds => hchange ?_⟩
  rw [hholds.writeAt_eq]

include h in
theorem sfpdbErase_independent (hsafe : Safe s .sfpdbErase) : Independent s .sfpdbErase := by
  intro a hchange
  have hmem : (sectionStep s .sfpdbErase).mem = writeAt s.mem eeBaseSfp [0] :=
    congrArg (fun r => r.1.mem) (sfpdbErase_mem h)
  have hsfp : eeBaseSfp = 4100 := rfl
  have hcal : eeBaseCal = 4096 := rfl
  have hinit : eeBaseInit = 4212 := rfl
  obtain ⟨hblock, hnew⟩ := block_of_change hmem hchange
  rw [List.length_singleton] at hblock
  constructor
  · intro hread
    have := calReads_bound hread
    omega
  · intro hread
    rcases hsafe with hend | hzero
    · have := eeBaseInit_le_of_scriptReads h hread hend (by omega)
      omega
    · have hholds : HoldsAt s.mem eeBaseSfp [0] := congrArg (fun b => [b]) hzero
      exact hnew hholds

include h in
theorem phtransWrite_independent {val : BitVec 32} (hsafe : Safe s (.phtransWrite val)) :
    Independent s (.phtransWrite val) := by
  intro a hchange
  have hmem : (sectionStep s (.phtransWrite val)).mem =
      writeAt s.mem eeBaseCal (wordBytes (val ||| validityBit)) :=
    congrArg Eeprom.mem (phtransWrite_mem h val)
  have hsfp : eeBaseSfp = 4100 := rfl
  have hcal : eeBaseCal = 4096 := rfl
  have hinit : eeBaseInit = 4212 := rfl
  obtain ⟨hblock, hnew⟩ := block_of_change hmem hchange
  rw [length_wordBytes] at hblock
  constructor
  · intro hread
    have := sfpReads_bound hread
    omega
  · intro hread
    rcases hsafe with hend | hword
    · have := eeBaseInit_le_of_scriptReads h hread hend (by omega)
      omega
    · have hholds : HoldsAt s.mem eeBaseCal (wordBytes (val ||| validityBit)) := by
        rw [HoldsAt, length_wordBytes, hword]
      exact hnew hholds

include h in
theorem initErase_independent (hsafe : Safe s .initErase) : Independent s .initErase := by
  intro a hchange
  have hmem : (sectionStep s .initErase).mem = writeAt s.mem eeBaseInit (sizeBytes 0) :=
    congrArg (fun r => r.1.mem) (initErase_mem h)
  have hholds : HoldsAt s.mem eeBaseInit (sizeBytes 0) := by
    rw [HoldsAt, length_sizeBytes]
    exact hsafe
  exact absurd hholds (block_of_change hmem hchange).2

include h in
theorem getSfpAdd_independent {sfp : SfpInfo} {pos : Nat} (hsafe : Safe s (.getSfpAdd sfp pos)) :
    Independent s (.getSfpAdd sfp pos) := by
  intro a hchange
  have hsfp : eeBaseSfp = 4100 := rfl
  have hcal : eeBaseCal = 4096 := rfl
  have hinit : eeBaseInit = 4212 := rfl
  have hmax : sfpsMax = 4 := rfl
  have hsize : sfpInfoSize = 29 := rfl
  have hop : (sectionStep s (.getSfpAdd sfp pos)).mem = (eepromGetSfp s sfp true pos).1.mem := rfl
  rw [hop] at hchange
  rcases getSfpAdd_state h sfp pos with ⟨-, log, count, -, hst⟩ | ⟨⟨hpos, hroom⟩, log, hst⟩
  · rw [hst] at hchange
    exact absurd rfl hchange
  · rw [hst] at hchange
    dsimp only at hchange
    obtain ⟨hend, hlast⟩ : EndsBefore s eeBaseSfp ∧ ((addCount s pos).toNat + 1 < sfpsMax ∨
        sfp.withChksum.bytes.drop 24 = readAt s.mem eeBaseInit 5) :=
      (hsafe.resolve_left (Nat.not_le_of_lt hpos)).resolve_left (Nat.ne_of_lt hroom)
    -- the byte is the count, or it belongs to the record
    by_cases hcount : a = eeBaseSfp
    · constructor
      · intro hread
        have := calReads_bound hread
        omega
      · intro hread
        have := eeBaseInit_le_of_scriptReads h hread hend (by omega)
        omega
    · have hchange : writeAt s.mem (eeBaseSfp + 1 + (addCount s pos).toNat * sfpInfoSize)
          sfp.withChksum.bytes a ≠ s.mem a := by
        have hfar : a < eeBaseSfp ∨ eeBaseSfp + [addCount s pos + 1].length ≤ a := by
          rw [List.length_singleton]
          omega
        rwa [writeAt_outside _ _ _ hfar] at hchange
      have hblock := mem_block_of_writeAt_ne _ _ _ hchange
      rw [SfpInfo.length_bytes, hsize] at hblock
      constructor
      · intro hread
        have := calReads_bound hread
        omega
      · intro hread
        have hbase := eeBaseInit_le_of_scriptReads h hread hend (by omega)
        -- only the fourth record reaches the script, with its last bytes
        have hfourth : (addCount s pos).toNat = 3 := by omega
        have hsame := hlast.resolve_left (by omega)
        obtain ⟨k, rfl⟩ := Nat.exists_eq_add_of_le hbase
        have hbyte : sfp.withChksum.bytes[24 + k]? = some (s.mem (eeBaseInit + k)) := by
          rw [← List.getElem?_drop, hsame,
            List.getElem?_eq_getElem (by rw [length_readAt]; omega), getElem_readAt]
        have hplace : eeBaseInit + k =
            eeBaseSfp + 1 + (addCount s pos).toNat * sfpInfoSize + (24 + k) := by
          rw [hfourth, hsize]
          omega
        have hin : 24 + k < sfp.withChksum.bytes.length := by
          rw [SfpInfo.length_bytes, hsize]
          omega
        apply hchange
        rw [hplace, writeAt_inside _ _ _ hin, ← hplace]
        exact Option.some.inj ((List.getElem?_eq_getElem hin).symm.trans hbyte)

include h in
/-- A step that stays away from the overlap changes no byte of another section. -/
theorem independent_of_safe {op : SectionOp} (hsafe : Safe s op) : Independent s op := by
  cases op with
  | sfpdbErase => exact sfpdbErase_independent h hsafe
  | getSfpAdd sfp pos => exact getSfpAdd_independent h hsafe
  | phtransWrite val => exact phtransWrite_independent h hsafe
  | initErase => exact initErase_independent h hsafe
  | initAdd args => exact hsafe.elim

include h in
/-- Such a step keeps the state sound. -/
theorem sound_of_safe {op : SectionOp} (hsafe : Safe s op) : Sound (sectionStep s op) := by
  have hsfp : eeBaseSfp = 4100 := rfl
  have hcal : eeBaseCal = 4096 := rfl
  have hinit : eeBaseInit = 4212 := rfl
  have hmax : sfpsMax = 4 := rfl
  cases op with
  | sfpdbErase =>
      have hst : sectionStep s .sfpdbErase = { s with mem := writeAt s.mem eeBaseSfp [0] } :=
        congrArg Prod.fst (sfpdbErase_mem h)
      have hcount : writeAt s.mem eeBaseSfp [0] eeBaseSfp = 0 :=
        writeAt_singleton ..
      rw [hst]
      refine ⟨h.eeprom, ?_, h.sfpcount_le, h.ptr_lt, h.used_lt⟩
      dsimp only
      rw [hcount]
      decide
  | getSfpAdd sfp pos =>
      rcases getSfpAdd_state h sfp pos with ⟨-, log, count, hcount, hst⟩ | ⟨⟨-, hroom⟩, log, hst⟩
      · show Sound (eepromGetSfp s sfp true pos).1
        rw [hst]
        exact ⟨h.eeprom, h.count_le, hcount, h.ptr_lt, h.used_lt⟩
      · have hnew : (addCount s pos + 1).toNat ≤ sfpsMax := by
          rw [UInt8.toNat_add, UInt8.toNat_one, Nat.mod_eq_of_lt (by omega)]
          omega
        show Sound (eepromGetSfp s sfp true pos).1
        rw [hst]
        refine ⟨h.eeprom, ?_, hnew, h.ptr_lt, h.used_lt⟩
        dsimp only
        rw [writeAt_singleton]
        exact hnew
  | phtransWrite val =>
      have hst : sectionStep s (.phtransWrite val) = _ := phtransWrite_mem h val
      rw [hst]
      refine ⟨h.eeprom, ?_, h.sfpcount_le, h.ptr_lt, h.used_lt⟩
      dsimp only
      rw [writeAt_outside _ _ _ (by rw [length_wordBytes]; omega)]
      exact h.count_le
  | initErase =>
      have hst : sectionStep s .initErase =
          { s with mem := writeAt s.mem eeBaseInit (sizeBytes 0) } :=
        congrArg Prod.fst (initErase_mem h)
      rw [hst]
      refine ⟨h.eeprom, ?_, h.sfpcount_le, h.ptr_lt, h.used_lt⟩
      dsimp only
      rw [writeAt_outside _ _ _ (by rw [length_sizeBytes]; omega)]
      exact h.count_le
  | initAdd args => exact hsafe.elim

end Step

/-! ## The script on the fourth record -/

section Overlap

variable {s : Eeprom} (h : Sound s)

include h in
/-- A read at the last position reads the bytes under the start of the script, whatever
the count is. -/
theorem sfpReads_overlap {k : Nat} (hk : k < 5) : SfpReads s (eeBaseInit + k) := by
  refine ⟨SfpInfo.zero, false, 3, ?_⟩
  have hstate : (eepromGetSfp { s with reads := [] } SfpInfo.zero false 3).1 =
      (({ s with reads := [] } : Eeprom).read (eeBaseSfp + 1 + 3 * sfpInfoSize) sfpInfoSize).1 :=
    readSfpRecord_state { s with reads := [] } _ 3
  show _ ∈ (eepromGetSfp { s with reads := [] } SfpInfo.zero false 3).1.reads
  rw [hstate, read_eq (s := { s with reads := [] }) h.eeprom _ _ (by decide)]
  refine List.mem_append_right _ (List.mem_map.mpr ⟨24 + k, List.mem_range.mpr ?_, ?_⟩)
  · have hsize : sfpInfoSize = 29 := rfl
    omega
  · show 4100 + 1 + 3 * 29 + (24 + k) = 4212 + k
    omega

include h in
/-- A step of the script that stores another size is not independent. -/
theorem not_independent_of_size {op : SectionOp}
    (hop : op = .initErase ∨ ∃ args, op = .initAdd args)
    (hsize : readAt (sectionStep s op).mem eeBaseInit 2 ≠ readAt s.mem eeBaseInit 2) :
    ¬ Independent s op := by
  intro hind
  have hkept : ∀ k, k < 5 → (sectionStep s op).mem (eeBaseInit + k) = s.mem (eeBaseInit + k) := by
    intro k hk
    by_contra hne
    have hreads := hind _ hne
    rcases hop with rfl | ⟨args, rfl⟩
    · exact hreads.1 (sfpReads_overlap h hk)
    · exact hreads.1 (sfpReads_overlap h hk)
  -- the size is in the first two of the bytes that a read of the database sees
  refine hsize (readAt_congr fun i hlo hhi => ?_)
  obtain ⟨k, rfl⟩ := Nat.exists_eq_add_of_le hlo
  exact hkept k (by omega)

include h in
/-- Erasing the script is independent exactly when there is none. -/
theorem initErase_independent_iff : Independent s .initErase ↔ Safe s .initErase := by
  refine ⟨fun hind => ?_, initErase_independent h⟩
  by_contra hne
  refine not_independent_of_size h (Or.inl rfl) ?_ hind
  have hmem : (sectionStep s .initErase).mem = writeAt s.mem eeBaseInit (sizeBytes 0) :=
    congrArg (fun r => r.1.mem) (initErase_mem h)
  have hwritten : readAt (writeAt s.mem eeBaseInit (sizeBytes 0)) eeBaseInit 2 = sizeBytes 0 :=
    readAt_writeAt s.mem eeBaseInit (sizeBytes 0)
  rw [hmem, hwritten]
  exact fun heq => hne heq.symm

theorem write_ok {t : Eeprom} (ht : t.hasEeprom = true) (offset : Nat) (buf : List UInt8) :
    t.write offset buf = ({ t with mem := storeBytes t.mem offset buf }, true) := if_pos ht

/-- The size that the loop over the arguments counts up to. -/
theorem writeArgs_used {t : Eeprom} (ht : t.hasEeprom = true) (args : List (List UInt8))
    (used : Nat) (hused : used < 65536) :
    (writeArgs t used args).2 = some (u16 (used + (args.flatMap (· ++ [space])).length)) ∧
      (writeArgs t used args).1.hasEeprom = true := by
  induction args generalizing t used with
  | nil =>
      refine ⟨?_, ht⟩
      show some used = some (u16 used)
      rw [u16_eq_self hused]
  | cons arg args ih =>
      -- the counter wraps around after each of the two writes
      have hsum : u16 (u16 (u16 (used + arg.length) + 1) +
          (args.flatMap (· ++ [space])).length) =
          u16 (used + ((arg :: args).flatMap (· ++ [space])).length) := by
        simp only [List.flatMap_cons, List.length_append, List.length_singleton]
        unfold u16
        omega
      have hwrite := write_ok ht (eeBaseInit + 2 + used) arg
      have hwrite' := write_ok
        (t := { t with mem := storeBytes t.mem (eeBaseInit + 2 + used) arg }) ht
        (eeBaseInit + 2 + u16 (used + arg.length)) [space]
      obtain ⟨hrest, heeprom⟩ := ih
        (t := { t with
          mem :=
            storeBytes (storeBytes t.mem (eeBaseInit + 2 + used) arg)
              (eeBaseInit + 2 + u16 (used + arg.length)) [space] })
        ht (u16 (u16 (used + arg.length) + 1)) (u16_lt _)
      simp only [writeArgs, hwrite, hwrite', Bool.not_true, Bool.false_eq_true, if_false]
      exact ⟨hrest.trans (congrArg some hsum), heeprom⟩

include h in
/-- The size that an add leaves. -/
theorem initAdd_size (args : List (List UInt8)) :
    readAt (sectionStep s (.initAdd args)).mem eeBaseInit 2 =
      sizeBytes (u16 ((if sizeOf16 (readAt s.mem eeBaseInit 2) = 0xffff then 0
        else sizeOf16 (readAt s.mem eeBaseInit 2)) + (args.flatMap (· ++ [space])).length)) := by
  have hread := read_eq h.eeprom eeBaseInit 2 (by decide)
  obtain ⟨stored, hstored⟩ : ∃ stored, stored = if sizeOf16 (readAt s.mem eeBaseInit 2) = 0xffff
      then 0 else sizeOf16 (readAt s.mem eeBaseInit 2) := ⟨_, rfl⟩
  have hlt : stored < 65536 := by
    have := sizeOf16_lt (readAt s.mem eeBaseInit 2)
    split_ifs at hstored <;> omega
  obtain ⟨hused, heeprom⟩ := writeArgs_used (t := (s.read eeBaseInit 2).1)
    (by rw [hread]; exact h.eeprom) args stored hlt
  show readAt (eepromInitAdd s args).1.mem eeBaseInit 2 = _
  rw [← hstored]
  rw [hread] at hused heeprom
  simp only [eepromInitAdd, hread, ← hstored]
  obtain ⟨w, hw⟩ : ∃ w, w = writeArgs { s with
      reads := s.reads ++ (List.range 2).map fun i => eeBaseInit + i } stored args := ⟨_, rfl⟩
  rw [← hw] at hused heeprom ⊢
  -- the newline goes wherever the sum of the arguments ends, the size behind the base
  have hpatch := write_ok heeprom
    (eeBaseInit + 2 + u16 (stored + (args.flatMap (· ++ [space])).length) - 1) [newline]
  obtain ⟨m, hm⟩ : ∃ m, m = storeBytes w.1.mem
      (eeBaseInit + 2 + u16 (stored + (args.flatMap (· ++ [space])).length) - 1) [newline] :=
    ⟨_, rfl⟩
  rw [← hm] at hpatch
  have hsize := write_eq (s := { w.1 with mem := m }) heeprom eeBaseInit
    (sizeBytes (u16 (stored + (args.flatMap (· ++ [space])).length)))
    (by rw [length_sizeBytes]; decide)
  have hreadback : ∀ t : Eeprom, (t.read eeBaseInit 2).1.mem = t.mem := by
    intro t
    unfold Eeprom.read
    split_ifs <;> rfl
  simp only [hused, hpatch, hsize, hreadback, Bool.not_true, Bool.false_eq_true, if_false]
  exact readAt_writeAt m eeBaseInit
    (sizeBytes (u16 (stored + (args.flatMap (· ++ [space])).length)))

include h in
/-- Adding a line to the script is never independent: the line makes the size another
one. -/
theorem initAdd_not_independent {args : List (List UInt8)} (hargs : args ≠ [])
    (hline : (args.flatMap (· ++ [space])).length < 65535) : ¬ Independent s (.initAdd args) := by
  refine not_independent_of_size h (Or.inr ⟨args, rfl⟩) fun hsame => ?_
  have hpos : 0 < (args.flatMap (· ++ [space])).length := by
    cases args with
    | nil => exact absurd rfl hargs
    | cons arg args =>
        simp only [List.flatMap_cons, List.length_append, List.length_singleton]
        omega
  rw [initAdd_size h] at hsame
  have hold := congrArg sizeOf16 hsame
  rw [sizeOf16_sizeBytes (u16_lt _)] at hold
  have hlt := sizeOf16_lt (readAt s.mem eeBaseInit 2)
  unfold u16 at hold
  split_ifs at hold <;> omega

end Overlap

/-- Along a run whose steps stay away from the overlap, no step changes a byte of another
section. -/
theorem sections_independent {s : Eeprom} (h : Sound s) {ops : List SectionOp}
    (hops : Along sectionStep Safe s ops) : Along sectionStep Independent s ops :=
  along_of_along Sound (fun _ _ hs hsafe => sound_of_safe hs hsafe)
    (fun _ _ hs hsafe => independent_of_safe hs hsafe) h hops

/-- Three records and a script of four characters. -/
def threeRecords : Eeprom where
  mem a := if a = 4100 then 3 else if a = 4213 then 4 else 0

theorem threeRecords_sound : Sound threeRecords :=
  ⟨rfl, by decide, by decide, by decide, by decide⟩

theorem sections_independent_erased :
    Along sectionStep Independent threeRecords
      [.sfpdbErase, .getSfpAdd SfpInfo.zero 0, .phtransWrite 2389] := by
  refine sections_independent threeRecords_sound ⟨Or.inl ?_, Or.inr (Or.inr ⟨?_, Or.inl ?_⟩),
    Or.inl ?_, trivial⟩
  all_goals
    first
    | unfold EndsBefore; decide +kernel
    | decide +kernel

/-- The fourth record overwrites the size of the script. -/
theorem fourth_record_hits_script :
    ¬ ∀ s ops, Sound s → Along sectionStep Independent s ops := by
  intro h
  obtain ⟨hind, -⟩ := h threeRecords [.getSfpAdd SfpInfo.zero 0] threeRecords_sound
  have hchange : (sectionStep threeRecords (.getSfpAdd SfpInfo.zero 0)).mem 4213 ≠
      threeRecords.mem 4213 := by decide +kernel
  have hread : ScriptReads threeRecords 4213 := by
    apply Or.inl
    unfold ReadBy
    decide +kernel
  exact (hind 4213 hchange).2 hread

end I2c
end Storage
end WrpcSw
