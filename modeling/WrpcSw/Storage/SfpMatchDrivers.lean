import WrpcSw.Storage.SfpMatch

/-!
# Matching an SFP in both drivers

The files have the same text of `eeprom_match_sfp` over their own `eeprom_get_sfp`.  Of the
calls for the positions `0, 1, ..` this module says what they find: `Sdb.sfpReads` from
the directory, the memory and the outcomes of the accesses, and `I2c.sfpReads` from the
memory alone.

* `Sdb.row`, `I2c.row` — the calls find that.
* `eepromMatchSfp_terminates_iff` — the contents for which the search ends.
* `eepromMatchSfp_finds_iff` — those for which it finds the first good record.
-/

namespace WrpcSw
namespace Storage

open Memory CInt

section Row

variable {σ : Type*} (getSfp : σ → SfpInfo → Nat → σ × Int × SfpInfo)

/-- The states that calls for the positions `0, 1, ..` go through. -/
def rowState (s : σ) : Nat → σ
  | 0 => s
  | pos + 1 => (getSfp (rowState s pos) SfpInfo.zero pos).1

variable {getSfp}

/-- A driver whose calls, in the states that `At` describes, find what `v` says. -/
theorem row_of_calls {v : RecordReads} {ret : Int} (At : Nat → σ → Prop) {s : σ} (hs : At 0 s)
    (hcall : ∀ pos t, At pos t → ∃ t', At (pos + 1) t' ∧
      ∀ buf, ∃ ret', getSfp t buf pos = (t', ret', buf.fill (v.bytes pos)))
    (hfirst : ∀ buf, (getSfp s buf 0).2.1 = ret) : Row getSfp v ret (rowState getSfp s) := by
  have hat : ∀ pos, At pos (rowState getSfp s pos) := by
    intro pos
    induction pos with
    | zero => exact hs
    | succ pos ih =>
        obtain ⟨t', ht', hbuf⟩ := hcall pos _ ih
        obtain ⟨ret', hget⟩ := hbuf SfpInfo.zero
        rw [rowState, hget]
        exact ht'
  have hrow : ∀ pos buf, ∃ ret', getSfp (rowState getSfp s pos) buf pos =
      (rowState getSfp s (pos + 1), ret', buf.fill (v.bytes pos)) := by
    intro pos buf
    obtain ⟨t', -, hbuf⟩ := hcall pos _ (hat pos)
    obtain ⟨ret', hget⟩ := hbuf SfpInfo.zero
    rw [rowState, hget]
    exact hbuf buf
  refine ⟨fun buf => ?_, fun pos _ buf => hrow pos buf⟩
  obtain ⟨ret', hget⟩ := hrow 0 buf
  have hret : (getSfp (rowState getSfp s 0) buf 0).2.1 = ret := hfirst buf
  rw [hget] at hret
  rw [hget]
  exact congrArg (fun r => (rowState getSfp s 1, r, buf.fill (v.bytes 0))) hret

end Row

/-! ## The fixed addresses -/

namespace I2c

/-- `eeprom_get_sfp(.., sfp, 0, pos)` -/
def getSfp (s : Eeprom) (sfp : SfpInfo) (pos : Nat) : Eeprom × Int × SfpInfo :=
  eepromGetSfp s sfp false pos

/-- The count byte. -/
def sfpCount (s : Eeprom) : UInt8 := s.mem eeBaseSfp

/-- A record is read if there is an EEPROM, all of it; the first one only if the count is not
zero. -/
def readsRecord (s : Eeprom) (pos : Nat) : Bool :=
  s.hasEeprom && decide (pos < sfpsMax) && decide (pos = 0 → sfpCount s ≠ 0)

def sfpReads (s : Eeprom) : RecordReads where
  record := Sdb.recordAt s.mem eeBaseSfp
  arrived pos := if readsRecord s pos then sfpInfoSize else 0
  whole := readsRecord s
  whole_arrived pos h := by rw [if_pos h]
  behind pos h := by
    rw [if_neg]
    simp only [readsRecord, Bool.and_eq_true, decide_eq_true_eq]
    omega

/-- What the first call returns. -/
def firstReturn (s : Eeprom) : Int :=
  if s.hasEeprom = false then eeRetI2cerr
  else if sfpCount s = 0 then 0
  else if (sfpReads s).Intact 0 then (sfpCount s).toNat
  else eeRetCorrpt

section Call

variable {s t : Eeprom} {pos : Nat} (buf : SfpInfo)

/-- Without an EEPROM nothing is read. -/
theorem getSfp_none (h : t.hasEeprom = false) (hpos : pos < sfpsMax) :
    getSfp t buf pos = (t, eeRetI2cerr, buf) := by
  have hread : ∀ offset size, t.read offset size = (t, none) := fun offset size => by
    simp [Eeprom.read, h]
  have hrecord : readSfpRecord t buf pos = (t, eeRetI2cerr, buf) := by
    simp [readSfpRecord, hread]
  unfold getSfp eepromGetSfp
  rw [if_neg (by omega)]
  by_cases hzero : pos = 0
  · simp [hzero, readSfpcount, hread]
  · simp [hzero, hrecord]

/-- A record is read as it is in the memory. -/
theorem readSfpRecord_eq (h : t.hasEeprom = true) (hpos : pos < sfpsMax) :
    ∃ t' : Eeprom, t'.mem = t.mem ∧ t'.hasEeprom = t.hasEeprom ∧ ∀ buf : SfpInfo,
      readSfpRecord t buf pos =
        (t', if (Sdb.recordAt t.mem eeBaseSfp pos).checksum =
              (Sdb.recordAt t.mem eeBaseSfp pos).chksum then (t.sfpcount.toNat : Int)
            else eeRetCorrpt, Sdb.recordAt t.mem eeBaseSfp pos) := by
  have hin : eeBaseSfp + 1 + pos * sfpInfoSize + sfpInfoSize ≤ 65536 := by
    unfold eeBaseSfp sfpInfoSize
    unfold sfpsMax at hpos
    omega
  have hread := read_eq h (eeBaseSfp + 1 + pos * sfpInfoSize) sfpInfoSize hin
  refine ⟨(t.read (eeBaseSfp + 1 + pos * sfpInfoSize) sfpInfoSize).1, by rw [hread],
    by rw [hread], fun buf => ?_⟩
  have hfill : buf.fill (readAt t.mem (eeBaseSfp + 1 + pos * sfpInfoSize) sfpInfoSize) =
      Sdb.recordAt t.mem eeBaseSfp pos := buf.fill_bytes (Sdb.recordAt t.mem eeBaseSfp pos)
  rw [readSfpRecord, hread]
  simp only [hfill]
  by_cases hsum : (Sdb.recordAt t.mem eeBaseSfp pos).checksum =
      (Sdb.recordAt t.mem eeBaseSfp pos).chksum
  · rw [if_neg (not_not.mpr hsum), if_pos hsum]
  · rw [if_pos hsum, if_neg hsum]

/-- The call for a later position. -/
theorem getSfp_later (hzero : pos ≠ 0) (hpos : pos < sfpsMax) :
    getSfp t buf pos = readSfpRecord t buf pos := by
  unfold getSfp eepromGetSfp
  rw [if_neg (by omega)]
  simp [hzero]

/-- The first call reads the count. -/
theorem getSfp_first (h : t.hasEeprom = true) :
    ∃ t' : Eeprom, t'.mem = t.mem ∧ t'.hasEeprom = t.hasEeprom ∧ t'.sfpcount = sfpCount t ∧
      ∀ buf : SfpInfo, getSfp t buf 0 =
        if sfpCount t = 0 then (t', 0, buf) else readSfpRecord t' buf 0 := by
  have hin : eeBaseSfp + 1 ≤ 65536 := by
    unfold eeBaseSfp
    omega
  have hread := read_eq h eeBaseSfp 1 hin
  have hcount : readSfpcount t = ((readSfpcount t).1, true) ∧ (readSfpcount t).1.mem = t.mem ∧
      (readSfpcount t).1.hasEeprom = t.hasEeprom ∧ (readSfpcount t).1.sfpcount = sfpCount t := by
    unfold readSfpcount
    rw [hread]
    exact ⟨rfl, rfl, rfl, rfl⟩
  obtain ⟨hok, hmem, hpresent, hvalue⟩ := hcount
  refine ⟨(readSfpcount t).1, hmem, hpresent, hvalue, fun buf => ?_⟩
  unfold getSfp eepromGetSfp
  rw [if_neg (by decide)]
  simp only [if_true]
  rw [hok]
  simp only [hvalue]
  by_cases hzero : sfpCount t = 0
  · simp [hzero]
  · simp [hzero]

end Call

/-- What a call that reads its record leaves on the stack, and what one that does not. -/
theorem fill_bytes (s : Eeprom) (pos : Nat) (buf : SfpInfo) :
    buf.fill ((sfpReads s).bytes pos) =
      if readsRecord s pos then Sdb.recordAt s.mem eeBaseSfp pos else buf := by
  unfold RecordReads.bytes
  simp only [sfpReads]
  split_ifs with hreads
  · rw [List.take_of_length_le (by simp), SfpInfo.fill_bytes]
  · rw [List.take_zero, RecordReads.fill_nil]

theorem intact_iff {s : Eeprom} (hhas : s.hasEeprom = true) (hcount : sfpCount s ≠ 0) :
    (sfpReads s).Intact 0 ↔
      (Sdb.recordAt s.mem eeBaseSfp 0).checksum = (Sdb.recordAt s.mem eeBaseSfp 0).chksum := by
  simp [RecordReads.Intact, sfpReads, readsRecord, hhas, hcount, sfpsMax]

/-- The first call returns the count, or finds the first record corrupted. -/
theorem firstReturn_record {s : Eeprom} (hhas : s.hasEeprom = true) (hcount : sfpCount s ≠ 0) :
    firstReturn s =
      if (Sdb.recordAt s.mem eeBaseSfp 0).checksum = (Sdb.recordAt s.mem eeBaseSfp 0).chksum then
        ((sfpCount s).toNat : Int)
      else eeRetCorrpt := by
  unfold firstReturn
  rw [if_neg (by simp [hhas]), if_neg hcount]
  simp only [intact_iff hhas hcount]

/-- The call for a position keeps the memory of `s`, and leaves on the stack what it gives. -/
def Answers (s t : Eeprom) (pos : Nat) : Prop :=
  ∃ t' : Eeprom, (t'.mem = s.mem ∧ t'.hasEeprom = s.hasEeprom) ∧
    ∀ buf, ∃ ret, getSfp t buf pos = (t', ret, buf.fill ((sfpReads s).bytes pos)) ∧
      (pos = 0 → ret = firstReturn s)

section Answers

variable {s t : Eeprom} (hmem : t.mem = s.mem) (hpresent : t.hasEeprom = s.hasEeprom)

include hmem hpresent

theorem answers_none (hhas : s.hasEeprom = false) {pos : Nat} (hpos : pos < sfpsMax) :
    Answers s t pos := by
  have hreads : readsRecord s pos = false := by simp [readsRecord, hhas]
  refine ⟨t, ⟨hmem, hpresent⟩, fun buf => ⟨eeRetI2cerr, ?_, fun _ => ?_⟩⟩
  · rw [fill_bytes, getSfp_none buf (hpresent.trans hhas) hpos, hreads]
    rfl
  · rw [firstReturn, if_pos hhas]

theorem answers_first (hhas : s.hasEeprom = true) : Answers s t 0 := by
  have hthere : t.hasEeprom = true := hpresent.trans hhas
  obtain ⟨t₁, hmem₁, hpresent₁, hvalue, hcall⟩ := getSfp_first hthere
  have hcount : sfpCount t = sfpCount s := by
    unfold sfpCount
    rw [hmem]
  by_cases hnone : sfpCount s = 0
  · have hreads : readsRecord s 0 = false := by simp [readsRecord, hnone]
    refine ⟨t₁, ⟨hmem₁.trans hmem, hpresent₁.trans hpresent⟩, fun buf => ⟨0, ?_, fun _ => ?_⟩⟩
    · rw [fill_bytes, hcall, hcount, if_pos hnone, hreads]
      rfl
    · rw [firstReturn, if_neg (by simp [hhas]), if_pos hnone]
  · have hreads : readsRecord s 0 = true := by simp [readsRecord, hnone, hhas, sfpsMax]
    obtain ⟨t₂, hmem₂, hpresent₂, hrecord⟩ :=
      @readSfpRecord_eq t₁ 0 (hpresent₁.trans hthere) (by decide)
    refine ⟨t₂, ⟨(hmem₂.trans hmem₁).trans hmem, (hpresent₂.trans hpresent₁).trans hpresent⟩,
      fun buf => ⟨(readSfpRecord t₁ buf 0).2.1, ?_, fun _ => ?_⟩⟩
    · rw [fill_bytes, hcall, hcount, if_neg hnone, hreads, if_pos rfl, hrecord, hmem₁, hmem]
    · rw [hrecord, hvalue, hcount, hmem₁, hmem, firstReturn_record hhas hnone]

theorem answers_later (hhas : s.hasEeprom = true) {pos : Nat} (hzero : pos ≠ 0)
    (hpos : pos < sfpsMax) : Answers s t pos := by
  have hreads : readsRecord s pos = true := by simp [readsRecord, hzero, hhas, hpos]
  obtain ⟨t', hmem', hpresent', hrecord⟩ := readSfpRecord_eq (hpresent.trans hhas) hpos
  refine ⟨t', ⟨hmem'.trans hmem, hpresent'.trans hpresent⟩,
    fun buf => ⟨(readSfpRecord t buf pos).2.1, ?_, fun h => absurd h hzero⟩⟩
  rw [fill_bytes, getSfp_later buf hzero hpos, hreads, if_pos rfl, hrecord, hmem]

theorem answers_behind {pos : Nat} (hpos : sfpsMax ≤ pos) : Answers s t pos := by
  have hreads : readsRecord s pos = false := by
    simp [readsRecord, Nat.not_lt.mpr hpos]
  refine ⟨t, ⟨hmem, hpresent⟩, fun buf => ⟨eeRetPoserr, ?_, fun h => ?_⟩⟩
  · rw [fill_bytes, hreads]
    exact if_pos hpos
  · rw [h] at hpos
    exact absurd hpos (by decide)

/-- A call, in any state with the same memory. -/
theorem getSfp_call (pos : Nat) : Answers s t pos := by
  by_cases hpos : pos < sfpsMax
  · cases hhas : s.hasEeprom with
    | false => exact answers_none hmem hpresent hhas hpos
    | true =>
        by_cases hzero : pos = 0
        · rw [hzero]
          exact answers_first hmem hpresent hhas
        · exact answers_later hmem hpresent hhas hzero hpos
  · exact answers_behind hmem hpresent (Nat.not_lt.mp hpos)

end Answers

/-- The calls for the positions find what the memory has. -/
theorem row (s : Eeprom) : Row getSfp (sfpReads s) (firstReturn s) (rowState getSfp s) := by
  apply row_of_calls fun _ t => t.mem = s.mem ∧ t.hasEeprom = s.hasEeprom
  · exact ⟨rfl, rfl⟩
  · rintro pos t ⟨hmem, hpresent⟩
    obtain ⟨t', hkept, hcall⟩ := getSfp_call hmem hpresent pos
    refine ⟨t', hkept, fun buf => ?_⟩
    obtain ⟨ret, hget, -⟩ := hcall buf
    exact ⟨ret, hget⟩
  · intro buf
    obtain ⟨t', -, hcall⟩ := getSfp_call (s := s) rfl rfl 0
    obtain ⟨ret, hget, hret⟩ := hcall buf
    rw [hget]
    exact hret rfl

/-! ### What the search does -/

section Search

variable (s : Eeprom) (dbsfp sfp : SfpInfo)

/-- The record on the stack is the record of the memory. -/
theorem hit_iff {s : Eeprom} (hhas : s.hasEeprom = true) (hcount : sfpCount s ≠ 0) {pos : Nat}
    (hpos : pos < sfpsMax) :
    (sfpReads s).Hit dbsfp sfp pos ↔ RecordReads.SamePn (Sdb.recordAt s.mem eeBaseSfp pos) sfp := by
  have hwhole : (sfpReads s).whole pos = true := by
    simp [sfpReads, readsRecord, hhas, hcount, hpos]
  unfold RecordReads.Hit
  rw [(sfpReads s).buffer_whole dbsfp hwhole]
  rfl

/-- The search ends if there is nothing to look at, if the index can reach the count of an intact
database, or if a record matches. -/
theorem terminates_iff :
    (eepromMatchSfp getSfp 256 s dbsfp sfp).isSome ↔
      s.hasEeprom = false ∨ sfpCount s = 0 ∨
        ((Sdb.recordAt s.mem eeBaseSfp 0).checksum = (Sdb.recordAt s.mem eeBaseSfp 0).chksum ∧
          ((sfpCount s).toNat ≤ 127 ∨ (sfpCount s).toNat = 255)) ∨
        ∃ pos < 4, RecordReads.SamePn (Sdb.recordAt s.mem eeBaseSfp pos) sfp := by
  have hiff : (eepromMatchSfp getSfp 256 (rowState getSfp s 0) dbsfp sfp).isSome ↔ _ :=
    match_terminates_iff (row s)
  rw [show rowState getSfp s 0 = s from rfl] at hiff
  rw [hiff]
  cases hhas : s.hasEeprom with
  | false =>
      rw [firstReturn, if_pos hhas]
      simp [boundOf, i8, eeRetI2cerr]
  | true =>
      by_cases hcount : sfpCount s = 0
      · rw [firstReturn, if_neg (by simp [hhas]), if_pos hcount]
        simp [boundOf, i8, hcount]
      · have hhits : (∃ pos < 4, (sfpReads s).Hit dbsfp sfp pos) ↔
            ∃ pos < 4, RecordReads.SamePn (Sdb.recordAt s.mem eeBaseSfp pos) sfp := by
          constructor
          · rintro ⟨pos, hpos, hhit⟩
            exact ⟨pos, hpos, (hit_iff dbsfp sfp hhas hcount hpos).mp hhit⟩
          · rintro ⟨pos, hpos, hhit⟩
            exact ⟨pos, hpos, (hit_iff dbsfp sfp hhas hcount hpos).mpr hhit⟩
        rw [firstReturn_record hhas hcount, hhits]
        by_cases hsum : (Sdb.recordAt s.mem eeBaseSfp 0).checksum =
            (Sdb.recordAt s.mem eeBaseSfp 0).chksum
        · rw [if_pos hsum, boundOf_count]
          have hle : ((sfpCount s).toNat : Int) ≤ 127 ↔ (sfpCount s).toNat ≤ 127 := by omega
          have hfull : ((sfpCount s).toNat : Int) = 255 ↔ (sfpCount s).toNat = 255 := by omega
          simp only [hsum, hcount, Bool.true_eq_false, false_or, true_and, hle, hfull, or_assoc]
        · rw [if_neg hsum]
          simp only [hsum, hcount, Bool.true_eq_false, false_or, false_and]
          rw [show boundOf eeRetCorrpt = 253 by decide]
          simp

/-- A corrupted first record makes a bound that the index cannot reach. -/
theorem boundOf_corrupted {s : Eeprom} (hhas : s.hasEeprom = true) (hcount : sfpCount s ≠ 0)
    (hsum : (Sdb.recordAt s.mem eeBaseSfp 0).checksum ≠
      (Sdb.recordAt s.mem eeBaseSfp 0).chksum) : boundOf (firstReturn s) = 253 := by
  rw [firstReturn_record hhas hcount, if_neg hsum]
  decide

/-- A call in a memory without a record that matches leaves none on the stack. -/
theorem getSfp_misses {s t : Eeprom} {sfp buf : SfpInfo} {pos : Nat}
    (hmiss : ∀ pos < 4, ¬ RecordReads.SamePn (Sdb.recordAt s.mem eeBaseSfp pos) sfp)
    (hmem : t.mem = s.mem) (hpresent : t.hasEeprom = s.hasEeprom)
    (hbuf : ¬ RecordReads.SamePn buf sfp) :
    ((getSfp t buf pos).1.mem = s.mem ∧ (getSfp t buf pos).1.hasEeprom = s.hasEeprom) ∧
      ¬ RecordReads.SamePn (getSfp t buf pos).2.2 sfp ∧
      (pos = 0 → (getSfp t buf pos).2.1 = firstReturn s) := by
  obtain ⟨t', hkept, hcall⟩ := getSfp_call hmem hpresent pos
  obtain ⟨ret, hget, hret⟩ := hcall buf
  rw [hget]
  refine ⟨hkept, ?_, hret⟩
  rw [fill_bytes]
  split_ifs with hreads
  · have hpos : pos < 4 := by
      simp only [readsRecord, Bool.and_eq_true, decide_eq_true_eq] at hreads
      exact hreads.1.2
    exact hmiss pos hpos
  · exact hbuf

/-- A first record with a wrong checksum, and no record that matches. -/
theorem search_forever {s : Eeprom} (hhas : s.hasEeprom = true) (hcount : sfpCount s ≠ 0)
    (hsum : (Sdb.recordAt s.mem eeBaseSfp 0).checksum ≠
      (Sdb.recordAt s.mem eeBaseSfp 0).chksum)
    (hmiss : ∀ pos < 4, ¬ RecordReads.SamePn (Sdb.recordAt s.mem eeBaseSfp pos) sfp) (calls : Nat) :
    eepromMatchSfp getSfp calls s dbsfp sfp = none := by
  have hreturn := boundOf_corrupted hhas hcount hsum
  cases calls with
  | zero => rfl
  | succ calls =>
      have hstart := match_start (row s) dbsfp sfp calls
      rw [show rowState getSfp s 0 = s from rfl, hreturn, if_neg (by decide),
        if_neg (fun hhit => hmiss 0 (by decide) ((hit_iff dbsfp sfp hhas hcount (by decide)).mp
          hhit))] at hstart
      rw [hstart]
      -- every call leaves the memory alone and a record that does not match
      refine matchLoop_forever getSfp (I := fun t buf => (t.mem = s.mem ∧
        t.hasEeprom = s.hasEeprom) ∧ ¬ RecordReads.SamePn buf sfp) (by decide) (by decide)
        (fun t buf pos ht => ?_) calls ?_ (by decide) (by decide)
      · obtain ⟨⟨hmem, hpresent⟩, hbuf⟩ := ht
        obtain ⟨hkept, hmissed, hret⟩ := @getSfp_misses s t sfp buf pos hmiss hmem hpresent hbuf
        refine ⟨⟨hkept, hmissed⟩, hmissed, fun hzero => ?_⟩
        rw [hret hzero]
        exact hreturn
      · obtain ⟨t', hkept, hget⟩ := getSfp_call (s := s) rfl rfl 0
        obtain ⟨ret, hget, -⟩ := hget SfpInfo.zero
        refine ⟨?_, fun hsame => hmiss 0 (by decide)
          ((hit_iff dbsfp sfp hhas hcount (by decide)).mp hsame)⟩
        rw [rowState, rowState, hget]
        exact hkept

/-- The search finds the first good record if the first one is intact and the first that matches
has its calibration, or if the first one is corrupted and yet some record matches. -/
theorem finds_iff (hmax : (sfpCount s).toNat ≤ 4) :
    Finds (sfpReads s) (sfpCount s).toNat sfp
        (fun calls => eepromMatchSfp getSfp calls s dbsfp sfp) ↔
      (s.hasEeprom = true → sfpCount s ≠ 0 →
        if (Sdb.recordAt s.mem eeBaseSfp 0).checksum =
            (Sdb.recordAt s.mem eeBaseSfp 0).chksum then
          Undisturbed (sfpReads s) (sfpCount s).toNat (sfpCount s).toNat dbsfp sfp
        else (∃ pos < 4, RecordReads.SamePn (Sdb.recordAt s.mem eeBaseSfp pos) sfp) ∧
          Undisturbed (sfpReads s) 4 (sfpCount s).toNat dbsfp sfp) := by
  cases hhas : s.hasEeprom with
  | false =>
      have hbound : boundOf (firstReturn s) = 0xff := by
        rw [firstReturn, if_pos hhas]
        decide
      refine (finds_of_none (match_none (row s) dbsfp sfp (Or.inr hbound) 0)).trans ?_
      simp only [Bool.false_eq_true, false_implies, iff_true]
      intro pos _ hgood
      have hwhole := hgood.1.1
      simp [sfpReads, readsRecord, hhas] at hwhole
  | true =>
      by_cases hcount : sfpCount s = 0
      · have hbound : boundOf (firstReturn s) = 0 := by
          rw [firstReturn, if_neg (by simp [hhas]), if_pos hcount]
          decide
        refine (finds_of_none (match_none (row s) dbsfp sfp (Or.inl hbound) 0)).trans ?_
        simp [hcount]
      · have hpos : 0 < (sfpCount s).toNat := by
          have hne : (sfpCount s).toNat ≠ 0 := fun hzero => hcount (UInt8.toNat_inj.mp hzero)
          omega
        have hhit : ∀ pos, pos < 4 → ((sfpReads s).Hit dbsfp sfp pos ↔
            RecordReads.SamePn (Sdb.recordAt s.mem eeBaseSfp pos) sfp) := fun pos hlt =>
          hit_iff dbsfp sfp hhas hcount hlt
        simp only [true_implies, ne_eq, hcount, not_false_eq_true]
        split_ifs with hsum
        · have hbound : boundOf (firstReturn s) = ((sfpCount s).toNat : Int) := by
            rw [firstReturn_record hhas hcount, if_pos hsum, boundOf_count]
          exact finds_iff_of_count (row s) hbound hpos hmax
        · have hbound := boundOf_corrupted hhas hcount hsum
          by_cases hsome : ∃ pos < 4, RecordReads.SamePn (Sdb.recordAt s.mem eeBaseSfp pos) sfp
          · obtain ⟨pos, hlt, hsame⟩ := hsome
            have hfour : ((4 : Nat) : Int) ≤ boundOf (firstReturn s) := by
              rw [hbound]
              decide
            have hiff : Finds _ (sfpCount s).toNat sfp _ ↔ Undisturbed _ 4 _ dbsfp sfp :=
              finds_iff_of_bound (row s) (by omega) hfour le_rfl
                ⟨pos, hlt, (hhit pos hlt).mpr hsame⟩
            exact hiff.trans ⟨fun h => ⟨⟨pos, hlt, hsame⟩, h⟩, fun h => h.2⟩
          · have hforever := search_forever dbsfp sfp hhas hcount hsum
              (fun pos hlt hsame => hsome ⟨pos, hlt, hsame⟩)
            constructor
            · rintro ⟨calls, s', ret, sfp', hresult, -⟩
              cases (hforever calls).symm.trans hresult
            · rintro ⟨hsame, -⟩
              exact absurd hsame hsome

end Search

end I2c

/-! ## The files -/

namespace Sdb

/-- `eeprom_get_sfp(.., sfp, 0, pos)` -/
def getSfp (s : Eeprom) (sfp : SfpInfo) (pos : Nat) : Eeprom × Int × SfpInfo :=
  eepromGetSfp s sfp false pos

/-- Where the database is. -/
def sfpFile (s : Eeprom) : Option (Nat × Nat) := s.vol.files sdbDevSfp

def sfpBase (s : Eeprom) : Nat := ((sfpFile s).map Prod.fst).getD 0

/-- The count byte. -/
def sfpCount (s : Eeprom) : UInt8 := s.vol.dev.mem (sfpBase s)

/-- What a call makes of its record: the outcomes that are left, how many bytes of the record
arrive, and whether it is all of them. -/
structure GetCall where
  rest : List Outcome
  arrived : Nat
  whole : Bool

/-- The read of the record at a position. -/
def recordCall (len : Nat) (outs : List Outcome) (pos : Nat) : GetCall where
  rest := outs.tail
  arrived := (outs.headD .ok).bytes (min sfpInfoSize (len - (1 + pos * sfpInfoSize)))
  whole := decide (outs.headD .ok = .ok ∧ 1 + pos * sfpInfoSize + sfpInfoSize ≤ len)

/-- A call takes one outcome for the directory, one for the count if it is the first, and one for
the record. -/
def getCall (s : Eeprom) (outs : List Outcome) (pos : Nat) : GetCall :=
  if sfpsMax ≤ pos then ⟨outs, 0, false⟩
  else match sfpFile s with
    | none => ⟨outs.tail, 0, false⟩
    | some (_, len) =>
        if outs.headD .ok ≠ .ok then ⟨outs.tail, 0, false⟩
        else if pos = 0 then
          if outs.tail.headD .ok = .ok ∧ 1 ≤ len ∧ sfpCount s ≠ 0 then
            recordCall len outs.tail.tail 0
          else ⟨outs.tail.tail, 0, false⟩
        else recordCall len outs.tail pos

/-- The outcomes before the call for a position. -/
def outcomesAt (s : Eeprom) : Nat → List Outcome
  | 0 => s.vol.dev.outcomes
  | pos + 1 => (getCall s (outcomesAt s pos) pos).rest

theorem recordCall_arrived {len : Nat} {outs : List Outcome} {pos : Nat}
    (h : (recordCall len outs pos).whole = true) :
    sfpInfoSize ≤ (recordCall len outs pos).arrived := by
  simp only [recordCall, decide_eq_true_eq] at h ⊢
  rw [h.1]
  simp only [Outcome.bytes]
  omega

/-- A call reads its record, or nothing. -/
theorem getCall_cases (s : Eeprom) (outs : List Outcome) (pos : Nat) :
    (∃ rest, getCall s outs pos = ⟨rest, 0, false⟩) ∨
      ∃ len outs', getCall s outs pos = recordCall len outs' pos := by
  unfold getCall
  split
  · exact Or.inl ⟨_, rfl⟩
  · split
    · exact Or.inl ⟨_, rfl⟩
    · split_ifs with hout hzero hcount
      · exact Or.inl ⟨_, rfl⟩
      · rw [hzero]
        exact Or.inr ⟨_, _, rfl⟩
      · exact Or.inl ⟨_, rfl⟩
      · exact Or.inr ⟨_, _, rfl⟩

theorem getCall_arrived {s : Eeprom} {outs : List Outcome} {pos : Nat}
    (h : (getCall s outs pos).whole = true) : sfpInfoSize ≤ (getCall s outs pos).arrived := by
  rcases getCall_cases s outs pos with ⟨rest, hcall⟩ | ⟨len, outs', hcall⟩
  · rw [hcall] at h
    cases h
  · rw [hcall] at h ⊢
    exact recordCall_arrived h

def sfpReads (s : Eeprom) : RecordReads where
  record := recordAt s.vol.dev.mem (sfpBase s)
  arrived pos := (getCall s (outcomesAt s pos) pos).arrived
  whole pos := (getCall s (outcomesAt s pos) pos).whole
  whole_arrived _ h := getCall_arrived h
  behind pos h := by rw [getCall, if_pos h]

/-- The memory is that of `s`, and the coming outcomes are those before a position. -/
structure At (s : Eeprom) (pos : Nat) (t : Eeprom) : Prop where
  files : t.vol.files = s.vol.files
  mem : t.vol.dev.mem = s.vol.dev.mem
  outcomes : t.vol.dev.outcomes = outcomesAt s pos

section Call

variable {s t : Eeprom} {base len : Nat}

/-- A read of the open file. -/
theorem fread_open (h : t.vol.Open base len) (offset count : Nat) :
    ∃ w : Volume, t.fread offset count =
        ({ t with vol := w }, decide (t.vol.dev.outcome = .ok ∧ offset + count ≤ len),
          readAt t.vol.dev.mem (base + offset)
            (t.vol.dev.outcome.bytes (min count (len - offset)))) ∧
      w.Open base len ∧ w.dev = t.vol.dev.next ∧ w.files = t.vol.files := by
  obtain ⟨w, ret, hread, hopen, hdev, hfiles, hret⟩ := sdbfsFread_open h offset count
  refine ⟨w, ?_, hopen, hdev, hfiles⟩
  unfold EepromOf.fread
  rw [hread]
  simp only [hret]

theorem readAt_take (m : Nat → UInt8) (addr : Nat) {n k : Nat} (h : n ≤ k) :
    readAt m addr n = (readAt m addr k).take n := by
  obtain ⟨rest, rfl⟩ := Nat.exists_eq_add_of_le h
  rw [readAt_add, List.take_left' (length_readAt m addr n)]

/-- The part of a call that reads the record. -/
theorem readSfpRecord_call (h : t.vol.Open base len) (pos : Nat) :
    ∃ (t' : Eeprom) (ret : Int), t'.vol.files = t.vol.files ∧ t'.vol.dev = t.vol.dev.next ∧
      (∀ buf : SfpInfo, readSfpRecord t buf pos =
        (t', ret, buf.fill ((recordAt t.vol.dev.mem base pos).bytes.take
          (recordCall len t.vol.dev.outcomes pos).arrived))) ∧
      ret = if (recordCall len t.vol.dev.outcomes pos).whole = true ∧
          (recordAt t.vol.dev.mem base pos).checksum = (recordAt t.vol.dev.mem base pos).chksum
        then (t.sfpcount.toNat : Int) else -1 := by
  obtain ⟨w, hread, hopen, hdev, hfiles⟩ :=
    fread_open h (1 + pos * sfpInfoSize) sfpInfoSize
  have hle : (recordCall len t.vol.dev.outcomes pos).arrived ≤ sfpInfoSize := by
    unfold recordCall Outcome.bytes
    simp only
    split <;> omega
  have hbytes : readAt t.vol.dev.mem (base + (1 + pos * sfpInfoSize))
      (t.vol.dev.outcome.bytes (min sfpInfoSize (len - (1 + pos * sfpInfoSize)))) =
        (recordAt t.vol.dev.mem base pos).bytes.take
          (recordCall len t.vol.dev.outcomes pos).arrived := by
    rw [← Nat.add_assoc]
    exact readAt_take _ _ hle
  rw [hbytes] at hread
  refine ⟨EepromOf.close { t with vol := w }, _, hfiles, hdev, fun buf => ?_, rfl⟩
  unfold readSfpRecord
  rw [hread]
  by_cases hwhole : (recordCall len t.vol.dev.outcomes pos).whole = true
  · have hok : decide (t.vol.dev.outcome = .ok ∧ 1 + pos * sfpInfoSize + sfpInfoSize ≤ len) =
        true := hwhole
    have hfill : buf.fill ((recordAt t.vol.dev.mem base pos).bytes.take
        (recordCall len t.vol.dev.outcomes pos).arrived) = recordAt t.vol.dev.mem base pos := by
      rw [List.take_of_length_le, SfpInfo.fill_bytes]
      rw [SfpInfo.length_bytes]
      exact recordCall_arrived hwhole
    simp only [hok, hfill, hwhole, true_and, Bool.not_true, Bool.false_eq_true, if_false]
    by_cases hsum : (recordAt t.vol.dev.mem base pos).checksum =
        (recordAt t.vol.dev.mem base pos).chksum
    · rw [if_neg (not_not.mpr hsum), if_pos hsum]
    · rw [if_pos hsum, if_neg hsum]
  · have hok : decide (t.vol.dev.outcome = .ok ∧ 1 + pos * sfpInfoSize + sfpInfoSize ≤ len) =
        false := Bool.eq_false_iff.mpr hwhole
    simp only [hok, Bool.not_false, if_true]
    rw [if_neg (fun hboth => hwhole hboth.1)]

/-- What the first call returns: the count of a database whose first record is intact, otherwise
an error or zero. -/
def FirstReturn (s : Eeprom) (ret : Int) : Prop :=
  if (sfpReads s).Intact 0 then ret = (sfpCount s).toNat else ret = -1 ∨ ret = 0

/-- A call that reads nothing leaves the stack alone. -/
theorem fill_of_nothing {pos : Nat} (h : (getCall s (outcomesAt s pos) pos).arrived = 0)
    (buf : SfpInfo) : buf.fill ((sfpReads s).bytes pos) = buf := by
  have hbytes : (sfpReads s).bytes pos = [] := by
    unfold RecordReads.bytes
    rw [show (sfpReads s).arrived pos = 0 from h, List.take_zero]
  rw [hbytes, RecordReads.fill_nil]

theorem firstReturn_of_nothing (h : (getCall s (outcomesAt s 0) 0).whole = false) {ret : Int}
    (hret : ret = -1 ∨ ret = 0) : FirstReturn s ret := by
  have hnot : ¬ (sfpReads s).Intact 0 := by
    rintro ⟨hwhole, -⟩
    rw [show (sfpReads s).whole 0 = false from h] at hwhole
    cases hwhole
  unfold FirstReturn
  rwa [if_neg hnot]

/-- The call for a position there is not. -/
theorem getSfp_behind {pos : Nat} (h : At s pos t) (hpos : sfpsMax ≤ pos) :
    At s (pos + 1) t ∧
      ∀ buf, getSfp t buf pos = (t, eeRetPoserr, buf.fill ((sfpReads s).bytes pos)) := by
  have hcall : getCall s (outcomesAt s pos) pos = ⟨outcomesAt s pos, 0, false⟩ := by
    rw [getCall, if_pos hpos]
  refine ⟨⟨h.files, h.mem, ?_⟩, fun buf => ?_⟩
  · rw [outcomesAt, hcall]
    exact h.outcomes
  · rw [fill_of_nothing (by rw [hcall])]
    exact if_pos hpos

/-- A call whose file is not there, or whose directory cannot be read. -/
theorem getSfp_closed {pos : Nat} (h : At s pos t) (hpos : pos < sfpsMax)
    (hopen : t.openId sdbDevSfp = ({ t with vol := { t.vol with dev := t.vol.dev.next } }, false))
    (hcall : getCall s (outcomesAt s pos) pos = ⟨(outcomesAt s pos).tail, 0, false⟩) :
    ∃ t' : Eeprom, At s (pos + 1) t' ∧
      ∀ buf, getSfp t buf pos = (t', -1, buf.fill ((sfpReads s).bytes pos)) := by
  refine ⟨{ t with vol := { t.vol with dev := t.vol.dev.next } }, ⟨h.files, h.mem, ?_⟩,
    fun buf => ?_⟩
  · rw [outcomesAt, hcall, ← h.outcomes]
    rfl
  · rw [fill_of_nothing (by rw [hcall])]
    unfold getSfp eepromGetSfp
    rw [if_neg (by omega), hopen]
    rfl

/-- The outcomes of a call whose directory is read. -/
theorem getCall_open {outs : List Outcome} {pos : Nat} (hpos : pos < sfpsMax)
    (hfile : sfpFile s = some (base, len)) (hout : outs.headD .ok = .ok) :
    getCall s outs pos =
      if pos = 0 then
        if outs.tail.headD .ok = .ok ∧ 1 ≤ len ∧ sfpCount s ≠ 0 then recordCall len outs.tail.tail 0
        else ⟨outs.tail.tail, 0, false⟩
      else recordCall len outs.tail pos := by
  unfold getCall
  rw [if_neg (Nat.not_le.mpr hpos), hfile]
  exact if_neg (not_not.mpr hout)

/-- The bytes that arrive in a call that reads its record. -/
theorem bytes_of_record {outs : List Outcome} {pos : Nat} (hfile : sfpFile s = some (base, len))
    (hcall : getCall s (outcomesAt s pos) pos = recordCall len outs pos) :
    (sfpReads s).bytes pos = (recordAt s.vol.dev.mem base pos).bytes.take
      (recordCall len outs pos).arrived := by
  rw [← hcall]
  unfold RecordReads.bytes
  simp only [sfpReads, sfpBase, hfile]
  rfl

/-- Whether the record that it reads is intact. -/
theorem intact_of_record {outs : List Outcome} {pos : Nat} (hfile : sfpFile s = some (base, len))
    (hcall : getCall s (outcomesAt s pos) pos = recordCall len outs pos) :
    (sfpReads s).Intact pos ↔ (recordCall len outs pos).whole = true ∧
      (recordAt s.vol.dev.mem base pos).checksum = (recordAt s.vol.dev.mem base pos).chksum := by
  rw [← hcall]
  unfold RecordReads.Intact
  simp only [sfpReads, sfpBase, hfile]
  rfl

/-- The part of a call that reads the record, in the state that it is called in. -/
theorem record_call {outs : List Outcome} {pos : Nat} (hfile : sfpFile s = some (base, len))
    (hcall : getCall s (outcomesAt s pos) pos = recordCall len outs pos)
    (hopen : t.vol.Open base len) (hfiles : t.vol.files = s.vol.files)
    (hmem : t.vol.dev.mem = s.vol.dev.mem) (houts : t.vol.dev.outcomes = outs) :
    ∃ (t' : Eeprom) (ret : Int), At s (pos + 1) t' ∧
      (∀ buf, readSfpRecord t buf pos = (t', ret, buf.fill ((sfpReads s).bytes pos))) ∧
      ret = if (sfpReads s).Intact pos then (t.sfpcount.toNat : Int) else -1 := by
  obtain ⟨t', ret, hfiles', hdev, hread, hret⟩ := readSfpRecord_call hopen pos
  rw [hmem, houts] at hread hret
  refine ⟨t', ret, ⟨hfiles'.trans hfiles, ?_, ?_⟩, fun buf => ?_, ?_⟩
  · rw [hdev]
    exact hmem
  · rw [outcomesAt, hcall, hdev, ← houts]
    rfl
  · rw [hread, bytes_of_record hfile hcall]
  · rw [hret]
    simp only [intact_of_record hfile hcall]

/-- The call for a later position, the file being open. -/
theorem getSfp_later {pos : Nat} (h : At s pos t) (hzero : pos ≠ 0) (hpos : pos < sfpsMax)
    (hfile : sfpFile s = some (base, len)) {w : Volume}
    (hopen : t.openId sdbDevSfp = ({ t with vol := w }, true)) (hw : w.Open base len)
    (hdev : w.dev = t.vol.dev.next) (hfiles : w.files = t.vol.files)
    (hok : t.vol.dev.outcome = .ok) :
    ∃ (t' : Eeprom) (ret : Int), At s (pos + 1) t' ∧
      ∀ buf, getSfp t buf pos = (t', ret, buf.fill ((sfpReads s).bytes pos)) := by
  have hout : (outcomesAt s pos).headD .ok = .ok := by
    rw [← h.outcomes]
    exact hok
  have hcall : getCall s (outcomesAt s pos) pos = recordCall len (outcomesAt s pos).tail pos := by
    rw [getCall_open hpos hfile hout, if_neg hzero]
  have hmem : w.dev.mem = s.vol.dev.mem := by
    rw [hdev]
    exact h.mem
  have houts : w.dev.outcomes = (outcomesAt s pos).tail := by
    rw [hdev, ← h.outcomes]
    rfl
  obtain ⟨t', ret, hat, hread, -⟩ :=
    @record_call s { t with vol := w } base len _ pos hfile hcall hw (hfiles.trans h.files) hmem
      houts
  refine ⟨t', ret, hat, fun buf => ?_⟩
  rw [← hread]
  unfold getSfp eepromGetSfp
  rw [if_neg (by omega), hopen]
  simp [hzero]

/-- The read of the count in the open file. -/
theorem readSfpcount_call (hw : t.vol.Open base len) :
    ∃ t' : Eeprom, readSfpcount t = (t', decide (t.vol.dev.outcome = .ok ∧ 1 ≤ len)) ∧
      t'.vol.Open base len ∧ t'.vol.dev = t.vol.dev.next ∧ t'.vol.files = t.vol.files ∧
      (t.vol.dev.outcome = .ok → 1 ≤ len → t'.sfpcount = t.vol.dev.mem base) := by
  obtain ⟨w, hread, hopen, hdev, hfiles⟩ := fread_open hw 0 1
  rw [Nat.zero_add] at hread
  have hcount : readSfpcount t = ({ t with
      vol := w
      sfpcount := (readAt t.vol.dev.mem (base + 0)
        (t.vol.dev.outcome.bytes (min 1 (len - 0)))).headD t.sfpcount },
      decide (t.vol.dev.outcome = .ok ∧ 1 ≤ len)) := by
    unfold readSfpcount
    rw [hread]
  refine ⟨_, hcount, hopen, hdev, hfiles, fun hok hlen => ?_⟩
  simp only [hok, Outcome.bytes]
  rw [Nat.min_eq_left (by omega : 1 ≤ len - 0), readAt_one]
  rfl

/-- The first call, after the read of the count. -/
theorem getSfp_first_eq {w : Volume} (hopen : t.openId sdbDevSfp = ({ t with vol := w }, true))
    {t₁ : Eeprom} {ok : Bool} (hread : readSfpcount { t with vol := w } = (t₁, ok))
    (buf : SfpInfo) :
    getSfp t buf 0 =
      if ok = true then if t₁.sfpcount = 0 then (t₁, 0, buf) else readSfpRecord t₁ buf 0
      else (t₁.close, -1, buf) := by
  unfold getSfp eepromGetSfp
  rw [if_neg (by decide), hopen]
  simp only [if_true, hread]
  cases ok with
  | false => rfl
  | true =>
      by_cases hnone : t₁.sfpcount = 0
      · simp [hnone]
      · simp [hnone]

/-- A first call that does not come to its record. -/
theorem getSfp_first_nothing {rest : List Outcome} {t' : Eeprom} {ret : Int}
    (hcall : getCall s (outcomesAt s 0) 0 = ⟨rest, 0, false⟩)
    (hfiles : t'.vol.files = s.vol.files) (hmem : t'.vol.dev.mem = s.vol.dev.mem)
    (houts : t'.vol.dev.outcomes = rest) (hget : ∀ buf, getSfp t buf 0 = (t', ret, buf))
    (hret : ret = -1 ∨ ret = 0) :
    At s 1 t' ∧ (∀ buf, getSfp t buf 0 = (t', ret, buf.fill ((sfpReads s).bytes 0))) ∧
      FirstReturn s ret := by
  refine ⟨⟨hfiles, hmem, ?_⟩, fun buf => ?_, firstReturn_of_nothing (by rw [hcall]) hret⟩
  · rw [outcomesAt, hcall]
    exact houts
  · rw [fill_of_nothing (by rw [hcall])]
    exact hget buf

/-- The first call, the file being open. -/
theorem getSfp_first (h : At s 0 t) (hfile : sfpFile s = some (base, len)) {w : Volume}
    (hopen : t.openId sdbDevSfp = ({ t with vol := w }, true)) (hw : w.Open base len)
    (hdev : w.dev = t.vol.dev.next) (hfiles : w.files = t.vol.files)
    (hok : t.vol.dev.outcome = .ok) :
    ∃ (t' : Eeprom) (ret : Int), At s 1 t' ∧
      (∀ buf, getSfp t buf 0 = (t', ret, buf.fill ((sfpReads s).bytes 0))) ∧
      FirstReturn s ret := by
  have hout : (outcomesAt s 0).headD .ok = .ok := by
    rw [← h.outcomes]
    exact hok
  have hmem : w.dev.mem = s.vol.dev.mem := by
    rw [hdev]
    exact h.mem
  have houts : w.dev.outcomes = (outcomesAt s 0).tail := by
    rw [hdev, ← h.outcomes]
    rfl
  have hcount : sfpCount s = w.dev.mem base := by
    rw [hmem, sfpCount, sfpBase, hfile]
    rfl
  obtain ⟨t₁, hread, hopen₁, hdev₁, hfiles₁, hvalue⟩ :=
    @readSfpcount_call { t with vol := w } base len hw
  have hget := getSfp_first_eq hopen hread
  have hmem₁ : t₁.vol.dev.mem = s.vol.dev.mem := by
    rw [hdev₁]
    exact hmem
  have houts₁ : t₁.vol.dev.outcomes = (outcomesAt s 0).tail.tail := by
    rw [hdev₁, ← houts]
    rfl
  have hfilesAt : t₁.vol.files = s.vol.files := hfiles₁.trans (hfiles.trans h.files)
  have hnext : (outcomesAt s 0).tail.headD .ok = w.dev.outcome := by
    unfold Device.outcome
    rw [houts]
  have hcall := getCall_open (by decide : 0 < sfpsMax) hfile hout
  rw [if_pos rfl, hnext] at hcall
  by_cases hgood : w.dev.outcome = .ok ∧ 1 ≤ len
  · have hfirst : t₁.sfpcount = sfpCount s := by
      rw [hcount]
      exact hvalue hgood.1 hgood.2
    simp only [hgood, and_self, decide_true, if_true, hfirst] at hget
    by_cases hnone : sfpCount s = 0
    · -- there is no record to read
      rw [if_neg (fun hall => hall.2.2 hnone)] at hcall
      simp only [hnone, if_true] at hget
      exact ⟨t₁, 0, getSfp_first_nothing hcall hfilesAt hmem₁ houts₁ hget (Or.inr rfl)⟩
    · rw [if_pos ⟨hgood.1, hgood.2, hnone⟩] at hcall
      simp only [hnone, if_false] at hget
      obtain ⟨t', ret, hat, hrecord, hret⟩ :=
        record_call hfile hcall hopen₁ hfilesAt hmem₁ houts₁
      refine ⟨t', ret, hat, fun buf => (hget buf).trans (hrecord buf), ?_⟩
      rw [hfirst] at hret
      unfold FirstReturn
      split_ifs at hret ⊢
      · exact hret
      · exact Or.inl hret
  · rw [if_neg (fun hall => hgood ⟨hall.1, hall.2.1⟩)] at hcall
    simp only [decide_eq_false hgood, Bool.false_eq_true, if_false] at hget
    exact ⟨t₁.close, -1,
      getSfp_first_nothing hcall hfilesAt hmem₁ houts₁ hget (Or.inl rfl)⟩

/-- A call, in the state that those before it leave. -/
theorem getSfp_call {pos : Nat} (h : At s pos t) :
    ∃ (t' : Eeprom) (ret : Int), At s (pos + 1) t' ∧
      (∀ buf, getSfp t buf pos = (t', ret, buf.fill ((sfpReads s).bytes pos))) ∧
      (pos = 0 → FirstReturn s ret) := by
  by_cases hpos : pos < sfpsMax
  · have hclosed : t.openId sdbDevSfp =
          ({ t with vol := { t.vol with dev := t.vol.dev.next } }, false) →
        getCall s (outcomesAt s pos) pos = ⟨(outcomesAt s pos).tail, 0, false⟩ →
        ∃ (t' : Eeprom) (ret : Int), At s (pos + 1) t' ∧
          (∀ buf, getSfp t buf pos = (t', ret, buf.fill ((sfpReads s).bytes pos))) ∧
          (pos = 0 → FirstReturn s ret) := by
      intro hopen hcall
      obtain ⟨t', hat, hget⟩ := getSfp_closed h hpos hopen hcall
      refine ⟨t', -1, hat, hget, ?_⟩
      rintro rfl
      exact firstReturn_of_nothing (by rw [hcall]) (Or.inl rfl)
    cases hfile : sfpFile s with
    | none =>
        have hmissing : t.vol.files sdbDevSfp = none := by
          rw [h.files]
          exact hfile
        apply hclosed
        · rw [EepromOf.openId, sdbfsOpenId_missing hmissing]
          rfl
        · rw [getCall, if_neg (by omega), hfile]
    | some file =>
        obtain ⟨base, len⟩ := file
        have hthere : t.vol.files sdbDevSfp = some (base, len) := by
          rw [h.files]
          exact hfile
        rcases openId_cases hthere with ⟨w, hopen, hw, hdev, hfiles, hok⟩ | ⟨hopen, hfail⟩
        · by_cases hzero : pos = 0
          · subst hzero
            obtain ⟨t', ret, hat, hget, hret⟩ := getSfp_first h hfile hopen hw hdev hfiles hok
            exact ⟨t', ret, hat, hget, fun _ => hret⟩
          · obtain ⟨t', ret, hat, hget⟩ :=
              getSfp_later h hzero hpos hfile hopen hw hdev hfiles hok
            exact ⟨t', ret, hat, hget, fun hpos0 => absurd hpos0 hzero⟩
        · apply hclosed hopen
          have hout : (outcomesAt s pos).headD .ok ≠ .ok := by
            rw [← h.outcomes]
            exact hfail
          rw [getCall, if_neg (by omega), hfile]
          simp only
          rw [if_pos hout]
  · obtain ⟨hat, hget⟩ := getSfp_behind h (by omega)
    refine ⟨t, eeRetPoserr, hat, hget, ?_⟩
    rintro rfl
    exact absurd (by decide) hpos

end Call

/-- The calls for the positions find what the file has, as far as the accesses succeed. -/
theorem row (s : Eeprom) :
    ∃ ret, FirstReturn s ret ∧ Row getSfp (sfpReads s) ret (rowState getSfp s) := by
  have hstart : At s 0 s := ⟨rfl, rfl, rfl⟩
  obtain ⟨t₁, ret, -, hget, hret⟩ := getSfp_call hstart
  refine ⟨ret, hret rfl, row_of_calls (At s) hstart (fun pos t h => ?_) fun buf => ?_⟩
  · obtain ⟨t', ret', hat, hget', -⟩ := getSfp_call h
    exact ⟨t', hat, fun buf => ⟨ret', hget' buf⟩⟩
  · rw [hget]

/-! ### What the search does -/

section Search

variable (s : Eeprom) (dbsfp sfp : SfpInfo)

theorem count_of_intact (h : (sfpReads s).Intact 0) : sfpCount s ≠ 0 := by
  intro hcount
  have hwhole : (getCall s (outcomesAt s 0) 0).whole = true := h.1
  unfold getCall at hwhole
  rw [if_neg (by decide)] at hwhole
  split at hwhole
  · cases hwhole
  · simp only [hcount, ne_eq, not_true_eq_false, and_false, if_false, if_true] at hwhole
    split_ifs at hwhole

/-- The search ends unless the first record is intact, the count is too large for the index and
no record matches. -/
theorem terminates_iff :
    (eepromMatchSfp getSfp 256 s dbsfp sfp).isSome ↔
      ((sfpReads s).Intact 0 → (sfpCount s).toNat ≤ 127 ∨ (sfpCount s).toNat = 255 ∨
        ∃ pos < 4, (sfpReads s).Hit dbsfp sfp pos) := by
  obtain ⟨ret, hret, hrow⟩ := row s
  have hiff : (eepromMatchSfp getSfp 256 (rowState getSfp s 0) dbsfp sfp).isSome ↔ _ :=
    match_terminates_iff hrow
  rw [show rowState getSfp s 0 = s from rfl] at hiff
  rw [hiff]
  unfold FirstReturn at hret
  split_ifs at hret with hintact
  · rw [hret, boundOf_count]
    have hle : ((sfpCount s).toNat : Int) ≤ 127 ↔ (sfpCount s).toNat ≤ 127 := by omega
    have hfull : ((sfpCount s).toNat : Int) = 255 ↔ (sfpCount s).toNat = 255 := by omega
    simp only [hle, hfull, hintact, true_implies]
  · have hbound : boundOf ret ≤ 127 ∨ boundOf ret = 255 := by
      unfold boundOf i8
      omega
    simp only [hintact, false_implies, iff_true]
    omega

/-- The search finds the first good record if the first one is intact and the first that matches
on the stack has its calibration, or if the first one is not and there is no good record. -/
theorem finds_iff (hmax : (sfpCount s).toNat ≤ 4) :
    Finds (sfpReads s) (sfpCount s).toNat sfp
        (fun calls => eepromMatchSfp getSfp calls s dbsfp sfp) ↔
      if (sfpReads s).Intact 0 then
        Undisturbed (sfpReads s) (sfpCount s).toNat (sfpCount s).toNat dbsfp sfp
      else ∀ pos < (sfpCount s).toNat, ¬ (sfpReads s).Good sfp pos := by
  obtain ⟨ret, hret, hrow⟩ := row s
  unfold FirstReturn at hret
  split_ifs at hret ⊢ with hintact
  · have hpos : 0 < (sfpCount s).toNat := by
      have hne : (sfpCount s).toNat ≠ 0 := fun hzero =>
        count_of_intact s hintact (UInt8.toNat_inj.mp hzero)
      omega
    have hbound : boundOf ret = ((sfpCount s).toNat : Int) := by
      rw [hret, boundOf_count]
    exact finds_iff_of_count hrow hbound hpos hmax
  · have hbound : boundOf ret = 0 ∨ boundOf ret = 0xff := by
      unfold boundOf i8
      omega
    exact finds_of_none (match_none hrow dbsfp sfp hbound 0)

end Search

end Sdb

/-! ## Both drivers -/

/-- The database file in a file system where every file starts at address 0. -/
def sfpFileOf (m : Nat → UInt8) : Sdb.Eeprom :=
  { vol := { dev := { mem := m }, files := fun _ => some (0, 117) } }

/-- Two records of which only the second is intact. -/
def hiddenRecord : Sdb.Eeprom :=
  sfpFileOf fun addr => if addr = 0 then 2 else if addr = 1 then 1 else 0

/-- One record with a wrong byte in its calibration. -/
def corruptedRecord : I2c.Eeprom :=
  { mem := fun addr => if addr = I2c.eeBaseSfp ∨ addr = I2c.eeBaseSfp + 20 then 1 else 0 }

end Storage
end WrpcSw
