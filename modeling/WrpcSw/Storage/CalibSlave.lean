import Mathlib.Data.Nat.Bitwise
import WrpcSw.Storage.Phtrans

/-!
# The calibration of a slave (`dev/rxts_calibrator.c`)

A slave that has measured its phase transition compares it with the one in the storage
and rewrites the storage when there is none, or when the two differ by more than 200 ps.

The comparison is unsigned and looks at the value only.  For a transition below 200 ps
its lower bound wraps, and the storage is rewritten on every start; and an entry that is
not marked valid counts like a valid one.

* `PhtransDriver` — what both drivers promise of a read and of a write.
* `calibSlave_writes` — when the storage is written.
* `calibSlave_stores` — what it holds when the return value is positive.
-/

namespace WrpcSw
namespace Storage

open Memory

/-! ## The drivers -/

/-- A driver of the calibration value: the word that its next read finds, the word that
is stored, and what reads and writes make of them. -/
structure PhtransDriver (σ : Type*) where
  phtrans : σ → BitVec 32 → Bool → σ × Int × BitVec 32
  word : σ → Option (BitVec 32)
  Holds : σ → BitVec 32 → Prop
  read : ∀ s val, (phtrans s val false).2 = phtransRead val (word s)
  read_holds : ∀ s val w, word s = some w → Holds (phtrans s val false).1 w
  write_holds : ∀ s val, 0 < (phtrans s val true).2.1 →
    Holds (phtrans s val true).1 (val ||| validityBit)

/-- The calibration file holds the word. -/
def Sdb.HoldsCalib (s : Sdb.Eeprom) (w : BitVec 32) : Prop :=
  ∃ base len, s.vol.files Sdb.sdbDevCalib = some (base, len) ∧ 4 ≤ len ∧
    wordOf (readAt s.vol.dev.mem base 4) = w

/-- The EEPROM holds the word at the calibration address. -/
def I2c.HoldsCalib (s : I2c.Eeprom) (w : BitVec 32) : Prop :=
  wordOf (readAt s.mem I2c.eeBaseCal 4) = w

theorem Sdb.phtrans_read_holds (s : Sdb.Eeprom) (val w : BitVec 32)
    (hword : Sdb.calibWord s = some w) :
    Sdb.HoldsCalib (Sdb.eepromPhtrans s val false).1 w := by
  cases hfile : s.vol.files Sdb.sdbDevCalib with
  | none =>
      rw [Sdb.calibWord, hfile] at hword
      cases hword
  | some file =>
      obtain ⟨base, len⟩ := file
      rw [Sdb.calibWord_eq hfile] at hword
      split_ifs at hword with hreads
      obtain ⟨hscan, -, hlen⟩ := hreads
      obtain rfl := Option.some.inj hword
      unfold Sdb.eepromPhtrans
      rcases Sdb.openId_cases hfile with ⟨v, hopen, hv, hdev, hfiles, -⟩ | ⟨-, hfail⟩
      · obtain ⟨v', ok, bytes, hread, hkept, hmem, -, -⟩ :=
          Sdb.fread_cases (s := { s with vol := v }) hv 0 4 ((Nat.zero_add 4).trans_le hlen)
        have hsame : wordOf (readAt v'.dev.mem base 4) = wordOf (readAt s.vol.dev.mem base 4) := by
          rw [hmem]
          simp only [hdev]
          rfl
        have hkeeps : v'.files Sdb.sdbDevCalib = some (base, len) := by
          rw [hkept.files, hfiles, hfile]
        simp only [hopen, hread, Bool.not_true, Bool.false_eq_true, if_false]
        cases ok with
        | true => exact ⟨base, len, hkeeps, hlen, hsame⟩
        | false => exact ⟨base, len, hkeeps, hlen, hsame⟩
      · exact absurd hscan hfail

theorem Sdb.phtrans_write_holds (s : Sdb.Eeprom) (val : BitVec 32)
    (hret : 0 < (Sdb.eepromPhtrans s val true).2.1) :
    Sdb.HoldsCalib (Sdb.eepromPhtrans s val true).1 (val ||| validityBit) := by
  unfold Sdb.eepromPhtrans at hret ⊢
  cases hfile : s.vol.files Sdb.sdbDevCalib with
  | none =>
      have hopen : (s.openId Sdb.sdbDevCalib).2 = false := by
        unfold Sdb.EepromOf.openId
        rw [sdbfsOpenId_missing hfile]
        rfl
      simp [hopen] at hret
  | some file =>
      obtain ⟨base, len⟩ := file
      rcases Sdb.openId_cases hfile with ⟨v, hopen, hv, hdev, hfiles, -⟩ | ⟨hopen, -⟩
      · simp only [hopen, Bool.not_true, Bool.false_eq_true, if_false, if_true] at hret ⊢
        by_cases hlen : 4 ≤ len
        · obtain ⟨v', ok, stored, hwrite, hkept, hmem, -, hstored⟩ :=
            Sdb.fwrite_cases (s := { s with vol := v }) hv 0 (wordBytes (val ||| validityBit))
              (by rw [length_wordBytes]; omega)
          rw [hwrite] at hret ⊢
          cases ok with
          | true =>
              rw [hstored rfl, List.take_length, add_zero] at hmem
              refine ⟨base, len, by rw [← hfile, ← hfiles]; exact congrFun hkept.files _, hlen, ?_⟩
              show wordOf (readAt v'.dev.mem base 4) = _
              rw [hmem, ← length_wordBytes (val ||| validityBit), readAt_writeAt,
                wordOf_wordBytes]
          | false => simp at hret
        · have hshort : (({ s with vol := v } : Sdb.Eeprom).fwrite 0
              (wordBytes (val ||| validityBit))).2 = false :=
            decide_eq_false (sdbfsFwrite_outside hv 0 4 _ (by omega))
          rw [hshort] at hret
          simp at hret
      · simp [hopen] at hret

theorem I2c.phtrans_read_holds (s : I2c.Eeprom) (val w : BitVec 32)
    (hword : I2c.calibWord s = some w) :
    I2c.HoldsCalib (I2c.eepromPhtrans s val false).1 w := by
  unfold I2c.calibWord at hword
  split_ifs at hword with heeprom
  have hin : I2c.eeBaseCal + 4 ≤ 65536 := by decide
  unfold I2c.eepromPhtrans I2c.HoldsCalib
  simp only [I2c.read_eq heeprom _ _ hin, Bool.false_eq_true, if_false]
  split_ifs <;> exact Option.some.inj hword

theorem I2c.phtrans_write_holds (s : I2c.Eeprom) (val : BitVec 32)
    (hret : 0 < (I2c.eepromPhtrans s val true).2.1) :
    I2c.HoldsCalib (I2c.eepromPhtrans s val true).1 (val ||| validityBit) := by
  unfold I2c.eepromPhtrans at hret ⊢
  cases heeprom : s.hasEeprom with
  | false =>
      have hwrite : ∀ bs, s.write I2c.eeBaseCal bs = (s, false) := fun bs => by
        rw [I2c.Eeprom.write, heeprom, if_neg Bool.false_ne_true]
      simp only [hwrite, if_true, Bool.false_eq_true, if_false] at hret
      exact absurd hret (by decide)
  | true =>
      have hwrite := I2c.write_eq heeprom I2c.eeBaseCal (wordBytes (val ||| validityBit))
        (by rw [length_wordBytes]; decide)
      unfold I2c.HoldsCalib
      simp only [hwrite, if_true]
      rw [← length_wordBytes (val ||| validityBit), readAt_writeAt, wordOf_wordBytes]

def Sdb.phtransDriver : PhtransDriver Sdb.Eeprom where
  phtrans := Sdb.eepromPhtrans
  word := Sdb.calibWord
  Holds := Sdb.HoldsCalib
  read := Sdb.eepromPhtrans_read
  read_holds := Sdb.phtrans_read_holds
  write_holds := Sdb.phtrans_write_holds

def I2c.phtransDriver : PhtransDriver I2c.Eeprom where
  phtrans := I2c.eepromPhtrans
  word := I2c.calibWord
  Holds := I2c.HoldsCalib
  read := I2c.eepromPhtrans_read
  read_holds := I2c.phtrans_read_holds
  write_holds := I2c.phtrans_write_holds

/-! ## What the slave does with them -/

section Slave

variable {σ : Type*}

/-- The driver, with a log of its calls: whether each was a write. -/
def logged (phtrans : σ → BitVec 32 → Bool → σ × Int × BitVec 32) :
    σ × List Bool → BitVec 32 → Bool → (σ × List Bool) × Int × BitVec 32 :=
  fun s val write =>
    let r := phtrans s.1 val write
    ((r.1, s.2 ++ [write]), r.2)

/-- `calib_t24p_slave` writes the storage. -/
def Writes (d : PhtransDriver σ) (measured : Option (BitVec 32)) (prev : BitVec 32) (s : σ)
    (value : BitVec 32) : Prop :=
  true ∈ (calibT24pSlave (logged d.phtrans) measured prev (s, []) value).1.2

/-- The log changes nothing. -/
theorem calibT24pSlave_logged (phtrans : σ → BitVec 32 → Bool → σ × Int × BitVec 32)
    (measured : Option (BitVec 32)) (prev : BitVec 32) (s : σ) (log : List Bool)
    (value : BitVec 32) :
    (calibT24pSlave (logged phtrans) measured prev (s, log) value).1.1 =
        (calibT24pSlave phtrans measured prev s value).1 ∧
      (calibT24pSlave (logged phtrans) measured prev (s, log) value).2 =
        (calibT24pSlave phtrans measured prev s value).2 := by
  cases measured with
  | none => exact ⟨rfl, rfl⟩
  | some v =>
      by_cases hout : (phtrans s prev false).2.1 < 0 ∨ (phtrans s prev false).2.2 < v - 200 ∨
          v + 200 < (phtrans s prev false).2.2
      · simp only [calibT24pSlave, logged, hout, if_true, and_self]
      · simp only [calibT24pSlave, logged, hout, if_false, and_self]

/-- The value of a stored word, in picoseconds. -/
def storedValue (w : BitVec 32) : Int := (w &&& ~~~validityBit).toNat

/-- The entry could not be read, or is not marked valid, or is more than 200 ps away. -/
def Outdated (word : Option (BitVec 32)) (v : BitVec 32) : Prop :=
  ∀ w, word = some w → w &&& validityBit = 0 ∨ 200 < |storedValue w - v.toNat|

/-- A valid entry within 200 ps. -/
def Matches (w v : BitVec 32) : Prop :=
  w &&& validityBit ≠ 0 ∧ |storedValue w - v.toNat| ≤ 200

/-- The comparison comes out right: there is no entry to compare with, or it is more than
200 ps away, or it is near and the lower bound does not wrap and it is valid, or the bound
wraps and it is not valid. -/
def Comparable (word : Option (BitVec 32)) (v : BitVec 32) : Prop :=
  ∀ w, word = some w → 200 < |storedValue w - v.toNat| ∨
    (200 ≤ v.toNat ∧ w &&& validityBit ≠ 0) ∨ (v.toNat < 200 ∧ w &&& validityBit = 0)

theorem storedValue_lt (w : BitVec 32) : 0 ≤ storedValue w ∧ storedValue w < 2 ^ 31 := by
  have hmask : (w &&& ~~~validityBit).toNat ≤ 2147483647 := by
    rw [BitVec.toNat_and]
    exact Nat.and_le_right
  unfold storedValue
  omega

/-- What a read gives the caller, when a word can be read. -/
theorem phtransRead_some (val w : BitVec 32) :
    phtransRead val (some w) =
      (if w &&& validityBit = 0 then 0 else 1, w &&& ~~~validityBit) := by
  by_cases hbit : w &&& validityBit = 0
  · rw [phtransRead_invalid val hbit, if_pos hbit, and_not_validityBit hbit]
  · rw [phtransRead_valid val hbit, if_neg hbit]

/-- The unsigned comparison: below 200 ps the lower bound wraps, and any value is out. -/
theorem outside_iff {v : BitVec 32} (hv : v.toNat < 8000) (w : BitVec 32) :
    ((w &&& ~~~validityBit) < v - 200 ∨ v + 200 < (w &&& ~~~validityBit)) ↔
      v.toNat < 200 ∨ 200 < |storedValue w - v.toNat| := by
  have hrange := storedValue_lt w
  have hlow : (v - 200).toNat = if v.toNat < 200 then 4294967096 + v.toNat else v.toNat - 200 := by
    rw [BitVec.toNat_sub]
    split_ifs <;> simp <;> omega
  have hhigh : (v + 200).toNat = v.toNat + 200 := by
    rw [BitVec.toNat_add]
    simp
    omega
  rw [BitVec.lt_def, BitVec.lt_def, hlow, hhigh, lt_abs]
  unfold storedValue at hrange ⊢
  split_ifs with hwraps <;> omega

variable (d : PhtransDriver σ) {v : BitVec 32} (hv : v.toNat < 8000) (prev : BitVec 32) (s : σ)
  (value : BitVec 32)

include hv

/-- When the storage is written: no entry can be read, or the comparison says so. -/
theorem writes_iff :
    Writes d (some v) prev s value ↔
      ∀ w, d.word s = some w → v.toNat < 200 ∨ 200 < |storedValue w - v.toNat| := by
  unfold Writes calibT24pSlave
  simp only [logged, d.read, List.nil_append]
  cases hword : d.word s with
  | none => simp [phtransRead]
  | some w =>
      have hcompare := outside_iff hv w
      have hret : ¬ (if w &&& validityBit = 0 then (0 : Int) else 1) < 0 := by
        split_ifs <;> decide
      simp only [phtransRead_some, hret, false_or, hcompare, Option.some.injEq, forall_eq']
      by_cases hout : v.toNat < 200 ∨ 200 < |storedValue w - v.toNat|
      · rw [if_pos hout]
        simp [hout]
      · rw [if_neg hout]
        simp [hout]

/-- The storage is written when the entry is outdated, and only then, as long as the
comparison comes out right. -/
theorem writes_outdated_iff :
    (Writes d (some v) prev s value ↔ Outdated (d.word s) v) ↔ Comparable (d.word s) v := by
  rw [writes_iff d hv prev s value]
  unfold Outdated Comparable
  cases d.word s with
  | none => simp
  | some w =>
      simp only [Option.some.injEq, forall_eq']
      by_cases hfar : 200 < |storedValue w - v.toNat|
      · simp [hfar]
      · by_cases hlow : v.toNat < 200
        · by_cases hbit : w &&& validityBit = 0 <;> simp [hfar, hlow, hbit]
        · have hhigh : 200 ≤ v.toNat := Nat.not_lt.mp hlow
          by_cases hbit : w &&& validityBit = 0 <;> simp [hfar, hlow, hhigh, hbit]

/-- The word of a successful write matches the value it was made of. -/
theorem matches_written : Matches (v ||| validityBit) v := by
  have hclear : v &&& validityBit = 0 := by
    apply BitVec.eq_of_toNat_eq
    have hbit : validityBit.toNat = 2 ^ 31 := rfl
    rw [BitVec.toNat_and, hbit, Nat.and_two_pow, Nat.testBit_lt_two_pow (by omega),
      Bool.toNat_false, zero_mul]
    rfl
  have hset : (v ||| validityBit) &&& validityBit = validityBit := by
    ext i hi
    simp only [BitVec.getElem_and, BitVec.getElem_or]
    cases validityBit[i] <;> simp
  have hmasked : (v ||| validityBit) &&& ~~~validityBit = v := by
    calc (v ||| validityBit) &&& ~~~validityBit
        = v &&& ~~~validityBit := by
          ext i hi
          simp only [BitVec.getElem_and, BitVec.getElem_or, BitVec.getElem_not]
          cases validityBit[i] <;> simp
      _ = v := and_not_validityBit hclear
  refine ⟨?_, ?_⟩
  · rw [hset]
    decide
  · rw [storedValue, hmasked, sub_self, abs_zero]
    decide

/-- With a positive return value, the storage holds an entry that matches. -/
theorem stores_match (hret : 0 < (calibT24pSlave d.phtrans (some v) prev s value).2.1) :
    ∃ w, d.Holds (calibT24pSlave d.phtrans (some v) prev s value).1 w ∧ Matches w v := by
  unfold calibT24pSlave at hret ⊢
  simp only [d.read] at hret ⊢
  split_ifs at hret ⊢ with hout
  · exact ⟨_, d.write_holds _ v hret, matches_written hv⟩
  · cases hword : d.word s with
    | none =>
        rw [hword] at hret
        simp [phtransRead] at hret
    | some w =>
        rw [hword, phtransRead_some] at hret hout
        obtain ⟨-, hinside⟩ := not_or.mp hout
        rw [outside_iff hv] at hinside
        refine ⟨w, d.read_holds s prev w hword, ?_, by omega⟩
        intro hbit
        rw [if_pos hbit] at hret
        exact absurd hret (lt_irrefl 0)

end Slave

/-- An EEPROM whose calibration word is `w`. -/
def eepromWith (w : BitVec 32) : I2c.Eeprom where
  mem := writeAt (fun _ => 0) I2c.eeBaseCal (wordBytes w)

theorem calibWord_eepromWith (w : BitVec 32) : I2c.calibWord (eepromWith w) = some w := by
  unfold I2c.calibWord eepromWith
  rw [if_pos rfl, ← length_wordBytes w, readAt_writeAt, wordOf_wordBytes]

end Storage
end WrpcSw
