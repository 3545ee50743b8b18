import WrpcSw.Net.Netif
import WrpcSw.Storage.SdbEeprom
import WrpcSw.Storage.I2cEeprom

/-!
# The phase transition from the storage (`dev/rxts_calibrator.c`)

At startup, and whenever the node is no slave, `calib_t24p` takes the t2/t4 phase
transition from the storage.  The variable it reads into holds a default, which is
to survive a storage without a valid entry, because the variable is passed on to the
network sockets whatever the read returned.

Both drivers fall short of that.  They store a word they could read even when its
validity bit is clear:

* `Sdb.eepromPhtrans_read`, `I2c.eepromPhtrans_read` — the two reads are one function
  of the word in the storage.
* `phtrans_keeps_default_iff` — the default survives unless a word can be read that is
  neither valid nor the default itself.
-/

namespace WrpcSw
namespace Storage

open Memory Net

/-! ## The word in the storage -/

/-- The word of the calibration file, when the directory and the file can be read. -/
def Sdb.calibWord (s : Sdb.Eeprom) : Option (BitVec 32) :=
  match s.vol.files Sdb.sdbDevCalib with
  | none => none
  | some (base, len) =>
      if s.vol.dev.outcome = .ok ∧ s.vol.dev.next.outcome = .ok ∧ 4 ≤ len then
        some (wordOf (readAt s.vol.dev.mem base 4))
      else none

/-- The word at the calibration address, when there is an EEPROM. -/
def I2c.calibWord (s : I2c.Eeprom) : Option (BitVec 32) :=
  if s.hasEeprom then some (wordOf (readAt s.mem I2c.eeBaseCal 4)) else none

/-- What both drivers do with the word: the return value and the caller's variable. -/
def phtransRead (val : BitVec 32) : Option (BitVec 32) → Int × BitVec 32
  | none => (-1, val)
  | some word =>
      if word &&& validityBit = 0 then (0, word) else (1, word &&& ~~~validityBit)

theorem phtransRead_invalid {word : BitVec 32} (val : BitVec 32) (h : word &&& validityBit = 0) :
    phtransRead val (some word) = (0, word) := if_pos h

theorem phtransRead_valid {word : BitVec 32} (val : BitVec 32) (h : word &&& validityBit ≠ 0) :
    phtransRead val (some word) = (1, word &&& ~~~validityBit) := if_neg h

/-- Without the validity bit there is nothing to mask. -/
theorem and_not_validityBit {word : BitVec 32} (h : word &&& validityBit = 0) :
    word &&& ~~~validityBit = word := by
  have hsplit : (word &&& validityBit) ||| (word &&& ~~~validityBit) = word := by
    ext i hi
    simp only [BitVec.getElem_or, BitVec.getElem_and, BitVec.getElem_not]
    cases word[i] with
    | false => rfl
    | true => cases validityBit[i] <;> rfl
  rw [h] at hsplit
  simpa using hsplit

/-- One driver masks the word it stores before it looks at the bit. -/
theorem masked_eq_phtransRead (val word : BitVec 32) :
    ((if word &&& validityBit ≠ 0 then 1 else 0 : Int), word &&& ~~~validityBit) =
      phtransRead val (some word) := by
  by_cases h : word &&& validityBit = 0
  · rw [phtransRead_invalid val h, if_neg (not_not_intro h), and_not_validityBit h]
  · rw [phtransRead_valid val h, if_pos h]

theorem Sdb.calibWord_eq {s : Sdb.Eeprom} {base len : Nat}
    (hfile : s.vol.files Sdb.sdbDevCalib = some (base, len)) :
    Sdb.calibWord s =
      if s.vol.dev.outcome = .ok ∧ s.vol.dev.next.outcome = .ok ∧ 4 ≤ len then
        some (wordOf (readAt s.vol.dev.mem base 4))
      else none := by
  rw [Sdb.calibWord, hfile]

theorem Sdb.eepromPhtrans_read (s : Sdb.Eeprom) (val : BitVec 32) :
    (Sdb.eepromPhtrans s val false).2 = phtransRead val (Sdb.calibWord s) := by
  cases hfile : s.vol.files Sdb.sdbDevCalib with
  | none =>
      have hopen : (s.openId Sdb.sdbDevCalib).2 = false := by
        unfold Sdb.EepromOf.openId
        rw [sdbfsOpenId_missing hfile]
        rfl
      simp [Sdb.eepromPhtrans, Sdb.calibWord, hopen, hfile, phtransRead]
  | some file =>
      obtain ⟨base, len⟩ := file
      rw [Sdb.calibWord_eq hfile, Sdb.eepromPhtrans]
      rcases Sdb.openId_cases hfile with ⟨w, hopen, hw, hdev, -, hok⟩ | ⟨hopen, hfail⟩
      · simp only [hopen, hok, Bool.not_true, Bool.false_eq_true, if_false, true_and]
        by_cases hlen : 4 ≤ len
        · obtain ⟨w', ok, bytes, hread, -, -, hnext, hbytes⟩ :=
            Sdb.fread_cases (s := { s with vol := w }) hw 0 4 ((Nat.zero_add 4).trans_le hlen)
          simp only [hdev] at hnext hbytes
          simp only [hread, hlen, and_true, ← hnext]
          cases ok with
          | true =>
              rw [if_pos rfl, hbytes rfl]
              exact masked_eq_phtransRead val _
          | false => rfl
        · have hshort := sdbfsFread_outside hw 0 4 (by omega)
          have hread : (({ s with vol := w } : Sdb.Eeprom).fread 0 4).2.1 = false :=
            decide_eq_false hshort
          simp [hread, hlen, phtransRead]
      · simp [hopen, hfail, phtransRead]

theorem I2c.eepromPhtrans_read (s : I2c.Eeprom) (val : BitVec 32) :
    (I2c.eepromPhtrans s val false).2 = phtransRead val (I2c.calibWord s) := by
  unfold I2c.eepromPhtrans I2c.calibWord
  cases heeprom : s.hasEeprom with
  | false => simp [I2c.Eeprom.read, heeprom, phtransRead, eeRetI2cerr]
  | true =>
      have hin : I2c.eeBaseCal + 4 ≤ 65536 := by decide
      simp only [I2c.read_eq heeprom _ _ hin, Bool.false_eq_true, if_false, if_true, phtransRead]
      split_ifs with hbit <;> rfl

/-! ## The caller -/

def wrcModeSlave : Int := 3

/-- Every socket gets the phase. -/
def ptpdNetifSetPhaseTransition (net : NetState) (phase : BitVec 32) : NetState :=
  { net with socks := fun i => { net.socks i with phaseTransition := phase.toNat } }

section Calib

variable {σ : Type*} (eepromPhtrans : σ → BitVec 32 → Bool → σ × Int × BitVec 32)

/-- The return value and the caller's variable; the two exits differ in what they
print. -/
def calibT24pMaster (s : σ) (value : BitVec 32) : σ × Int × BitVec 32 :=
  eepromPhtrans s value false

/-- `measured` is what the loop over `rxts_calibration_update` ends with: the phase of
the transition, or nothing when the calibration fails.  `prev` is what the local
variable starts with. -/
def calibT24pSlave (measured : Option (BitVec 32)) (prev : BitVec 32) (s : σ)
    (value : BitVec 32) : σ × Int × BitVec 32 :=
  match measured with
  | none => calibT24pMaster eepromPhtrans s value
  | some value =>
      let r := eepromPhtrans s prev false
      if r.2.1 < 0 ∨ r.2.2 < value - 200 ∨ value + 200 < r.2.2 then
        eepromPhtrans r.1 value true
      else (r.1, r.2.1, value)

/-- The return value and the caller's variable. -/
def calibT24p (measured : Option (BitVec 32)) (prev : BitVec 32) (mode : Int) (s : σ)
    (net : NetState) (value : BitVec 32) : σ × NetState × Int × BitVec 32 :=
  let r :=
    if mode = wrcModeSlave then calibT24pSlave eepromPhtrans measured prev s value
    else calibT24pMaster eepromPhtrans s value
  (r.1, ptpdNetifSetPhaseTransition net r.2.2, r.2.1, r.2.2)

/-! ## The default -/

/-- A read that finds no valid entry leaves the caller's variable as it was. -/
def ReadKeeps (s : σ) (val : BitVec 32) : Prop :=
  (eepromPhtrans s val false).2.1 ≤ 0 → (eepromPhtrans s val false).2.2 = val

/-- A node that is no slave keeps its phase transition, and passes it on, when there is
no valid entry. -/
def CalibKeeps (s : σ) (val : BitVec 32) : Prop :=
  (eepromPhtrans s val false).2.1 ≤ 0 →
    ∀ measured prev mode net, mode ≠ wrcModeSlave →
      (calibT24p eepromPhtrans measured prev mode s net val).2.2.2 = val ∧
      (calibT24p eepromPhtrans measured prev mode s net val).2.1 =
        ptpdNetifSetPhaseTransition net val

/-- A word that can be read is valid, or the default itself. -/
def NoInvalidWord (word : Option (BitVec 32)) (val : BitVec 32) : Prop :=
  ∀ w, word = some w → w &&& validityBit = 0 → w = val

theorem readKeeps_iff (s : σ) (val : BitVec 32) (word : Option (BitVec 32))
    (hread : (eepromPhtrans s val false).2 = phtransRead val word) :
    ReadKeeps eepromPhtrans s val ↔ NoInvalidWord word val := by
  unfold ReadKeeps NoInvalidWord
  rw [hread]
  cases word with
  | none => simp [phtransRead]
  | some w =>
      by_cases hbit : w &&& validityBit = 0
      · rw [phtransRead_invalid val hbit]
        constructor
        · intro h w' hw' _
          cases Option.some.inj hw'
          exact h le_rfl
        · exact fun h _ => h w rfl hbit
      · rw [phtransRead_valid val hbit]
        constructor
        · intro _ w' hw' hbit'
          cases Option.some.inj hw'
          exact absurd hbit' hbit
        · exact fun _ hret => absurd hret (Int.not_le.mpr Int.one_pos)

/-- The caller keeps the default when the read does. -/
theorem calibKeeps_iff (s : σ) (val : BitVec 32) :
    CalibKeeps eepromPhtrans s val ↔ ReadKeeps eepromPhtrans s val := by
  constructor
  · intro h hret
    exact (h hret none 0 0 arpNet (by decide)).1
  · intro h hret measured prev mode net hmode
    have hval := h hret
    simp only [calibT24p, if_neg hmode, calibT24pMaster, hval, and_self]

end Calib

/-- A storage of zeros, with a calibration file. -/
def zeroFiles : Sdb.Eeprom where
  vol :=
    { dev := { mem := fun _ => 0 }
      files := fun did => if did = Sdb.sdbDevCalib then some (0, 4) else none }

def zeroEeprom : I2c.Eeprom where
  mem _ := 0

end Storage
end WrpcSw
