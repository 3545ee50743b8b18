import WrpcSw.OneWire.Eeprom
import WrpcSw.Storage.SdbSound

/-!
# The persistent MAC address (`dev/sdb-eeprom.c`, `dev/eeprom.c`, `wrc_main.c`)

The address of a node is a file of the storage.  Without one, half of it comes from the serial
number of a thermometer on the 1-wire bus; a build for the I2C storage knows nothing else.  At boot
the address is read into an array on the stack of which only the first half is set, and replaced
when none was found.

* `serialLoop_eq` — the last thermometer of the bus counts.
* `getPersistentMac_eq` — the file, or the serial number when the file is empty or unreadable.
* `Sound.getPersistentMac`, `Sound.setPersistentMac` — on storage where nothing fails.
* `bootMac_determined` — when the address does not depend on what was on the stack.
-/

namespace WrpcSw
namespace Storage

open OneWire Memory

abbrev Mac := Vector UInt8 6

/-! ## The serial number -/

/-- A thermometer by its class. -/
def isThermometer (rom : BitVec 64) : Bool := w1Class rom = 0x28 || w1Class rom = 0x42

def romByte (rom : BitVec 64) (shift : Nat) : UInt8 := ⟨(rom >>> shift).setWidth 8⟩

/-- The array after the three assignments in `get_persistent_mac`. -/
def withSerial (rom : BitVec 64) (mac : Mac) : Mac :=
  #v[mac[0]!, mac[1]!, mac[2]!, romByte rom 24, romByte rom 16, romByte rom 8]

/-- The loop of `get_persistent_mac` over the devices of the bus. -/
def serialLoop (ret : Int) (mac : Mac) : List (BitVec 64) → Int × Mac
  | [] => (ret, mac)
  | rom :: roms =>
      if isThermometer rom then serialLoop 0 (withSerial rom mac) roms
      else serialLoop ret mac roms

/-- The thermometer that counts. -/
def lastSerial (roms : List (BitVec 64)) : Option (BitVec 64) :=
  (roms.filter isThermometer).getLast?

theorem withSerial_withSerial (rom rom' : BitVec 64) (mac : Mac) :
    withSerial rom (withSerial rom' mac) = withSerial rom mac := rfl

/-- The last thermometer of the bus counts. -/
theorem serialLoop_eq (ret : Int) (mac : Mac) (roms : List (BitVec 64)) :
    serialLoop ret mac roms =
      match lastSerial roms with
      | some rom => (0, withSerial rom mac)
      | none => (ret, mac) := by
  induction roms generalizing ret mac with
  | nil => rfl
  | cons rom roms ih =>
      unfold serialLoop
      by_cases hrom : isThermometer rom
      · rw [if_pos hrom, ih, lastSerial, lastSerial, List.filter_cons_of_pos hrom]
        cases hlast : roms.filter isThermometer with
        | nil => rfl
        | cons first rest =>
            rw [List.getLast?_cons_cons, List.getLast?_cons]
            exact congrArg (Prod.mk 0) (withSerial_withSerial ..)
      · rw [if_neg hrom, ih, lastSerial, lastSerial, List.filter_cons_of_neg hrom]

/-! ## The two builds -/

/-- The persistent address of a build: `get_persistent_mac` for the devices of the bus, with its
return value and the caller's array, and `set_persistent_mac`.  `restart` is a boot. -/
structure MacDriver (σ : Type*) where
  get : List (BitVec 64) → σ → Mac → σ × Int × Mac
  set : Mac → σ → σ × Int
  restart : σ → σ

namespace I2c

/-- `get_persistent_mac` of `dev/eeprom.c`, which does not report that it found nothing. -/
def getPersistentMac (roms : List (BitVec 64)) (mac : Mac) : Int × Mac :=
  (0, (serialLoop 0 mac roms).2)

/-- The persistent address in a build for the I2C storage, which cannot save one. -/
def macDriver {σ : Type*} : MacDriver σ where
  get roms s mac := (s, getPersistentMac roms mac)
  set _ s := (s, -1)
  restart s := s

end I2c

namespace Sdb

def sdbDevMac : Nat := 0x6d61632d

/-- The array after a read that put `bytes` into it. -/
def fill (mac : Mac) (bytes : List UInt8) : Mac := Vector.ofFn fun i => bytes.getD i (mac.get i)

/-- The test for a file that was never written. -/
def isEmpty (mac : Mac) : Bool :=
  mac[0]! = 0xff || mac[0]! ||| mac[1]! ||| mac[2]! ||| mac[3]! ||| mac[4]! ||| mac[5]! = 0

section Driver

variable {δ : Type} [SdbfsMethods δ]

def getPersistentMac (roms : List (BitVec 64)) (s : EepromOf δ) (mac : Mac) :
    EepromOf δ × Int × Mac :=
  let o := s.openId sdbDevMac
  if !o.2 then (o.1, -1, mac)
  else
    let r := sdbfsFread o.1.vol 0 6
    let s := EepromOf.close { o.1 with vol := r.1 }
    let mac := fill mac r.2.2
    let ret := if isEmpty mac then -1 else r.2.1
    let found := if ret < 0 then serialLoop ret mac roms else (ret, mac)
    if found.1 < 0 then (s, -1, found.2) else (s, 0, found.2)

def setPersistentMac (mac : Mac) (s : EepromOf δ) : EepromOf δ × Int :=
  let o := s.openId sdbDevMac
  let r := if o.2 then sdbfsFwrite o.1.vol 0 mac.toList 6 else (o.1.vol, -1)
  (EepromOf.close { o.1 with vol := r.1 }, if r.2 < 0 then -1 else 0)

/-- The persistent address in a file of the storage.  A boot clears the static variables. -/
def macDriver : MacDriver (EepromOf δ) where
  get := getPersistentMac
  set := setPersistentMac
  restart s := { vol := { dev := s.vol.dev, files := s.vol.files } }

end Driver

/-- The address for an array that was read, and whether there is one. -/
def chosenMac (roms : List (BitVec 64)) (readable : Bool) (mac : Mac) : Int × Mac :=
  if readable && !isEmpty mac then (0, mac)
  else
    match lastSerial roms with
    | some rom => (0, withSerial rom mac)
    | none => (-1, mac)

/-- The file counts unless it is empty or cannot be read; then the serial number does. -/
theorem getPersistentMac_eq {δ : Type} [SdbfsMethods δ] (roms : List (BitVec 64)) (s : EepromOf δ)
    (mac : Mac) :
    getPersistentMac roms s mac =
      if (s.openId sdbDevMac).2 then
        let r := sdbfsFread (s.openId sdbDevMac).1.vol 0 6
        (EepromOf.close { (s.openId sdbDevMac).1 with vol := r.1 },
          chosenMac roms (decide (0 ≤ r.2.1)) (fill mac r.2.2))
      else ((s.openId sdbDevMac).1, -1, mac) := by
  unfold getPersistentMac
  dsimp only
  cases (s.openId sdbDevMac).2 with
  | false => rfl
  | true =>
      rw [if_neg (by decide), if_pos rfl]
      generalize sdbfsFread (s.openId sdbDevMac).1.vol 0 6 = r
      unfold chosenMac
      by_cases hfile : 0 ≤ r.2.1 ∧ isEmpty (fill mac r.2.2) = false
      · have hret : ¬ r.2.1 < 0 := Int.not_lt.mpr hfile.1
        have hsame : (if isEmpty (fill mac r.2.2) then (-1 : Int) else r.2.1) = r.2.1 := by
          rw [hfile.2]
          rfl
        have hchosen : (decide (0 ≤ r.2.1) && !isEmpty (fill mac r.2.2)) = true := by
          rw [hfile.2, decide_eq_true hfile.1]
          rfl
        rw [if_pos hchosen, hsame, if_neg hret]
        exact if_neg hret
      · have hret : (if isEmpty (fill mac r.2.2) then (-1 : Int) else r.2.1) < 0 := by
          split_ifs with hempty
          · decide
          · exact Int.not_le.mp fun hle => hfile ⟨hle, Bool.eq_false_of_not_eq_true hempty⟩
        have hchosen : ¬ (decide (0 ≤ r.2.1) && !isEmpty (fill mac r.2.2)) = true := by
          rw [Bool.and_eq_true, decide_eq_true_eq, Bool.not_eq_true']
          exact hfile
        rw [if_neg hchosen, if_pos hret, serialLoop_eq]
        cases lastSerial roms with
        | none => exact if_pos hret
        | some rom => rfl

section Sound

variable {s : Eeprom} {base len : Nat} {m : Nat → UInt8}

/-- The address in the file of the storage. -/
def savedMac (m : Nat → UInt8) (base : Nat) : Mac := Vector.ofFn fun i => m (base + i)

theorem fill_savedMac (mac : Mac) (m : Nat → UInt8) (base : Nat) :
    fill mac (readAt m base 6) = savedMac m base := by
  apply Vector.ext
  intro i hi
  have hlen : i < (readAt m base 6).length := by rwa [length_readAt]
  rw [fill, savedMac, Vector.getElem_ofFn, Vector.getElem_ofFn, List.getD_eq_getElem _ _ hlen,
    getElem_readAt]

theorem savedMac_writeAt (mac : Mac) (m : Nat → UInt8) (base : Nat) :
    savedMac (writeAt m base mac.toList) base = mac := by
  apply Vector.ext
  intro i hi
  have hlen : i < mac.toList.length := by rwa [Vector.length_toList]
  rw [savedMac, Vector.getElem_ofFn, writeAt_inside _ _ _ hlen, Vector.getElem_toList]

/-- What is read from storage where nothing fails. -/
theorem Sound.getPersistentMac (h : Sound sdbDevMac 6 s base len m) (roms : List (BitVec 64))
    (mac : Mac) :
    ∃ s' : Eeprom, Sdb.getPersistentMac roms s mac =
        (s', chosenMac roms true (savedMac m base)) ∧ Sound sdbDevMac 6 s' base len m := by
  obtain ⟨w, hopen, hw, hsound⟩ := h.openId
  obtain ⟨v, ret, bytes, hread, hkept, hmem, hret⟩ := sdbfsFread_cases hw 0 6 hsound.room
  obtain ⟨-, hret, hbytes⟩ | ⟨hfail, -⟩ := hret
  · refine ⟨EepromOf.close { s with vol := v }, ?_,
      (hsound.after hkept.files hkept.outcomes (hmem.trans hsound.mem)).congr rfl rfl⟩
    have hread : sdbfsFread w 0 6 = (v, ret, bytes) := hread
    have hbytes : bytes = readAt m base 6 := by rw [hbytes, hsound.mem]; rfl
    rw [getPersistentMac_eq, hopen, if_pos rfl]
    dsimp only
    rw [hread, hbytes, fill_savedMac, hret]
    rfl
  · exact absurd hsound.outcome hfail

/-- What is saved on storage where nothing fails. -/
theorem Sound.setPersistentMac (h : Sound sdbDevMac 6 s base len m) (mac : Mac) :
    ∃ s' : Eeprom, Sdb.setPersistentMac mac s = (s', 0) ∧
      Sound sdbDevMac 6 s' base len (writeAt m base mac.toList) := by
  obtain ⟨w, hopen, hw, hsound⟩ := h.openId
  obtain ⟨v, ret, stored, hwrite, hkept, hmem, hret⟩ :=
    sdbfsFwrite_cases hw 0 6 hsound.room mac.toList
  obtain ⟨-, hret, hstored⟩ | ⟨hfail, -⟩ := hret
  · have hwrite : sdbfsFwrite w 0 mac.toList 6 = (v, ret) := hwrite
    have htake : mac.toList.take stored = mac.toList := by
      rw [hstored, List.take_of_length_le (by rw [Vector.length_toList])]
    rw [htake, hsound.mem] at hmem
    refine ⟨EepromOf.close { s with vol := v }, ?_,
      (hsound.after hkept.files hkept.outcomes hmem).congr rfl rfl⟩
    unfold Sdb.setPersistentMac
    rw [hopen]
    dsimp only
    rw [if_pos rfl, hwrite, hret]
    rfl
  · exact absurd hsound.outcome hfail

end Sound

end Sdb

/-! ## The address at boot -/

def fallbackMac : Mac := #v[0x11, 0x22, 0x33, 0x44, 0x55, 0x66]

/-- The array of `wrc_initialize`: the first half is set, the rest is what was on the stack. -/
def macAddr (stack : Mac) : Mac := #v[0x08, 0x00, 0x30, stack[3]!, stack[4]!, stack[5]!]

section Boot

variable {σ : Type*}

/-- The part of `wrc_initialize` that finds the address. -/
def bootMac (d : MacDriver σ) (roms : List (BitVec 64)) (s : σ) (stack : Mac) : σ × Mac :=
  let r := d.get roms s (macAddr stack)
  (r.1, if r.2.1 = -1 then fallbackMac else r.2.2)

/-- Without a file that can be read, the second half of the array does not matter. -/
theorem bootMac_unreadable {roms : List (BitVec 64)} {mac mac' : Mac} (h0 : mac[0]! = mac'[0]!)
    (h1 : mac[1]! = mac'[1]!) (h2 : mac[2]! = mac'[2]!) :
    (if (Sdb.chosenMac roms false mac).1 = -1 then fallbackMac
        else (Sdb.chosenMac roms false mac).2) =
      if (Sdb.chosenMac roms false mac').1 = -1 then fallbackMac
        else (Sdb.chosenMac roms false mac').2 := by
  have hchosen : ∀ mac : Mac, Sdb.chosenMac roms false mac =
      match lastSerial roms with
      | some rom => (0, withSerial rom mac)
      | none => (-1, mac) := fun _ => rfl
  rw [hchosen, hchosen]
  cases lastSerial roms with
  | none => rfl
  | some rom =>
      show (#v[_, _, _, _, _, _] : Mac) = #v[_, _, _, _, _, _]
      rw [h0, h1, h2]

theorem sdb_bootMac_determined (roms : List (BitVec 64)) {s : Sdb.Eeprom}
    (hroom : ∀ base len, s.vol.files Sdb.sdbDevMac = some (base, len) → 6 ≤ len)
    (stack stack' : Mac) :
    bootMac Sdb.macDriver roms s stack = bootMac Sdb.macDriver roms s stack' := by
  unfold bootMac
  show (let r := Sdb.getPersistentMac roms s (macAddr stack)
    (r.1, if r.2.1 = -1 then fallbackMac else r.2.2)) =
      let r := Sdb.getPersistentMac roms s (macAddr stack')
      (r.1, if r.2.1 = -1 then fallbackMac else r.2.2)
  rw [Sdb.getPersistentMac_eq, Sdb.getPersistentMac_eq]
  cases hopened : (s.openId Sdb.sdbDevMac).2 with
  | false => rfl
  | true =>
      dsimp only
      rw [if_pos rfl, if_pos rfl]
      cases hfile : s.vol.files Sdb.sdbDevMac with
      | none =>
          rw [Sdb.EepromOf.openId, sdbfsOpenId_missing hfile] at hopened
          exact absurd (show false = true from hopened) Bool.false_ne_true
      | some file =>
          obtain ⟨base, len⟩ := file
          rcases Sdb.openId_cases hfile with ⟨w, hopen, hw, -⟩ | ⟨hopen, -⟩
          · obtain ⟨v, ret, bytes, hread, -, -, hret⟩ :=
              sdbfsFread_cases hw 0 6 (hroom base len hfile)
            have hread : sdbfsFread w 0 6 = (v, ret, bytes) := hread
            rw [hopen]
            dsimp only
            rw [hread]
            refine congrArg (Prod.mk _) ?_
            rcases hret with ⟨-, -, hbytes⟩ | ⟨-, hneg⟩
            · rw [hbytes, Sdb.fill_savedMac, Sdb.fill_savedMac]
            · rw [decide_eq_false (Int.not_le.mpr hneg)]
              -- the first half of the array is set
              have hfill : ∀ (mac : Mac) (i : Fin 6), (Sdb.fill mac bytes)[i] =
                  bytes.getD i (mac.get i) := fun _ i => Vector.getElem_ofFn i.isLt
              exact bootMac_unreadable ((hfill _ 0).trans (hfill _ 0).symm)
                ((hfill _ 1).trans (hfill _ 1).symm) ((hfill _ 2).trans (hfill _ 2).symm)
          · rw [hopen] at hopened
            exact absurd hopened Bool.false_ne_true

theorem i2c_bootMac_determined_iff (roms : List (BitVec 64)) (s : σ) :
    (∀ stack stack' : Mac,
        bootMac I2c.macDriver roms s stack = bootMac I2c.macDriver roms s stack') ↔
      ∃ rom ∈ roms, isThermometer rom := by
  have hlast : lastSerial roms = none ↔ ¬ ∃ rom ∈ roms, isThermometer rom := by
    rw [lastSerial, List.getLast?_eq_none_iff, List.filter_eq_nil_iff]
    simp
  have hboot : ∀ stack : Mac, bootMac I2c.macDriver roms s stack =
      (s, match lastSerial roms with
        | some rom => withSerial rom (macAddr stack)
        | none => macAddr stack) := by
    intro stack
    show (s, (serialLoop 0 (macAddr stack) roms).2) = _
    rw [serialLoop_eq]
    cases lastSerial roms <;> rfl
  simp only [hboot]
  cases hcase : lastSerial roms with
  | some rom =>
      have hsome : ∃ rom ∈ roms, isThermometer rom := by
        by_contra hnone
        exact absurd (hlast.mpr hnone) (by rw [hcase]; exact nofun)
      exact ⟨fun _ => hsome, fun _ _ _ => rfl⟩
  | none =>
      -- two stacks that differ where the array was not set
      refine ⟨fun h => ?_, fun hsome => absurd hsome (hlast.mp hcase)⟩
      have hsame : macAddr (Vector.replicate 6 0) = macAddr (Vector.replicate 6 1) :=
        congrArg Prod.snd (h (Vector.replicate 6 0) (Vector.replicate 6 1))
      exact absurd hsame (by decide)

end Boot

/-- A device whose accesses fail, with a file for the address. -/
def deafEeprom : Sdb.Eeprom where
  vol :=
    { dev := { mem := fun _ => 0xff, outcomes := [.failed 0 6, .failed 0 6] }
      files := fun did => if did = Sdb.sdbDevMac then some (0, 6) else none }

end Storage
end WrpcSw
