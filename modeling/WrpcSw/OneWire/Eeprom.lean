import WrpcSw.Lib.CInt
import Mathlib.Data.List.GetD

/-!
# The EEPROM on the one-wire bus (`dev/w1-eeprom.c`)

A write goes through the scratchpad of the chip: the bytes are sent with their target
address, read back over the line, and copied to the memory.  `w1_write_eeprom` splits a
write into such pages.  Addresses are sent in two bytes, so that they count modulo 65536.

The chip keeps a log of the memory addresses it is asked for.  What the line makes of the
bytes of each read-back is part of its state.

* `w1WritePage_cases` — a page: what is asked for, and the return value.
* `w1WriteEeprom_inside` — a write of a positive count asks for its addresses only.
* `w1WriteEeprom_behind` — what becomes of a negative count.
* `w1WriteEeprom_grows` — a byte that changes is one that was asked for.
-/

namespace WrpcSw
namespace OneWire

open CInt

/-! ## The chip -/

/-- The chip is asked to read or to write the byte at an address. -/
inductive Access
  | read (addr : Nat)
  | write (addr : Nat)
deriving DecidableEq, Repr

def Access.addr : Access → Nat
  | .read addr => addr
  | .write addr => addr

/-- The memory, the scratchpad with its target address, what the line makes of the coming
read-backs, and the log. -/
structure Chip where
  mem : Nat → UInt8
  target : Nat := 0
  spad : List UInt8 := []
  line : List (List UInt8 → List UInt8) := []
  log : List Access := []

/-- The `n` addresses from `target` on. -/
def addrsFrom (target n : Nat) : List Nat := (List.range n).map fun i => (target + i) % 65536

/-- The memory with bytes from an address on. -/
def storeFrom (mem : Nat → UInt8) (target : Nat) (bytes : List UInt8) : Nat → UInt8 :=
  fun addr => if addr < 65536 then bytes.getD ((addr + 65536 - target) % 65536) (mem addr)
    else mem addr

def targetOf (lsb msb : UInt8) : Nat := lsb.toNat + 256 * msb.toNat

/-- `W1_CMDR_W_SPAD`. -/
def Chip.wSpad (c : Chip) (lsb msb : UInt8) (bytes : List UInt8) : Chip :=
  { c with
    target := targetOf lsb msb
    spad := bytes
    log := c.log ++ (addrsFrom (targetOf lsb msb) bytes.length).map .write }

/-- The ending offset of the scratchpad, which authorizes the copy. -/
def Chip.es (c : Chip) : UInt8 := UInt8.ofNat ((c.target + c.spad.length - 1) % 32)

/-- `W1_CMDR_R_SPAD`: target, ending offset and bytes, as they arrive over the line. -/
def Chip.rSpad (c : Chip) : Chip × List UInt8 :=
  ({ c with line := c.line.tail },
    c.line.headD id
      ([UInt8.ofNat c.target, UInt8.ofNat (c.target / 256), c.es] ++ c.spad))

/-- `W1_CMDR_C_SPAD`. -/
def Chip.cSpad (c : Chip) (lsb msb es : UInt8) : Chip :=
  if targetOf lsb msb = c.target ∧ es = c.es then
    { c with mem := storeFrom c.mem c.target c.spad }
  else c

/-- `W1_CMDR_R_MEMORY`. -/
def Chip.rMemory (c : Chip) (lsb msb : UInt8) (n : Nat) : Chip × List UInt8 :=
  ({ c with log := c.log ++ (addrsFrom (targetOf lsb msb) n).map .read },
    (addrsFrom (targetOf lsb msb) n).map c.mem)

/-! ## The driver -/

/-- `LSB_ADDR`. -/
def lsbAddr (x : Int) : UInt8 := UInt8.ofNat (x % 256).toNat

/-- `MSB_ADDR`. -/
def msbAddr (x : Int) : UInt8 := UInt8.ofNat (x / 256 % 256).toNat

/-- The bytes of a buffer that are sent for `blen`. -/
def sentBytes (buffer : Nat → UInt8) (blen : Int) : List UInt8 :=
  (List.range blen.toNat).map buffer

def w1WritePage (c : Chip) (offset : Int) (buffer : Nat → UInt8) (blen : Int) : Chip × Int :=
  let bytes := sentBytes buffer blen
  let r := (c.wSpad (lsbAddr offset) (msbAddr offset) bytes).rSpad
  if r.2.getD 0 0 ≠ lsbAddr offset then (r.1, -1)
  else if r.2.getD 1 0 ≠ msbAddr offset then (r.1, -2)
  else if (r.2.drop 3).take bytes.length ≠ bytes then (r.1, -3)
  else (r.1.cSpad (lsbAddr offset) (msbAddr offset) (r.2.getD 2 0), blen)

/-- The loop over the pages; `n` bounds the number of rounds. -/
def writePages : Nat → Chip → Int → (Nat → UInt8) → Int → Int → Chip × Int
  | 0, c, _, _, _, ret => (c, ret)
  | n + 1, c, offset, buffer, blen, ret =>
      if 0 < blen then
        let r := w1WritePage c offset buffer (if blen > 32 then 32 else blen)
        if r.2 < 0 then r
        else writePages n r.1 (offset + 32) (fun k => buffer (k + 32)) (blen - 32) (ret + r.2)
      else (c, ret)

def w1WriteEeprom (c : Chip) (offset : Int) (buffer : Nat → UInt8) (blen : Int) : Chip × Int :=
  let page := offset.tdiv 32
  let endpage := (i32 (offset + blen - 1)).tdiv 32
  if offset.tmod 32 ≠ 0 then
    -- the trailing part of the first page
    let i := if endpage ≠ page then 32 - offset.tmod 32 else blen
    let r := w1WritePage c offset buffer i
    if r.2 < 0 then r
    else
      writePages (blen - i).toNat r.1 (offset + i) (fun k => buffer (k + i.toNat)) (blen - i) r.2
  else writePages blen.toNat c offset buffer blen 0

def w1ReadEeprom (c : Chip) (offset blen : Int) : Chip × Int × List UInt8 :=
  let r := c.rMemory (lsbAddr offset) (msbAddr offset) blen.toNat
  (r.1, blen, r.2)

/-- The devices of the bus by their ROM codes, and the chip of the first EEPROM among them. -/
structure W1Bus where
  devs : List (BitVec 64)
  chip : Chip

def w1Class (rom : BitVec 64) : BitVec 64 := rom &&& 0xff

/-- The loop over the devices finds an EEPROM. -/
def W1Bus.hasEeprom (bus : W1Bus) : Bool := bus.devs.any fun rom => w1Class rom = 0x43

def w1ReadEepromBus (bus : W1Bus) (offset blen : Int) : W1Bus × Int × List UInt8 :=
  if bus.hasEeprom then
    let r := w1ReadEeprom bus.chip offset blen
    ({ bus with chip := r.1 }, r.2)
  else (bus, -1, [])

def w1WriteEepromBus (bus : W1Bus) (offset : Int) (buffer : Nat → UInt8) (blen : Int) :
    W1Bus × Int :=
  if bus.hasEeprom then
    let r := w1WriteEeprom bus.chip offset buffer blen
    ({ bus with chip := r.1 }, r.2)
  else (bus, -1)

/-! ## What is asked for -/

/-- The addresses of `n` bytes from `offset` on. -/
def addrs (offset : Int) (n : Nat) : List Nat := addrsFrom (offset % 65536).toNat n

@[simp] theorem length_addrs (offset : Int) (n : Nat) : (addrs offset n).length = n := by
  simp [addrs, addrsFrom]

@[simp] theorem length_sentBytes (buffer : Nat → UInt8) (blen : Int) :
    (sentBytes buffer blen).length = blen.toNat := by
  simp [sentBytes]

/-- The two bytes of an address. -/
theorem targetOf_eq (offset : Int) :
    targetOf (lsbAddr offset) (msbAddr offset) = (offset % 65536).toNat := by
  have hlsb : (lsbAddr offset).toNat = (offset % 256).toNat := by
    unfold lsbAddr
    rw [UInt8.toNat_ofNat']
    omega
  have hmsb : (msbAddr offset).toNat = (offset / 256 % 256).toNat := by
    unfold msbAddr
    rw [UInt8.toNat_ofNat']
    omega
  unfold targetOf
  rw [hlsb, hmsb]
  omega

/-- The two bytes of an address, as the chip sends them. -/
theorem target_bytes (offset : Int) :
    UInt8.ofNat (offset % 65536).toNat = lsbAddr offset ∧
      UInt8.ofNat ((offset % 65536).toNat / 256) = msbAddr offset := by
  constructor
  · unfold lsbAddr
    apply UInt8.toNat_inj.mp
    rw [UInt8.toNat_ofNat', UInt8.toNat_ofNat']
    omega
  · unfold msbAddr
    apply UInt8.toNat_inj.mp
    rw [UInt8.toNat_ofNat', UInt8.toNat_ofNat']
    omega

/-- Blocks of addresses that follow each other. -/
theorem addrs_append (offset : Int) (m n : Nat) :
    addrs offset m ++ addrs (offset + m) n = addrs offset (m + n) := by
  unfold addrs addrsFrom
  rw [List.range_add, List.map_append, List.map_map]
  congr 1
  apply List.map_congr_left
  intro i _
  show ((offset + m) % 65536).toNat + i ≡ (offset % 65536).toNat + (m + i) [MOD 65536]
  unfold Nat.ModEq
  omega

theorem cSpad_log (c : Chip) (lsb msb es : UInt8) : (c.cSpad lsb msb es).log = c.log := by
  unfold Chip.cSpad
  split <;> rfl

/-- A page asks for its addresses; it returns its count, or one of the error codes. -/
theorem w1WritePage_cases (c : Chip) (offset : Int) (buffer : Nat → UInt8) (blen : Int) :
    ∃ c' ret, w1WritePage c offset buffer blen = (c', ret) ∧
      c'.log = c.log ++ (addrs offset blen.toNat).map .write ∧
      (ret = blen ∨ ret = -1 ∨ ret = -2 ∨ ret = -3) := by
  have hlog : ((c.wSpad (lsbAddr offset) (msbAddr offset) (sentBytes buffer blen)).rSpad).1.log =
      c.log ++ (addrs offset blen.toNat).map .write := by
    simp only [Chip.rSpad, Chip.wSpad, targetOf_eq, length_sentBytes]
    rfl
  unfold w1WritePage
  simp only
  split_ifs
  · exact ⟨_, _, rfl, hlog, by simp⟩
  · exact ⟨_, _, rfl, hlog, by simp⟩
  · exact ⟨_, _, rfl, hlog, by simp⟩
  · exact ⟨_, _, rfl, (cSpad_log ..).trans hlog, Or.inl rfl⟩

/-- Over a line without errors it returns its count. -/
theorem w1WritePage_clean {c : Chip} (hline : c.line = []) (offset : Int) (buffer : Nat → UInt8)
    (blen : Int) : (w1WritePage c offset buffer blen).2 = blen := by
  have htarget := targetOf_eq offset
  obtain ⟨hlsb, hmsb⟩ := target_bytes offset
  simp [w1WritePage, Chip.rSpad, Chip.wSpad, hline, htarget, hlsb, hmsb]

/-- The loop over the pages asks for addresses one after the other: for all of them, unless a
page fails. -/
theorem writePages_cases (n : Nat) (c : Chip) (offset : Int) (buffer : Nat → UInt8) (blen ret : Int)
    (hn : blen.toNat ≤ n) (hret : 0 ≤ ret) :
    ∃ c' ret' k, writePages n c offset buffer blen ret = (c', ret') ∧
      c'.log = c.log ++ (addrs offset k).map .write ∧ k ≤ blen.toNat ∧
      (ret' < 0 ∨ (ret' = ret + k ∧ k = blen.toNat)) := by
  induction n generalizing c offset buffer blen ret with
  | zero => exact ⟨c, ret, 0, rfl, by simp [addrs, addrsFrom], by omega, Or.inr ⟨by simp, by omega⟩⟩
  | succ n ih =>
      by_cases hpos : 0 < blen
      · obtain ⟨c', r, hpage, hlog, hr⟩ :=
          w1WritePage_cases c offset buffer (if blen > 32 then 32 else blen)
        simp only [writePages, if_pos hpos, hpage]
        by_cases hfail : r < 0
        · rw [if_pos hfail]
          refine ⟨c', r, _, rfl, hlog, ?_, Or.inl hfail⟩
          split_ifs <;> omega
        · rw [if_neg hfail]
          obtain ⟨c'', ret', k, hrest, hlog', hk, hret'⟩ :=
            ih c' (offset + 32) (fun k => buffer (k + 32)) (blen - 32) (ret + r) (by omega)
              (by omega)
          -- this page and those after it
          by_cases hlarge : blen > 32
          · rw [if_pos hlarge] at hlog hr
            refine ⟨c'', ret', 32 + k, hrest, ?_, by omega, by omega⟩
            rw [hlog', hlog, List.append_assoc, ← List.map_append]
            congr 2
            exact addrs_append offset 32 k
          · rw [if_neg hlarge] at hlog hr
            obtain rfl : k = 0 := by omega
            refine ⟨c'', ret', blen.toNat, hrest, ?_, le_rfl, by omega⟩
            rw [hlog', hlog]
            simp [addrs, addrsFrom]
      · simp only [writePages, if_neg hpos]
        exact ⟨c, ret, 0, rfl, by simp [addrs, addrsFrom], by omega, Or.inr ⟨by simp, by omega⟩⟩

/-- A first page that stays within its page and the count, and the pages after it. -/
theorem firstPage_cases (c : Chip) {offset blen i : Int} (buffer : Nat → UInt8) (hi : 0 ≤ i)
    (hle : i ≤ blen) :
    let r := w1WritePage c offset buffer i
    ∃ c' ret k, (if r.2 < 0 then r
        else writePages (blen - i).toNat r.1 (offset + i) (fun k => buffer (k + i.toNat)) (blen - i)
          r.2) = (c', ret) ∧
      c'.log = c.log ++ (addrs offset k).map .write ∧ k ≤ blen.toNat ∧
      (ret < 0 ∨ (ret = k ∧ k = blen.toNat)) := by
  obtain ⟨c', r, hpage, hlog, hr⟩ := w1WritePage_cases c offset buffer i
  simp only [hpage]
  by_cases hfail : r < 0
  · rw [if_pos hfail]
    exact ⟨c', r, i.toNat, rfl, hlog, by omega, Or.inl hfail⟩
  · rw [if_neg hfail]
    obtain ⟨c'', ret, k, hrest, hlog', hk, hret⟩ :=
      writePages_cases _ c' (offset + i) (fun k => buffer (k + i.toNat)) (blen - i) r le_rfl
        (by omega)
    refine ⟨c'', ret, i.toNat + k, hrest, ?_, by omega, by omega⟩
    have hsum : offset + i = offset + i.toNat := by omega
    rw [hlog', hlog, List.append_assoc, ← List.map_append, hsum, addrs_append]

/-- A write of a positive count at a valid address asks for its addresses only, and returns an
error code or the number of bytes. -/
theorem w1WriteEeprom_inside (c : Chip) {offset blen : Int} (buffer : Nat → UInt8)
    (hoffset : 0 ≤ offset) (hblen : 0 ≤ blen) (htop : offset + blen ≤ 65536) :
    ∃ c' ret k, w1WriteEeprom c offset buffer blen = (c', ret) ∧
      c'.log = c.log ++ (addrs offset k).map .write ∧ k ≤ blen.toNat ∧
      (ret < 0 ∨ (ret = k ∧ k = blen.toNat)) := by
  have hend : i32 (offset + blen - 1) = offset + blen - 1 := i32_eq_self (by unfold InI32; omega)
  unfold w1WriteEeprom
  rw [hend, Int.tdiv_eq_ediv_of_nonneg hoffset, Int.tmod_eq_emod_of_nonneg hoffset]
  by_cases hpartial : offset % 32 ≠ 0
  · rw [if_pos hpartial]
    have hpositive : 0 ≤ offset + blen - 1 := by omega
    rw [Int.tdiv_eq_ediv_of_nonneg hpositive]
    by_cases hpage : (offset + blen - 1) / 32 ≠ offset / 32
    · simp only [if_pos hpage]
      exact firstPage_cases c buffer (by omega) (by omega)
    · simp only [if_neg hpage]
      exact firstPage_cases c buffer hblen le_rfl
  · rw [if_neg hpartial]
    obtain ⟨c', ret, k, hpages, hlog, hk, hret⟩ :=
      writePages_cases _ c offset buffer blen 0 le_rfl le_rfl
    exact ⟨c', ret, k, hpages, hlog, hk, by omega⟩

/-- A negative count writes only if the address is inside a page and the end is in another
one; then it fills the page. -/
theorem w1WriteEeprom_behind (c : Chip) (offset : Int) {blen : Int} (buffer : Nat → UInt8)
    (hblen : blen < 0) :
    ∃ c' ret, w1WriteEeprom c offset buffer blen = (c', ret) ∧
      if offset.tmod 32 ≠ 0 ∧ (i32 (offset + blen - 1)).tdiv 32 ≠ offset.tdiv 32 then
        c'.log = c.log ++ (addrs offset (32 - offset.tmod 32).toNat).map .write ∧
          (ret < 0 ∨ ret = 32 - offset.tmod 32) ∧
          (c.line = [] → ret = 32 - offset.tmod 32)
      else c'.log = c.log ∧ ret ≤ 0 := by
  have hnone : blen.toNat = 0 := by omega
  have hempty : (addrs offset blen.toNat).map Access.write = [] := by
    rw [hnone]
    rfl
  have hlt := Int.tmod_lt_of_pos offset (by decide : (0 : Int) < 32)
  unfold w1WriteEeprom
  by_cases hpartial : offset.tmod 32 ≠ 0
  · rw [if_pos hpartial]
    by_cases hpage : (i32 (offset + blen - 1)).tdiv 32 ≠ offset.tdiv 32
    · simp only [if_pos hpage, if_pos (And.intro hpartial hpage)]
      obtain ⟨c', r, hwrite, hlog, hr⟩ := w1WritePage_cases c offset buffer (32 - offset.tmod 32)
      have hclean : c.line = [] → r = 32 - offset.tmod 32 := fun hline => by
        have hret := w1WritePage_clean hline offset buffer (32 - offset.tmod 32)
        rwa [hwrite] at hret
      have hrounds : (blen - (32 - offset.tmod 32)).toNat = 0 := by omega
      simp only [hwrite, hrounds, writePages]
      split_ifs with hfail
      · exact ⟨c', r, rfl, hlog, Or.inl hfail, hclean⟩
      · exact ⟨c', r, rfl, hlog, by omega, hclean⟩
    · have hsame : ¬(offset.tmod 32 ≠ 0 ∧
          (i32 (offset + blen - 1)).tdiv 32 ≠ offset.tdiv 32) := fun h => hpage h.2
      simp only [if_neg hpage, if_neg hsame]
      obtain ⟨c', r, hwrite, hlog, hr⟩ := w1WritePage_cases c offset buffer blen
      rw [hempty, List.append_nil] at hlog
      have hfail : r < 0 := by omega
      simp only [hwrite, if_pos hfail]
      exact ⟨c', r, rfl, hlog, by omega⟩
  · have hsame : ¬(offset.tmod 32 ≠ 0 ∧
        (i32 (offset + blen - 1)).tdiv 32 ≠ offset.tdiv 32) := fun h => hpartial h.1
    rw [if_neg hpartial, hnone]
    simp only [if_neg hsame]
    exact ⟨c, 0, rfl, rfl, le_rfl⟩

/-- A read asks for its addresses, and a negative count for nothing. -/
theorem w1ReadEeprom_cases (c : Chip) (offset blen : Int) :
    (w1ReadEeprom c offset blen).1.log = c.log ++ (addrs offset blen.toNat).map .read ∧
      (w1ReadEeprom c offset blen).2.1 = blen := by
  unfold w1ReadEeprom Chip.rMemory
  rw [targetOf_eq]
  exact ⟨rfl, rfl⟩

/-! ## What is changed -/

/-- The log only grows, and a byte that changes was asked to be written. -/
def Chip.Grows (c c' : Chip) : Prop :=
  ∃ new, c'.log = c.log ++ new ∧ ∀ addr, c'.mem addr ≠ c.mem addr → Access.write addr ∈ new

theorem Chip.Grows.refl (c : Chip) : c.Grows c :=
  ⟨[], (List.append_nil _).symm, fun _ hne => absurd rfl hne⟩

theorem Chip.Grows.trans {c c' c'' : Chip} (h : c.Grows c') (h' : c'.Grows c'') : c.Grows c'' := by
  obtain ⟨new, hlog, hmem⟩ := h
  obtain ⟨new', hlog', hmem'⟩ := h'
  refine ⟨new ++ new', by rw [hlog', hlog, List.append_assoc], ?_⟩
  intro addr hne
  by_cases hsame : c''.mem addr = c'.mem addr
  · exact List.mem_append_left _ (hmem addr (by rwa [hsame] at hne))
  · exact List.mem_append_right _ (hmem' addr hsame)

/-- A byte that is stored over is one of the block. -/
theorem mem_addrsFrom_of_storeFrom_ne {mem : Nat → UInt8} {target addr : Nat} {bytes : List UInt8}
    (htarget : target < 65536) (h : storeFrom mem target bytes addr ≠ mem addr) :
    addr ∈ addrsFrom target bytes.length := by
  unfold storeFrom at h
  split_ifs at h with haddr
  · have hlt : (addr + 65536 - target) % 65536 < bytes.length := by
      by_contra hge
      exact h (List.getD_eq_default _ _ (by omega))
    refine List.mem_map.mpr ⟨_, List.mem_range.mpr hlt, ?_⟩
    omega
  · exact absurd rfl h

theorem w1WritePage_grows (c : Chip) (offset : Int) (buffer : Nat → UInt8) (blen : Int) :
    c.Grows (w1WritePage c offset buffer blen).1 := by
  have htarget : targetOf (lsbAddr offset) (msbAddr offset) < 65536 := by
    rw [targetOf_eq]
    omega
  have hsent : ((c.wSpad (lsbAddr offset) (msbAddr offset) (sentBytes buffer blen)).rSpad).1.log =
      c.log ++ (addrsFrom (targetOf (lsbAddr offset) (msbAddr offset))
        (sentBytes buffer blen).length).map .write := rfl
  unfold w1WritePage
  simp only
  split_ifs
  · exact ⟨_, hsent, fun _ hne => absurd rfl hne⟩
  · exact ⟨_, hsent, fun _ hne => absurd rfl hne⟩
  · exact ⟨_, hsent, fun _ hne => absurd rfl hne⟩
  · refine ⟨_, (cSpad_log ..).trans hsent, ?_⟩
    intro addr hne
    unfold Chip.cSpad at hne
    split_ifs at hne
    · exact List.mem_map_of_mem (mem_addrsFrom_of_storeFrom_ne htarget hne)
    · exact absurd rfl hne

theorem writePages_grows (n : Nat) (c : Chip) (offset : Int) (buffer : Nat → UInt8)
    (blen ret : Int) : c.Grows (writePages n c offset buffer blen ret).1 := by
  induction n generalizing c offset buffer blen ret with
  | zero => exact Chip.Grows.refl c
  | succ n ih =>
      simp only [writePages]
      split_ifs
      · exact w1WritePage_grows ..
      · exact (w1WritePage_grows ..).trans (ih ..)
      · exact w1WritePage_grows ..
      · exact (w1WritePage_grows ..).trans (ih ..)
      · exact Chip.Grows.refl c

theorem w1WriteEeprom_grows (c : Chip) (offset : Int) (buffer : Nat → UInt8) (blen : Int) :
    c.Grows (w1WriteEeprom c offset buffer blen).1 := by
  unfold w1WriteEeprom
  simp only
  split_ifs
  · exact w1WritePage_grows ..
  · exact (w1WritePage_grows ..).trans (writePages_grows ..)
  · exact w1WritePage_grows ..
  · exact (w1WritePage_grows ..).trans (writePages_grows ..)
  · exact writePages_grows ..

/-- What an access over the bus keeps. -/
structure W1Bus.Grows (bus bus' : W1Bus) : Prop where
  devs : bus'.devs = bus.devs
  chip : bus.chip.Grows bus'.chip

theorem w1ReadEepromBus_grows (bus : W1Bus) (offset blen : Int) :
    bus.Grows (w1ReadEepromBus bus offset blen).1 := by
  unfold w1ReadEepromBus
  split_ifs
  · exact ⟨rfl, _, (w1ReadEeprom_cases ..).1, fun _ hne => absurd rfl hne⟩
  · exact ⟨rfl, Chip.Grows.refl _⟩

theorem w1WriteEepromBus_grows (bus : W1Bus) (offset : Int) (buffer : Nat → UInt8) (blen : Int) :
    bus.Grows (w1WriteEepromBus bus offset buffer blen).1 := by
  unfold w1WriteEepromBus
  split_ifs
  · exact ⟨rfl, w1WriteEeprom_grows ..⟩
  · exact ⟨rfl, Chip.Grows.refl _⟩

end OneWire
end WrpcSw
