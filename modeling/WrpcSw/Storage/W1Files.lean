import WrpcSw.OneWire.Eeprom
import WrpcSw.Storage.SdbEeprom

/-!
# The files on the one-wire EEPROM (`sdb-lib/access.c`, `dev/w1-eeprom.c`)

The filesystem with the W1 methods.  The count of a transfer is cut at the end of the
file.  Behind the end it is negative: a read then transfers nothing, but a write may
still fill up a page.

* `Overruns` — when it does.
* `sdbfsFread_confined`, `sdbfsFwrite_confined_iff` — the accesses of a transfer.
-/

namespace WrpcSw
namespace Storage

open CInt OneWire

/-- `sdb_w1_read` and `sdb_w1_write`, whose offset is an `int`.  What the reads of the directory
return is not looked at.  The bytes behind the caller's buffer read as zero. -/
instance : SdbfsMethods W1Bus where
  scan bus := (bus, true)
  read bus addr count := w1ReadEepromBus bus (i32 addr) count
  write bus addr buf count := w1WriteEepromBus bus (i32 addr) (fun i => buf.getD i 0) count

/-! ## Transfers -/

/-- The address is in the file. -/
def InFile (base len addr : Nat) : Prop := base ≤ addr ∧ addr < base + len

/-- Between the two logs only bytes of the file are asked for; an error or their number is
returned, which is at most the count. -/
def Confined (base len : Nat) (count : Int) (before after : List Access) (ret : Int) : Prop :=
  ∃ new, after = before ++ new ∧ (∀ a ∈ new, InFile base len a.addr) ∧
    (ret < 0 ∨ (ret = new.length ∧ ret ≤ count))

/-- A transfer of an open file, at an offset or behind the last one. -/
structure Request (fs : Sdbfs) (base len : Nat) (offset count : Int) : Prop where
  currentp : fs.currentp = true
  fOffset : fs.fOffset = base
  fLen : fs.fLen = len
  size : base + len ≤ 65536
  offset : (offset = -1 ∧ 0 ≤ fs.readOffset) ∨ 0 ≤ offset
  count : 0 ≤ count

/-- The address that the write method gets. -/
def startOf (base : Nat) (offset : Int) : Int := i32 (base + offset)

/-- A write behind the end of the file that starts inside a page, and not in the page of the
end, fills up its page. -/
def Overruns (base len : Nat) (offset : Int) : Prop :=
  (len : Int) < offset ∧ (startOf base offset).tmod 32 ≠ 0 ∧
    ((base : Int) + len - 1).tdiv 32 ≠ (startOf base offset).tdiv 32

instance (base len : Nat) (offset : Int) : Decidable (Overruns base len offset) :=
  inferInstanceAs (Decidable (_ ∧ _))

/-- The number of bytes to the end of the page. -/
def pageRest (base : Nat) (offset : Int) : Int := 32 - (startOf base offset).tmod 32

/-- The bytes that are written behind the end are none, or have wrapped into the file and are
no more than asked for. -/
def Meets (base len : Nat) (offset count : Int) : Prop :=
  Overruns base len offset →
    (∀ addr ∈ addrs (startOf base offset) (pageRest base offset).toNat, InFile base len addr) ∧
      pageRest base offset ≤ count

section Transfer

variable {fs : Sdbfs} {base len : Nat} {offset count : Int} (h : Request fs base len offset count)

include h in
/-- The offset that is used is not negative. -/
theorem Request.place_nonneg : 0 ≤ fs.place offset := by
  unfold Sdbfs.place
  rcases h.offset with ⟨rfl, hposition⟩ | hnonneg
  · exact hposition
  · rw [if_neg (by omega)]
    exact hnonneg

include h in
/-- The position behind the last transfer, which is zero on opening, stays non-negative. -/
theorem Request.position_nonneg (hposition : 0 ≤ fs.readOffset) (ret : Int) :
    0 ≤ (fs.moved (fs.place offset) ret).readOffset := by
  have hp := h.place_nonneg
  unfold Sdbfs.moved
  split_ifs with hret
  · exact Int.add_nonneg hp (le_of_lt hret)
  · exact hposition

/-- The addresses of bytes inside the file. -/
theorem inFile_addrs {p : Int} {k : Nat} (hp : 0 ≤ p) (hk : p + k ≤ len)
    (hsize : base + len ≤ 65536) : ∀ addr ∈ addrs (base + p) k, InFile base len addr := by
  intro addr hmem
  obtain ⟨i, hi, rfl⟩ := List.mem_map.mp hmem
  have hlt := List.mem_range.mp hi
  unfold InFile
  omega

/-- Inside the file the start is the sum. -/
theorem startOf_eq {p : Int} (hp : 0 ≤ p) (hlen : p ≤ len) (hsize : base + len ≤ 65536) :
    startOf base p = base + p :=
  i32_eq_self (by unfold InI32; omega)

/-- The end of a write, whatever the start. -/
theorem i32_end (hsize : base + len ≤ 65536) (p : Int) :
    i32 (startOf base p + (len - p) - 1) = base + len - 1 := by
  have hself : i32 ((base : Int) + len - 1) = base + len - 1 :=
    i32_eq_self (by unfold InI32; omega)
  rw [← hself, i32_eq_iff]
  have hstart := i32_modEq ((base : Int) + p)
  have hsum := (hstart.add_right ((len : Int) - p - 1))
  have hleft : i32 ((base : Int) + p) + (len - p - 1) = startOf base p + (len - p) - 1 := by
    unfold startOf
    ring
  have hright : (base : Int) + p + (len - p - 1) = base + len - 1 := by ring
  rwa [hleft, hright] at hsum

include h in
theorem Request.clip_inside (hp : fs.place offset ≤ len) :
    0 ≤ fs.clip (fs.place offset) count ∧ fs.clip (fs.place offset) count ≤ count ∧
      fs.place offset + fs.clip (fs.place offset) count ≤ len := by
  have hcount := h.count
  unfold Sdbfs.clip
  rw [h.fLen]
  split_ifs <;> omega

include h in
theorem Request.clip_behind (hp : (len : Int) < fs.place offset) :
    fs.clip (fs.place offset) count = len - fs.place offset := by
  have hcount := h.count
  unfold Sdbfs.clip
  rw [h.fLen]
  exact if_pos (by omega)

include h in
theorem Request.read_eq (bus : W1Bus) (c : Int) :
    SdbfsMethods.read bus ((fs.fOffset : Int) + fs.place offset) c =
      w1ReadEepromBus bus (startOf base (fs.place offset)) c := by
  rw [h.fOffset]
  rfl

include h in
theorem Request.write_eq (bus : W1Bus) (buf : List UInt8) (c : Int) :
    SdbfsMethods.write bus ((fs.fOffset : Int) + fs.place offset) buf c =
      w1WriteEepromBus bus (startOf base (fs.place offset)) (fun i => buf.getD i 0) c := by
  rw [h.fOffset]
  rfl

/-- Nothing is asked for, and nothing or an error returned. -/
theorem confined_of_same {before after : List Access} {ret : Int} (hlog : after = before)
    (hret : ret ≤ 0) (hcount : 0 ≤ count) : Confined base len count before after ret := by
  refine ⟨[], by rw [hlog, List.append_nil], fun a ha => absurd ha (by simp), ?_⟩
  simp only [List.length_nil, Nat.cast_zero]
  omega

/-- A block of the file is asked for, and its length or an error returned. -/
theorem confined_of_block {before after : List Access} {ret p clip : Int} {k : Nat}
    {f : Nat → Access} (hf : ∀ addr, (f addr).addr = addr)
    (hlog : after = before ++ (addrs (base + p) k).map f) (hp : 0 ≤ p) (hclip : p + clip ≤ len)
    (hpositive : 0 ≤ clip) (hcount : clip ≤ count) (hk : k ≤ clip.toNat)
    (hret : ret < 0 ∨ (ret = k ∧ k = clip.toNat)) (hsize : base + len ≤ 65536) :
    Confined base len count before after ret := by
  refine ⟨_, hlog, ?_, ?_⟩
  · intro a ha
    obtain ⟨addr, haddr, rfl⟩ := List.mem_map.mp ha
    rw [hf]
    exact inFile_addrs hp (by omega) hsize addr haddr
  · rw [List.length_map, length_addrs]
    omega

include h in
/-- A read at any place asks for bytes of the file only. -/
theorem Request.read_confined (bus : W1Bus) :
    let r := SdbfsMethods.read bus ((fs.fOffset : Int) + fs.place offset)
      (fs.clip (fs.place offset) count)
    Confined base len count bus.chip.log r.1.chip.log r.2.1 := by
  have hp := h.place_nonneg
  have hcount := h.count
  simp only [h.read_eq, w1ReadEepromBus]
  cases bus.hasEeprom with
  | false => exact confined_of_same rfl (by simp) hcount
  | true =>
      obtain ⟨hlog, hret⟩ := w1ReadEeprom_cases bus.chip (startOf base (fs.place offset))
        (fs.clip (fs.place offset) count)
      simp only [if_true]
      by_cases hin : fs.place offset ≤ len
      · obtain ⟨hpositive, hle, hend⟩ := h.clip_inside hin
        rw [startOf_eq hp hin h.size] at hlog hret ⊢
        exact confined_of_block (fun _ => rfl) hlog hp hend hpositive hle le_rfl
          (Or.inr ⟨by rw [hret]; omega, rfl⟩) h.size
      · have hclip := h.clip_behind (by omega)
        have hnone : (fs.clip (fs.place offset) count).toNat = 0 := by omega
        rw [hnone] at hlog
        exact confined_of_same (hlog.trans (by simp [addrs, addrsFrom])) (by omega) hcount

/-- Every read is confined. -/
theorem sdbfsFread_confined {v : VolumeOf W1Bus} (h : Request v.fs base len offset count) :
    Confined base len count v.dev.chip.log (sdbfsFread v offset count).1.dev.chip.log
      (sdbfsFread v offset count).2.1 := by
  unfold sdbfsFread
  rw [if_pos h.currentp]
  exact h.read_confined v.dev

include h in
/-- A write that does not overrun asks for bytes of the file only, and the bytes it counts
end in the file. -/
theorem Request.write_confined (hnot : ¬Overruns base len (fs.place offset)) (bus : W1Bus)
    (buf : List UInt8) :
    let r := SdbfsMethods.write bus ((fs.fOffset : Int) + fs.place offset) buf
      (fs.clip (fs.place offset) count)
    Confined base len count bus.chip.log r.1.chip.log r.2 ∧
      (r.2 ≤ 0 ∨ fs.place offset + r.2 ≤ len) := by
  have hp := h.place_nonneg
  have hcount := h.count
  simp only [h.write_eq, w1WriteEepromBus]
  cases bus.hasEeprom with
  | false => exact ⟨confined_of_same rfl (by simp) hcount, Or.inl (by simp)⟩
  | true =>
      simp only [if_true]
      by_cases hin : fs.place offset ≤ len
      · obtain ⟨hpositive, hle, hend⟩ := h.clip_inside hin
        have hsize := h.size
        obtain ⟨c', ret, k, hwrite, hlog, hk, hret⟩ :=
          w1WriteEeprom_inside bus.chip (fun i => buf.getD i 0)
            (by omega : 0 ≤ (base : Int) + fs.place offset) hpositive (by omega)
        rw [startOf_eq hp hin h.size, hwrite]
        refine ⟨confined_of_block (fun _ => rfl) hlog hp hend hpositive hle hk hret hsize, ?_⟩
        show ret ≤ 0 ∨ _
        omega
      · have hclip := h.clip_behind (by omega)
        obtain ⟨c', ret, hwrite, hcases⟩ :=
          w1WriteEeprom_behind bus.chip (startOf base (fs.place offset))
            (fun i => buf.getD i 0) (by omega : (len : Int) - fs.place offset < 0)
        rw [i32_end h.size, if_neg (fun hover => hnot ⟨by omega, hover⟩)] at hcases
        rw [hclip, hwrite]
        exact ⟨confined_of_same hcases.1 hcases.2 hcount, Or.inl hcases.2⟩

include h in
/-- A write that overruns fills up a page. -/
theorem Request.write_overruns (hover : Overruns base len (fs.place offset)) {bus : W1Bus}
    (heeprom : bus.hasEeprom = true) (buf : List UInt8) :
    let r := SdbfsMethods.write bus ((fs.fOffset : Int) + fs.place offset) buf
      (fs.clip (fs.place offset) count)
    r.1.chip.log = bus.chip.log ++ (addrs (startOf base (fs.place offset))
        (pageRest base (fs.place offset)).toNat).map .write ∧
      (r.2 < 0 ∨ r.2 = pageRest base (fs.place offset)) ∧
      (bus.chip.line = [] → r.2 = pageRest base (fs.place offset)) := by
  have hbehind := hover.1
  obtain ⟨c', ret, hwrite, hcases⟩ :=
    w1WriteEeprom_behind bus.chip (startOf base (fs.place offset))
      (fun i => buf.getD i 0) (by omega : (len : Int) - fs.place offset < 0)
  rw [i32_end h.size, if_pos hover.2] at hcases
  simp only [h.write_eq, w1WriteEepromBus, heeprom, if_true, h.clip_behind hbehind, hwrite]
  exact hcases

/-- The rest of a page is not empty. -/
theorem pageRest_pos (base : Nat) (p : Int) : 0 < pageRest base p := by
  have hlt := Int.tmod_lt_of_pos (startOf base p) (by decide : (0 : Int) < 32)
  unfold pageRest
  omega

/-- A byte behind the end of the file that the filled page starts with. -/
theorem exists_outside_of_overruns {offset : Nat} (hover : Overruns base len offset)
    (hoffset : offset < 65536) :
    ∃ addr ∈ addrs (startOf base offset) (pageRest base offset).toNat, ¬InFile base len addr := by
  have hrest := pageRest_pos base offset
  have hbehind := hover.1
  have hstart : startOf base offset % 65536 = ((base : Int) + offset) % 65536 :=
    (i32_modEq _).of_dvd (by decide)
  refine ⟨_, List.mem_map.mpr ⟨0, List.mem_range.mpr (by omega), rfl⟩, ?_⟩
  unfold InFile
  omega

/-- A bus with one blank EEPROM and a line without errors. -/
def blankBus : W1Bus where
  devs := [0x43]
  chip := { mem := fun _ => 0xff }

/-- A write is confined, whatever the device does, exactly if it meets the condition. -/
theorem sdbfsFwrite_confined_iff {v : VolumeOf W1Bus} (h : Request v.fs base len offset count) :
    (∀ (bus : W1Bus) (buf : List UInt8),
        Confined base len count bus.chip.log
          (sdbfsFwrite { v with dev := bus } offset buf count).1.dev.chip.log
          (sdbfsFwrite { v with dev := bus } offset buf count).2) ↔
      Meets base len (v.fs.place offset) count := by
  unfold sdbfsFwrite
  simp only [if_pos h.currentp]
  have hrest := pageRest_pos base (v.fs.place offset)
  constructor
  · intro hall hover
    obtain ⟨hlog, -, hret⟩ := h.write_overruns hover (rfl : blankBus.hasEeprom = true) []
    obtain ⟨new, hnew, hin, hreturn⟩ := hall blankBus []
    rw [hlog] at hnew
    obtain rfl := List.append_cancel_left hnew
    rw [hret rfl, List.length_map, length_addrs] at hreturn
    refine ⟨fun addr haddr => hin (.write addr) (List.mem_map_of_mem haddr), by omega⟩
  · intro hmeets bus buf
    by_cases hover : Overruns base len (v.fs.place offset)
    · cases heeprom : bus.hasEeprom with
      | false =>
          simp only [SdbfsMethods.write, w1WriteEepromBus, heeprom]
          exact confined_of_same rfl (by simp) h.count
      | true =>
          obtain ⟨hlog, hret, -⟩ := h.write_overruns hover heeprom buf
          obtain ⟨hin, hcount⟩ := hmeets hover
          refine ⟨_, hlog, ?_, ?_⟩
          · intro a ha
            obtain ⟨addr, haddr, rfl⟩ := List.mem_map.mp ha
            exact hin addr haddr
          · rw [List.length_map, length_addrs]
            rcases hret with hfail | heq
            · exact Or.inl hfail
            · exact Or.inr ⟨by omega, by omega⟩
    · exact (h.write_confined hover bus buf).1

end Transfer

end Storage
end WrpcSw
