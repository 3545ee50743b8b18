import Mathlib.Data.List.GetD
import Mathlib.Tactic.SplitIfs

/-!
# A memory of cells

Memory is a function from addresses to cells.  This module reads and writes blocks
of it, with the two rules every argument about a layout needs: a block holds what
was written to it, and a write elsewhere leaves it alone.

* `readAt`, `writeAt` — blocks of consecutive cells.
* `HoldsAt` — a block of known contents; blocks that follow each other append.
* `readRing`, `fillRing` — blocks of a ring, which go on at its first cell.
-/

namespace WrpcSw
namespace Memory

variable {α : Type*}

/-- The `n` cells from `addr` on. -/
def readAt (m : Nat → α) (addr n : Nat) : List α := (List.range n).map fun i => m (addr + i)

/-- The memory with the cells of `cs` from `addr` on. -/
def writeAt (m : Nat → α) (addr : Nat) (cs : List α) : Nat → α :=
  fun i => if addr ≤ i then cs.getD (i - addr) (m i) else m i

@[simp] theorem length_readAt (m : Nat → α) (addr n : Nat) : (readAt m addr n).length = n := by
  simp [readAt]

@[simp] theorem getElem_readAt (m : Nat → α) (addr n i : Nat) (h : i < (readAt m addr n).length) :
    (readAt m addr n)[i] = m (addr + i) := by
  simp [readAt]

@[simp] theorem readAt_zero (m : Nat → α) (addr : Nat) : readAt m addr 0 = [] := rfl

theorem readAt_one (m : Nat → α) (addr : Nat) : readAt m addr 1 = [m addr] := rfl

theorem readAt_add (m : Nat → α) (addr n k : Nat) :
    readAt m addr (n + k) = readAt m addr n ++ readAt m (addr + n) k := by
  simp only [readAt, List.range_add, List.map_append, List.map_map]
  congr 1
  apply List.map_congr_left
  intro i _
  simp [Nat.add_assoc]

theorem readAt_congr {m m' : Nat → α} {addr n : Nat}
    (h : ∀ i, addr ≤ i → i < addr + n → m i = m' i) : readAt m addr n = readAt m' addr n := by
  apply List.map_congr_left
  intro i hi
  have hlt := List.mem_range.mp hi
  exact h _ (by omega) (by omega)

/-! ## Writes -/

section Write

variable (m : Nat → α) (addr : Nat) (cs : List α)

/-- A write reaches only its own block. -/
theorem writeAt_outside {i : Nat} (h : i < addr ∨ addr + cs.length ≤ i) :
    writeAt m addr cs i = m i := by
  unfold writeAt
  split_ifs with hle
  · exact List.getD_eq_default _ _ (by omega)
  · rfl

theorem writeAt_inside {i : Nat} (h : i < cs.length) : writeAt m addr cs (addr + i) = cs[i] := by
  unfold writeAt
  rw [if_pos (Nat.le_add_right addr i), Nat.add_sub_cancel_left, List.getD_eq_getElem _ _ h]

/-- The same write into memories that agree at an address, or have it in the block written. -/
theorem writeAt_congr {m' : Nat → α} {i : Nat}
    (h : m i = m' i ∨ (addr ≤ i ∧ i < addr + cs.length)) :
    writeAt m addr cs i = writeAt m' addr cs i := by
  rcases h with h | ⟨hlo, hhi⟩
  · unfold writeAt
    rw [h]
  · obtain ⟨k, rfl⟩ := Nat.exists_eq_add_of_le hlo
    have hk : k < cs.length := by omega
    rw [writeAt_inside m addr cs hk, writeAt_inside m' addr cs hk]

theorem writeAt_singleton (c : α) : writeAt m addr [c] addr = c :=
  writeAt_inside m addr [c] (i := 0) Nat.zero_lt_one

/-- A cell that a write changes is in its block. -/
theorem mem_block_of_writeAt_ne {i : Nat} (h : writeAt m addr cs i ≠ m i) :
    addr ≤ i ∧ i < addr + cs.length := by
  apply Decidable.byContradiction
  intro hout
  exact h (writeAt_outside m addr cs (by omega))

@[simp] theorem writeAt_nil : writeAt m addr [] = m := by
  funext i
  exact writeAt_outside m addr [] (by simp; omega)

theorem readAt_writeAt : readAt (writeAt m addr cs) addr cs.length = cs := by
  apply List.ext_getElem (length_readAt ..)
  intro i hi hi'
  rw [getElem_readAt, writeAt_inside m addr cs hi']

theorem readAt_writeAt_of_length {n : Nat} (h : cs.length = n) :
    readAt (writeAt m addr cs) addr n = cs := by
  rw [← h]
  exact readAt_writeAt m addr cs

theorem readAt_writeAt_other {a n : Nat} (h : a + n ≤ addr ∨ addr + cs.length ≤ a) :
    readAt (writeAt m addr cs) a n = readAt m a n := by
  refine readAt_congr fun i hi hi' => writeAt_outside m addr cs ?_
  rcases h with h | h
  · exact Or.inl (by omega)
  · exact Or.inr (by omega)

/-- Two writes that follow each other are one. -/
theorem writeAt_append (ds : List α) :
    writeAt (writeAt m addr cs) (addr + cs.length) ds = writeAt m addr (cs ++ ds) := by
  funext i
  by_cases hi : i < addr + cs.length
  · rw [writeAt_outside _ _ ds (Or.inl hi)]
    by_cases hlo : i < addr
    · rw [writeAt_outside m addr cs (Or.inl hlo), writeAt_outside m addr _ (Or.inl hlo)]
    · obtain ⟨k, rfl⟩ := Nat.exists_eq_add_of_le (Nat.le_of_not_lt hlo)
      have hk : k < cs.length := by omega
      rw [writeAt_inside m addr cs hk, writeAt_inside m addr (cs ++ ds) (i := k)
        (by rw [List.length_append]; omega), List.getElem_append_left hk]
  · obtain ⟨k, rfl⟩ := Nat.exists_eq_add_of_le (Nat.le_of_not_lt hi)
    by_cases hk : k < ds.length
    · rw [writeAt_inside _ _ ds hk, Nat.add_assoc, writeAt_inside m addr (cs ++ ds)
        (by rw [List.length_append]; omega), List.getElem_append_right (by omega)]
      simp only [Nat.add_sub_cancel_left]
    · rw [writeAt_outside _ _ ds (by omega), writeAt_outside m addr cs (by omega),
        writeAt_outside m addr _ (by rw [List.length_append]; omega)]

/-- The write of a block over the beginning of another one. -/
theorem writeAt_writeAt_start {ds : List α} (h : ds.length ≤ cs.length) :
    writeAt (writeAt m addr cs) addr ds = writeAt m addr (ds ++ cs.drop ds.length) := by
  rw [← writeAt_append]
  funext i
  by_cases hin : addr ≤ i ∧ i < addr + ds.length
  · obtain ⟨k, rfl⟩ := Nat.exists_eq_add_of_le hin.1
    have hk : k < ds.length := by omega
    rw [writeAt_inside _ addr ds hk, writeAt_outside _ _ _ (Or.inl (by omega)),
      writeAt_inside m addr ds hk]
  · rw [writeAt_outside _ addr ds (by omega)]
    by_cases hrest : addr + ds.length ≤ i ∧ i < addr + cs.length
    · obtain ⟨k, rfl⟩ := Nat.exists_eq_add_of_le hrest.1
      rw [Nat.add_assoc, writeAt_inside m addr cs (by omega), ← Nat.add_assoc,
        writeAt_inside _ (addr + ds.length) _ (by rw [List.length_drop]; omega),
        List.getElem_drop]
    · rw [writeAt_outside m addr cs (by omega),
        writeAt_outside _ _ _ (by rw [List.length_drop]; omega),
        writeAt_outside m addr ds (by omega)]

/-- A write over a block of the same length replaces it. -/
theorem writeAt_writeAt_same {ds : List α} (h : cs.length = ds.length) :
    writeAt (writeAt m addr cs) addr ds = writeAt m addr ds := by
  rw [writeAt_writeAt_start m addr cs (Nat.le_of_eq h.symm), ← h, List.drop_length,
    List.append_nil]

end Write

/-! ## Blocks of known contents -/

/-- The cells from `addr` on are those of `cs`. -/
def HoldsAt (m : Nat → α) (addr : Nat) (cs : List α) : Prop := readAt m addr cs.length = cs

section HoldsAt

variable {m : Nat → α} {addr : Nat} {cs ds : List α}

theorem HoldsAt.written : HoldsAt (writeAt m addr cs) addr cs := readAt_writeAt m addr cs

theorem HoldsAt.append (h : HoldsAt m addr cs) (k : HoldsAt m (addr + cs.length) ds) :
    HoldsAt m addr (cs ++ ds) := by
  unfold HoldsAt
  rw [List.length_append, readAt_add, h, k]

theorem HoldsAt.split (h : HoldsAt m addr (cs ++ ds)) :
    HoldsAt m addr cs ∧ HoldsAt m (addr + cs.length) ds := by
  unfold HoldsAt at h
  rw [List.length_append, readAt_add] at h
  exact List.append_inj h (length_readAt ..)

theorem HoldsAt.getElem (h : HoldsAt m addr cs) {i : Nat} (hi : i < cs.length) :
    m (addr + i) = cs[i] := by
  have hget : (readAt m addr cs.length)[i]? = cs[i]? := by
    rw [show readAt m addr cs.length = cs from h]
  rw [List.getElem?_eq_getElem hi, List.getElem?_eq_getElem (by simpa using hi),
    getElem_readAt] at hget
  exact Option.some.inj hget

theorem HoldsAt.cons {c : α} (h : HoldsAt m addr (c :: cs)) :
    m addr = c ∧ HoldsAt m (addr + 1) cs := by
  obtain ⟨hhead, htail⟩ := HoldsAt.split (show HoldsAt m addr ([c] ++ cs) from h)
  exact ⟨(List.cons.inj hhead).1, htail⟩

/-- A write elsewhere leaves a block alone. -/
theorem HoldsAt.write (h : HoldsAt m addr cs) {a : Nat}
    (hfar : addr + cs.length ≤ a ∨ a + ds.length ≤ addr) : HoldsAt (writeAt m a ds) addr cs := by
  unfold HoldsAt
  rw [readAt_writeAt_other m a ds hfar]
  exact h

/-- A memory that differs in one block only, with its contents. -/
theorem HoldsAt.eq_writeAt (h : HoldsAt m addr cs) {m₀ : Nat → α}
    (hout : ∀ i, i < addr ∨ addr + cs.length ≤ i → m i = m₀ i) : m = writeAt m₀ addr cs := by
  funext i
  by_cases hin : addr ≤ i ∧ i < addr + cs.length
  · obtain ⟨k, rfl⟩ := Nat.exists_eq_add_of_le hin.1
    have hk : k < cs.length := by omega
    rw [writeAt_inside m₀ addr cs hk, h.getElem hk]
  · rw [writeAt_outside m₀ addr cs (by omega)]
    exact hout i (by omega)

/-- Writing what is there already changes nothing. -/
theorem HoldsAt.writeAt_eq (h : HoldsAt m addr cs) : writeAt m addr cs = m :=
  (h.eq_writeAt fun _ _ => rfl).symm

end HoldsAt

/-! ## Rings -/

/-- The `n` cells from `start` on of a ring of `size` cells. -/
def readRing (m : Nat → α) (size start n : Nat) : List α :=
  (List.range n).map fun i => m ((start + i) % size)

/-- The cell `p` is one of the `n` cells from `start` on of a ring of `size` cells. -/
def InRing (size start n p : Nat) : Prop := ∃ i, i < n ∧ p = (start + i) % size

instance (size start n p : Nat) : Decidable (InRing size start n p) :=
  inferInstanceAs (Decidable (∃ i, i < n ∧ p = (start + i) % size))

/-- The memory with the value `c` in `n` cells of a ring. -/
def fillRing (m : Nat → α) (size start n : Nat) (c : α) : Nat → α :=
  fun p => if InRing size start n p then c else m p

theorem writeAt_replicate (m : Nat → α) (addr n : Nat) (c : α) (p : Nat) :
    writeAt m addr (List.replicate n c) p = if addr ≤ p ∧ p < addr + n then c else m p := by
  have hlength : (List.replicate n c).length = n := List.length_replicate
  split_ifs with hin
  · obtain ⟨k, rfl⟩ := Nat.exists_eq_add_of_le hin.1
    rw [writeAt_inside m addr _ (by omega), List.getElem_replicate]
  · exact writeAt_outside m addr _ (by omega)

section Ring

variable {size start n : Nat}

theorem readRing_mod (m : Nat → α) (size start n : Nat) :
    readRing m size (start % size) n = readRing m size start n := by
  simp only [readRing, Nat.mod_add_mod]

theorem inRing_mod (p : Nat) : InRing size (start % size) n p ↔ InRing size start n p := by
  simp only [InRing, Nat.mod_add_mod]

/-- A block that does not reach past the last cell. -/
theorem readRing_inside (m : Nat → α) (h : start + n ≤ size) :
    readRing m size start n = readAt m start n := by
  apply List.map_congr_left
  intro i hi
  have hlt := List.mem_range.mp hi
  rw [Nat.mod_eq_of_lt (by omega)]

/-- A block that goes on at the first cell. -/
theorem readRing_around (m : Nat → α) (hstart : start ≤ size) (hpast : size ≤ start + n)
    (hn : n ≤ size) :
    readRing m size start n =
      readAt m start (size - start) ++ readAt m 0 (n - (size - start)) := by
  obtain ⟨rest, rfl⟩ := Nat.exists_eq_add_of_le (show size - start ≤ n by omega)
  have hfirst := readRing_inside m (show start + (size - start) ≤ size by omega)
  have hrest : size - start + rest - (size - start) = rest := by omega
  unfold readRing at hfirst ⊢
  rw [List.range_add, List.map_append, hfirst, hrest, List.map_map]
  congr 1
  apply List.map_congr_left
  intro i hi
  have hlt := List.mem_range.mp hi
  have hwrap : start + (size - start + i) = i + size := by omega
  rw [Function.comp_apply, hwrap, Nat.add_mod_right, Nat.mod_eq_of_lt (by omega), Nat.zero_add]

theorem inRing_inside (h : start + n ≤ size) (p : Nat) :
    InRing size start n p ↔ start ≤ p ∧ p < start + n := by
  constructor
  · rintro ⟨i, hi, rfl⟩
    rw [Nat.mod_eq_of_lt (by omega)]
    omega
  · rintro ⟨hlow, hhigh⟩
    refine ⟨p - start, by omega, ?_⟩
    rw [Nat.mod_eq_of_lt (by omega)]
    omega

theorem inRing_around (hstart : start < size) (hpast : size ≤ start + n) (hn : n ≤ size)
    (p : Nat) :
    InRing size start n p ↔ (start ≤ p ∧ p < size) ∨ p < n - (size - start) := by
  constructor
  · rintro ⟨i, hi, rfl⟩
    by_cases hwrap : start + i < size
    · rw [Nat.mod_eq_of_lt hwrap]
      omega
    · rw [Nat.mod_eq_sub_mod (by omega), Nat.mod_eq_of_lt (by omega)]
      omega
  · rintro (⟨hlow, hhigh⟩ | hlow)
    · refine ⟨p - start, by omega, ?_⟩
      rw [Nat.mod_eq_of_lt (by omega)]
      omega
    · refine ⟨size - start + p, by omega, ?_⟩
      rw [show start + (size - start + p) = p + size by omega, Nat.add_mod_right,
        Nat.mod_eq_of_lt (by omega)]

/-- Filling a block that does not reach past the last cell. -/
theorem fillRing_inside (m : Nat → α) (h : start + n ≤ size) (c : α) :
    writeAt m start (List.replicate n c) = fillRing m size start n c := by
  funext p
  rw [writeAt_replicate, fillRing]
  exact if_congr (inRing_inside h p).symm rfl rfl

/-- Filling a block that goes on at the first cell, in two parts. -/
theorem fillRing_around (m : Nat → α) (hstart : start < size) (hpast : size ≤ start + n)
    (hn : n ≤ size) (c : α) :
    writeAt (writeAt m start (List.replicate (size - start) c)) 0
        (List.replicate (n - (size - start)) c) = fillRing m size start n c := by
  funext p
  rw [writeAt_replicate, writeAt_replicate, fillRing]
  have hblock := inRing_around hstart hpast hn p
  by_cases hlow : p < n - (size - start)
  · rw [if_pos (by omega), if_pos (hblock.mpr (Or.inr hlow))]
  · rw [if_neg (by omega)]
    exact if_congr (by rw [hblock]; omega) rfl rfl

end Ring

end Memory
end WrpcSw
