import WrpcSw.Lib.Memory

/-!
# A memory with addresses of 32 bits

Blocks of cells at a pointer.  Addresses wrap around, so that every block has a place.  A block
that does not is the one of `Memory` at the number of its address.
-/

namespace WrpcSw
namespace AddressSpace

variable {α : Type*}

/-- The `n` cells from `addr` on. -/
def loadAt (m : UInt32 → α) (addr : UInt32) (n : Nat) : List α :=
  (List.range n).map fun i => m (addr + UInt32.ofNat i)

/-- The memory with the cells of `cs` from `addr` on. -/
def storeAt (m : UInt32 → α) (addr : UInt32) (cs : List α) : UInt32 → α :=
  fun a => cs.getD (a - addr).toNat (m a)

@[simp] theorem length_loadAt (m : UInt32 → α) (addr : UInt32) (n : Nat) :
    (loadAt m addr n).length = n := by
  rw [loadAt, List.length_map, List.length_range]

@[simp] theorem getElem_loadAt (m : UInt32 → α) (addr : UInt32) (n i : Nat)
    (h : i < (loadAt m addr n).length) : (loadAt m addr n)[i] = m (addr + UInt32.ofNat i) := by
  simp [loadAt]

/-- Storing what is there already changes nothing. -/
theorem storeAt_loadAt (m : UInt32 → α) (addr : UInt32) (n : Nat) :
    storeAt m addr (loadAt m addr n) = m := by
  funext a
  unfold storeAt
  by_cases hin : (a - addr).toNat < n
  · have hlen : (a - addr).toNat < (loadAt m addr n).length := by
      rw [length_loadAt]
      exact hin
    have haddr : addr + UInt32.ofNat (a - addr).toNat = a := by
      rw [UInt32.ofNat_toNat, UInt32.add_comm, UInt32.sub_add_cancel]
    rw [List.getD_eq_getElem _ _ hlen, getElem_loadAt, haddr]
  · exact List.getD_eq_default _ _ (by rw [length_loadAt]; exact Nat.le_of_not_lt hin)

/-! ## Numbers as addresses -/

section Numbered

variable {m : UInt32 → α} {cells : Nat → α} {addr : UInt32}

/-- The same memory, at the numbers of the addresses. -/
def Numbered (m : UInt32 → α) (cells : Nat → α) : Prop := ∀ a, cells a.toNat = m a

theorem Numbered.readAt_eq (h : Numbered m cells) {n : Nat} (hfits : addr.toNat + n ≤ 4294967296) :
    Memory.readAt cells addr.toNat n = loadAt m addr n := by
  apply List.map_congr_left
  intro i hi
  have hlt := List.mem_range.mp hi
  have hsize : i < UInt32.size := by
    unfold UInt32.size
    omega
  rw [← h (addr + UInt32.ofNat i), UInt32.toNat_add, UInt32.toNat_ofNat_of_lt' hsize,
    Nat.mod_eq_of_lt (by omega)]

theorem Numbered.writeAt (h : Numbered m cells) {cs : List α}
    (hfits : addr.toNat + cs.length ≤ 4294967296) :
    Numbered (storeAt m addr cs) (Memory.writeAt cells addr.toNat cs) := by
  intro a
  unfold Memory.writeAt storeAt
  rw [h a]
  have hlt := a.toNat_lt
  by_cases hle : addr.toNat ≤ a.toNat
  · rw [if_pos hle, UInt32.toNat_sub_of_le _ _ (UInt32.le_iff_toNat_le.mpr hle)]
  · have hwraps : (a - addr).toNat = 4294967296 - addr.toNat + a.toNat := by
      rw [UInt32.toNat_sub]
      omega
    rw [if_neg hle, List.getD_eq_default _ _ (by omega)]

end Numbered

end AddressSpace
end WrpcSw
