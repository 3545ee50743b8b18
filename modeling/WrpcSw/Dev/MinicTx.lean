import Mathlib.Data.Nat.Bitwise
import WrpcSw.Dev.MinicTime

/-!
# Transmitted frames (`dev/minic.c`, `ptpd_netif_sendto`)

`minic_tx_frame` puts a descriptor and the frame behind it into its buffer, from where the Mini-NIC
takes it.  The descriptor has the length in words of 16 bits.  The word behind the frame is cleared
as the next descriptor, but at the address of as many words of 32 bits.

* `minicTxFrame_sends` — the Mini-NIC sees the frame, filled up with zeros.
* `minicTxFrame_confined_iff` — the stores stay in the buffer for frames of at most 510 bytes.
-/

namespace WrpcSw
namespace Minic

open Memory RingBuffer
open Net (HwTimestamp ETH_HEADER_SIZE)

def MINIC_DMA_TX_BUF_SIZE : Nat := 1024

/-! ## The buffer after a call -/

/-- What the Mini-NIC takes from the buffer: as many bytes as the descriptor says, from behind
it. -/
def txFrame (txBuf : Nat → UInt8) : List UInt8 :=
  readAt txBuf 4 (2 * ((wordAt txBuf 0).toNat % 4096))

/-- The bytes of a frame of `size` bytes on the wire. -/
def padded (frame : List UInt8) : List UInt8 :=
  frame ++ List.replicate (max 60 frame.length - frame.length) 0 ++
    List.replicate (max 60 frame.length % 2) 0

/-- The number of words in the descriptor. -/
def txWords (size : Nat) : Nat := (max 60 size + 1) / 2

theorem length_padded (frame : List UInt8) :
    (padded frame).length = 2 * txWords frame.length := by
  unfold padded txWords
  simp only [List.length_append, List.length_replicate]
  omega

/-- The descriptor of a frame. -/
def txDescriptor (nwords : Nat) (oob : Bool) : UInt32 :=
  (if oob then TX_DESC_WITH_OOB ||| WRPC_FID <<< 12 else 0) |||
    (TX_DESC_VALID ||| UInt32.ofNat nwords)

section Transmit

variable {txBuf : Nat → UInt8} {hdr payload : List UInt8} {size : UInt32}
  (io : TxIo) (hwts : Option HwTimestamp)

/-- The stores of a call, with the lengths as numbers. -/
theorem minicTxFrame_txBuf (txBuf : Nat → UInt8) (hsize : size.toNat < 8192) :
    (minicTxFrame txBuf io hdr payload size hwts).txBuf =
      writeAt (writeAt (writeAt (writeAt (writeAt (writeAt txBuf 0
        (List.replicate (size.toNat + 16) 0)) 4 (List.replicate (max 60 size.toNat) 0)) 4
          (hdr.take 14)) 18 (payload.take (size - 14).toNat)) 0
            (beBytes 4 (txDescriptor (txWords size.toNat) hwts.isSome).toNat))
              (4 * txWords size.toNat) (beBytes 4 0) := by
  have hsum : (size + 16).toNat = size.toNat + 16 := by
    have hadd : (size + 16).toNat = (size.toNat + 16) % 4294967296 := UInt32.toNat_add size 16
    omega
  have hfill : (if size < 60 then 60 else size).toNat = max 60 size.toNat := by
    have hsixty : (60 : UInt32).toNat = 60 := rfl
    split_ifs with hlt
    · have hnat : size.toNat < 60 := UInt32.lt_iff_toNat_lt.mp hlt
      omega
    · have hnat : ¬ size.toNat < 60 := fun h => hlt (UInt32.lt_iff_toNat_lt.mpr h)
      omega
  have hwords : ((if size < 60 then 60 else size) + 1) >>> 1 =
      UInt32.ofNat (txWords size.toNat) := by
    apply UInt32.toNat_inj.mp
    have hadd : ((if size < 60 then 60 else size) + 1).toNat =
        ((if size < 60 then 60 else size).toNat + 1) % 4294967296 := UInt32.toNat_add _ 1
    have hone : UInt32.toNat 1 % 32 = 1 := rfl
    rw [UInt32.toNat_shiftRight, hone, hadd, hfill, Nat.shiftRight_eq_div_pow, UInt32.toNat_ofNat']
    unfold txWords
    omega
  have hword : (UInt32.ofNat (txWords size.toNat)).toNat = txWords size.toNat := by
    rw [UInt32.toNat_ofNat']
    unfold txWords
    omega
  unfold minicTxFrame
  dsimp only
  rw [hsum, hfill, hwords, hword]
  rfl

/-- The descriptor of a frame as a number: its flags, and its length in the low 12 bits. -/
theorem toNat_txDescriptor {nwords : Nat} (h : nwords < 4096) (oob : Bool) :
    (txDescriptor nwords oob).toNat =
      (if oob then 1073741824 else 0) + 2147483648 + nwords := by
  have hword : (UInt32.ofNat nwords).toNat = nwords := by
    rw [UInt32.toNat_ofNat']
    omega
  have hor : ∀ {x k : Nat}, nwords < 2 ^ k → x * 2 ^ k ||| nwords = x * 2 ^ k + nwords := by
    intro x k hlt
    rw [← Nat.shiftLeft_eq, Nat.shiftLeft_add_eq_or_of_lt hlt]
  have hflags : (if oob then TX_DESC_WITH_OOB ||| WRPC_FID <<< 12 else 0).toNat |||
      TX_DESC_VALID.toNat = (if oob then 3 else 2) * 2 ^ 30 := by
    cases oob <;> rfl
  unfold txDescriptor
  rw [UInt32.toNat_or, UInt32.toNat_or, ← Nat.or_assoc, hflags, hword, hor (by omega)]
  cases oob <;> simp

theorem txDescriptor_valid {nwords : Nat} (h : nwords < 4096) (oob : Bool) :
    txDescriptor nwords oob &&& TX_DESC_VALID ≠ 0 := by
  intro hzero
  have hnat := congrArg UInt32.toNat hzero
  have hbit : TX_DESC_VALID.toNat = 2 ^ 31 := rfl
  rw [UInt32.toNat_and, hbit, Nat.and_two_pow, Nat.testBit_eq_decide_div_mod_eq,
    toNat_txDescriptor h] at hnat
  have hset : ((if oob then 1073741824 else 0) + 2147483648 + nwords) / 2 ^ 31 % 2 = 1 := by
    split_ifs <;> omega
  rw [decide_eq_true hset] at hnat
  exact absurd hnat (by decide)

theorem txDescriptor_oob {nwords : Nat} (h : nwords < 4096) (oob : Bool) :
    txDescriptor nwords oob &&& TX_DESC_WITH_OOB ≠ 0 ↔ oob = true := by
  have hbit : TX_DESC_WITH_OOB.toNat = 2 ^ 30 := rfl
  have hset : ((if oob then 1073741824 else 0) + 2147483648 + nwords) / 2 ^ 30 % 2 = 1 ↔
      oob = true := by
    cases oob <;> simp <;> omega
  rw [Ne, ← UInt32.toNat_inj, UInt32.toNat_and, hbit, Nat.and_two_pow,
    Nat.testBit_eq_decide_div_mod_eq, toNat_txDescriptor h]
  by_cases hoob : oob = true
  · rw [decide_eq_true (hset.mpr hoob)]
    exact ⟨fun _ => hoob, fun _ => by decide⟩
  · rw [decide_eq_false (mt hset.mp hoob)]
    exact ⟨fun hne => absurd rfl hne, fun h => absurd h hoob⟩

/-- A block inside the zeros of a store. -/
theorem holdsAt_zeros {m : Nat → UInt8} {addr n a k : Nat} (hlo : addr ≤ a)
    (hhi : a + k ≤ addr + n) :
    HoldsAt (writeAt m addr (List.replicate n 0)) a (List.replicate k 0) := by
  unfold HoldsAt
  rw [List.length_replicate]
  apply List.ext_getElem (by simp)
  intro i hi hi'
  rw [length_readAt] at hi
  rw [getElem_readAt, List.getElem_replicate]
  obtain ⟨j, hj⟩ := Nat.exists_eq_add_of_le hlo
  have hcell := writeAt_inside m addr (List.replicate n (0 : UInt8)) (i := j + i)
    (by rw [List.length_replicate]; omega)
  rw [List.getElem_replicate] at hcell
  rw [hj, Nat.add_assoc]
  exact hcell

variable (hhdr : hdr.length = 14) (hpayload : payload.length + 14 = size.toNat)
  (hsize : size.toNat < 8190)

include hhdr hpayload hsize

/-- The stores of a call, for a header and a payload of the right lengths. -/
theorem minicTxFrame_stores (txBuf : Nat → UInt8) :
    (minicTxFrame txBuf io hdr payload size hwts).txBuf =
      writeAt (writeAt (writeAt (writeAt (writeAt (writeAt txBuf 0
        (List.replicate (size.toNat + 16) 0)) 4 (List.replicate (max 60 size.toNat) 0)) 4
          hdr) 18 payload) 0
            (beBytes 4 (txDescriptor (txWords size.toNat) hwts.isSome).toNat))
              (4 * txWords size.toNat) (beBytes 4 0) := by
  have hbody : (size - 14).toNat = payload.length := by
    have hle : (14 : UInt32) ≤ size := UInt32.le_iff_toNat_le.mpr (by
      have hnat : (14 : UInt32).toNat = 14 := rfl
      omega)
    have hsub : (size - 14).toNat = size.toNat - 14 := UInt32.toNat_sub_of_le size 14 hle
    omega
  rw [minicTxFrame_txBuf io hwts txBuf (by omega), hbody, List.take_length,
    List.take_of_length_le (Nat.le_of_eq hhdr)]

/-- The descriptor is in its place. -/
theorem minicTxFrame_descriptor (txBuf : Nat → UInt8) :
    wordAt (minicTxFrame txBuf io hdr payload size hwts).txBuf 0 =
      txDescriptor (txWords size.toNat) hwts.isSome := by
  have hheld : HoldsAt (minicTxFrame txBuf io hdr payload size hwts).txBuf 0
      (beBytes 4 (txDescriptor (txWords size.toNat) hwts.isSome).toNat) := by
    rw [minicTxFrame_stores io hwts hhdr hpayload hsize]
    refine HoldsAt.write HoldsAt.written (Or.inl ?_)
    rw [length_beBytes]
    unfold txWords
    omega
  unfold HoldsAt at hheld
  rw [length_beBytes] at hheld
  unfold wordAt
  show UInt32.ofNat (beNumber (readAt _ 0 4)) = _
  have hlt : (txDescriptor (txWords size.toNat) hwts.isSome).toNat < 256 ^ 4 := UInt32.toNat_lt _
  rw [hheld, beNumber_beBytes, Nat.mod_eq_of_lt hlt, UInt32.ofNat_toNat]

/-- Behind the descriptor lies the frame, with zeros up to the length of the descriptor. -/
theorem minicTxFrame_frame (txBuf : Nat → UInt8) :
    HoldsAt (minicTxFrame txBuf io hdr payload size hwts).txBuf 4 (padded (hdr ++ payload)) := by
  have hlength : (hdr ++ payload).length = size.toNat := by
    rw [List.length_append]
    omega
  have hwords : 2 * txWords size.toNat = max 60 size.toNat + max 60 size.toNat % 2 := by
    unfold txWords
    omega
  -- the two stores behind the frame and before it leave it alone
  have hfar : ∀ {m : Nat → UInt8} {addr : Nat} {cs : List UInt8}, 4 ≤ addr →
      addr + cs.length ≤ 4 + 2 * txWords size.toNat → HoldsAt m addr cs →
      HoldsAt (writeAt (writeAt m 0
        (beBytes 4 (txDescriptor (txWords size.toNat) hwts.isSome).toNat))
          (4 * txWords size.toNat) (beBytes 4 0)) addr cs := by
    intro m addr cs hlo hhi hheld
    refine HoldsAt.write (HoldsAt.write hheld (Or.inr ?_)) (Or.inl ?_)
    · rw [length_beBytes]
      omega
    · omega
  rw [minicTxFrame_stores io hwts hhdr hpayload hsize]
  unfold padded
  rw [hlength]
  refine hfar (Nat.le_refl 4) ?_ (HoldsAt.append (HoldsAt.append (HoldsAt.append ?_ ?_) ?_) ?_)
  · simp only [List.length_append, List.length_replicate]
    omega
  · exact HoldsAt.write HoldsAt.written (Or.inl (by omega))
  · rw [hhdr]
    exact HoldsAt.written
  · rw [hlength]
    refine HoldsAt.write (HoldsAt.write (holdsAt_zeros (by omega) (by omega)) (Or.inr ?_))
      (Or.inr ?_)
    · omega
    · omega
  · rw [List.length_append, List.length_replicate, hlength]
    rcases Nat.mod_two_eq_zero_or_one (max 60 size.toNat) with heven | hodd
    · rw [heven]
      rfl
    · refine HoldsAt.write (HoldsAt.write (HoldsAt.write (holdsAt_zeros (Nat.zero_le _) ?_)
        (Or.inr ?_)) (Or.inr ?_)) (Or.inr ?_)
      · omega
      · rw [List.length_replicate]
        omega
      · omega
      · omega

/-- The Mini-NIC takes the frame, filled up with zeros to 60 bytes and to an even length, from a
valid descriptor that asks for a timestamp exactly if the caller does. -/
theorem minicTxFrame_sends (txBuf : Nat → UInt8) :
    let r := minicTxFrame txBuf io hdr payload size hwts
    txFrame r.txBuf = padded (hdr ++ payload) ∧
      wordAt r.txBuf 0 &&& TX_DESC_VALID ≠ 0 ∧
      (wordAt r.txBuf 0 &&& TX_DESC_WITH_OOB ≠ 0 ↔ hwts.isSome = true) := by
  intro r
  have hwords : txWords size.toNat < 4096 := by
    unfold txWords
    omega
  have hdesc : wordAt r.txBuf 0 = txDescriptor (txWords size.toNat) hwts.isSome :=
    minicTxFrame_descriptor io hwts hhdr hpayload hsize txBuf
  have hframe := minicTxFrame_frame io hwts hhdr hpayload hsize txBuf
  have hlength : (padded (hdr ++ payload)).length = 2 * txWords size.toNat := by
    rw [length_padded, List.length_append, hhdr, Nat.add_comm, hpayload]
  have hcount : (wordAt r.txBuf 0).toNat % 4096 = txWords size.toNat := by
    rw [hdesc, toNat_txDescriptor hwords]
    split_ifs <;> omega
  refine ⟨?_, hdesc ▸ txDescriptor_valid hwords _, hdesc ▸ txDescriptor_oob hwords _⟩
  unfold txFrame
  rw [hcount, ← hlength]
  exact hframe

/-- All stores are in the buffer of 1024 bytes exactly for the frames of at most 510 bytes. -/
theorem minicTxFrame_confined_iff :
    (∀ (txBuf : Nat → UInt8) (p : Nat), MINIC_DMA_TX_BUF_SIZE ≤ p →
      (minicTxFrame txBuf io hdr payload size hwts).txBuf p = txBuf p) ↔ size.toNat ≤ 510 := by
  constructor
  · intro hconfined
    by_contra hlong
    -- the word that is cleared behind the frame, in a buffer of ones
    have hcell := hconfined (fun _ => 1) (4 * txWords size.toNat)
      (by unfold MINIC_DMA_TX_BUF_SIZE txWords; omega)
    have hzero : (minicTxFrame (fun _ => 1) io hdr payload size hwts).txBuf
        (4 * txWords size.toNat) = 0 := by
      rw [minicTxFrame_stores io hwts hhdr hpayload hsize]
      exact HoldsAt.getElem HoldsAt.written (i := 0) (by rw [length_beBytes]; decide)
    rw [hzero] at hcell
    exact absurd hcell (by decide)
  · intro hshort txBuf p hp
    unfold MINIC_DMA_TX_BUF_SIZE at hp
    rw [minicTxFrame_stores io hwts hhdr hpayload hsize]
    have hwords : 4 * txWords size.toNat + 4 ≤ 1024 := by
      unfold txWords
      omega
    rw [writeAt_outside _ _ _ (Or.inr (by rw [length_beBytes]; omega)),
      writeAt_outside _ _ _ (Or.inr (by rw [length_beBytes]; omega)),
      writeAt_outside _ _ _ (Or.inr (by omega)), writeAt_outside _ _ _ (Or.inr (by omega)),
      writeAt_outside _ _ _ (Or.inr (by rw [List.length_replicate]; omega)),
      writeAt_outside _ _ _ (Or.inr (by rw [List.length_replicate]; omega))]

end Transmit

end Minic
end WrpcSw
