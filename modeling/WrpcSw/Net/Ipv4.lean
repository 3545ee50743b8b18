import WrpcSw.Lib.Memory
import WrpcSw.Lib.OnesComplement

/-!
# IPv4 packets and their checksum (`lib/ipv4.c`)

A packet buffer is memory from the first byte of the IP header on.  The CPU is
big-endian, so reading a buffer as `unsigned short` gives the words of the network
byte order.

`ipv4_checksum` adds the words in 32 bits and folds the carries twice;
`ipv4Checksum_toNat` says that this is the complement of the one's complement sum as
long as the words are few enough not to overflow the 32 bits, and
`ipv4Checksum_onesComplement` collects what follows of it.  `checksum_valid` is what
every sender needs of it: a checksum stored into a zeroed field makes the words it was
taken over valid.
-/

namespace WrpcSw
namespace Net

open Memory OnesComplement

/-! ## Offsets of the IP header -/

def ipVersion : Nat := 0
def ipTos : Nat := ipVersion + 1
def ipLen : Nat := ipTos + 1
def ipId : Nat := ipLen + 2
def ipFlags : Nat := ipId + 2
def ipTtl : Nat := ipFlags + 2
def ipProtocol : Nat := ipTtl + 1
def ipChecksum : Nat := ipProtocol + 1
def ipSource : Nat := ipChecksum + 2
def ipDest : Nat := ipSource + 4
def ipEnd : Nat := ipDest + 4

@[simp] theorem ipVersion_eq : ipVersion = 0 := rfl
@[simp] theorem ipLen_eq : ipLen = 2 := rfl
@[simp] theorem ipProtocol_eq : ipProtocol = 9 := rfl
@[simp] theorem ipChecksum_eq : ipChecksum = 10 := rfl
@[simp] theorem ipSource_eq : ipSource = 12 := rfl
@[simp] theorem ipDest_eq : ipDest = 16 := rfl

/-! ## Shorts in memory -/

/-- The word of two bytes. -/
def shortOf (high low : UInt8) : UInt16 := high.toUInt16 <<< 8 ||| low.toUInt16

/-- The `unsigned short` at an address. -/
def shortAt (m : Nat → UInt8) (addr : Nat) : UInt16 := shortOf (m addr) (m (addr + 1))

/-- The `shorts` words from an address on. -/
def shortsAt (m : Nat → UInt8) (addr shorts : Nat) : List UInt16 :=
  (List.range shorts).map fun i => shortAt m (addr + 2 * i)

/-- `buf[addr + 0] = sum >> 8; buf[addr + 1] = sum & 0xff;` -/
def putShort (m : Nat → UInt8) (addr : Nat) (sum : UInt16) : Nat → UInt8 :=
  writeAt m addr [(sum >>> 8).toUInt8, (sum &&& 0xff).toUInt8]

/-- The checksum of a list of words. -/
def ipv4Checksum (buf : List UInt16) : UInt32 :=
  let sum := buf.foldl (fun sum short => sum + short.toUInt32) 0
  let sum := (sum >>> 16) + (sum &&& 0xffff)
  let sum := sum + (sum >>> 16)
  ~~~sum &&& 0xffff

/-- The words as numbers. -/
def wordValues (ws : List UInt16) : List Nat := ws.map UInt16.toNat

theorem wordValues_lt (ws : List UInt16) : ∀ w ∈ wordValues ws, w < 65536 := by
  intro w hw
  obtain ⟨short, -, rfl⟩ := List.mem_map.mp hw
  exact short.toNat_lt

theorem shortOf_toNat (high low : UInt8) :
    (shortOf high low).toNat = 256 * high.toNat + low.toNat := by
  have hhigh := high.toNat_lt
  have hlow := low.toNat_lt
  unfold shortOf
  rw [UInt16.toNat_or, UInt16.toNat_shiftLeft, UInt8.toNat_toUInt16, UInt8.toNat_toUInt16]
  have hshift : high.toNat <<< (UInt16.toNat 8 % 16) % 2 ^ 16 = high.toNat <<< 8 := by
    rw [show UInt16.toNat 8 % 16 = 8 from rfl, Nat.shiftLeft_eq]
    omega
  rw [hshift, ← Nat.shiftLeft_add_eq_or_of_lt hlow, Nat.shiftLeft_eq]
  omega

theorem shortAt_toNat (m : Nat → UInt8) (addr : Nat) :
    (shortAt m addr).toNat = 256 * (m addr).toNat + (m (addr + 1)).toNat := shortOf_toNat _ _

theorem shortAt_congr {m m' : Nat → UInt8} {addr : Nat} (h : m addr = m' addr)
    (h' : m (addr + 1) = m' (addr + 1)) : shortAt m addr = shortAt m' addr := by
  unfold shortAt
  rw [h, h']

theorem shortAt_putShort (m : Nat → UInt8) (addr : Nat) (sum : UInt16) :
    shortAt (putShort m addr sum) addr = sum := by
  have hlt := sum.toNat_lt
  apply UInt16.toNat_inj.mp
  rw [shortAt_toNat]
  have hhigh : putShort m addr sum addr = (sum >>> 8).toUInt8 :=
    writeAt_inside m addr _ (i := 0) (by simp)
  have hlow : putShort m addr sum (addr + 1) = (sum &&& 0xff).toUInt8 :=
    writeAt_inside m addr _ (i := 1) (by simp)
  rw [hhigh, hlow, UInt16.toNat_toUInt8, UInt16.toNat_toUInt8, UInt16.toNat_shiftRight,
    UInt16.toNat_and]
  rw [show UInt16.toNat 0xff = 2 ^ 8 - 1 from rfl, Nat.and_two_pow_sub_one_eq_mod,
    show UInt16.toNat 8 % 16 = 8 from rfl, Nat.shiftRight_eq_div_pow]
  omega

theorem putShort_outside (m : Nat → UInt8) (addr : Nat) (sum : UInt16) {i : Nat}
    (h : i < addr ∨ addr + 2 ≤ i) : putShort m addr sum i = m i :=
  writeAt_outside m addr _ h

@[simp] theorem length_shortsAt (m : Nat → UInt8) (addr shorts : Nat) :
    (shortsAt m addr shorts).length = shorts := by
  simp [shortsAt]

theorem shortsAt_add (m : Nat → UInt8) (addr n k : Nat) :
    shortsAt m addr (n + k) = shortsAt m addr n ++ shortsAt m (addr + 2 * n) k := by
  simp only [shortsAt, List.range_add, List.map_append, List.map_map]
  congr 1
  apply List.map_congr_left
  intro i _
  simp only [Function.comp_apply]
  congr 1
  omega

theorem shortsAt_congr {m m' : Nat → UInt8} {addr shorts : Nat}
    (h : ∀ i, addr ≤ i → i < addr + 2 * shorts → m i = m' i) :
    shortsAt m addr shorts = shortsAt m' addr shorts := by
  apply List.map_congr_left
  intro i hi
  have hlt := List.mem_range.mp hi
  exact shortAt_congr (h _ (by omega) (by omega)) (h _ (by omega) (by omega))

theorem shortsAt_one (m : Nat → UInt8) (addr : Nat) : shortsAt m addr 1 = [shortAt m addr] := rfl

/-- The words around the one at position `k`. -/
theorem sum_shortsAt_split (m : Nat → UInt8) (addr : Nat) {n k : Nat} (hk : k < n) :
    (wordValues (shortsAt m addr n)).sum =
      (wordValues (shortsAt m addr k)).sum + (shortAt m (addr + 2 * k)).toNat +
        (wordValues (shortsAt m (addr + 2 * (k + 1)) (n - (k + 1)))).sum := by
  obtain ⟨rest, rfl⟩ : ∃ rest, n = k + 1 + rest := ⟨n - (k + 1), by omega⟩
  rw [shortsAt_add, shortsAt_add, shortsAt_one, Nat.add_sub_cancel_left]
  simp only [wordValues, List.map_append, List.sum_append, List.map_singleton, List.sum_singleton]

/-- The words of a list of bytes, an odd byte at the end padded with zero. -/
def paddedShorts : List UInt8 → List UInt16
  | [] => []
  | [high] => [shortOf high 0]
  | high :: low :: bytes => shortOf high low :: paddedShorts bytes

theorem shortsAt_succ (m : Nat → UInt8) (addr n : Nat) :
    shortsAt m addr (n + 1) = shortAt m addr :: shortsAt m (addr + 2) n := by
  rw [Nat.add_comm, shortsAt_add, shortsAt_one]
  rfl

theorem readAt_two_add (m : Nat → UInt8) (addr n : Nat) :
    readAt m addr (2 + n) = m addr :: m (addr + 1) :: readAt m (addr + 2) n := by
  rw [readAt_add]
  rfl

/-- The words of an even and of an odd number of bytes. -/
theorem paddedShorts_readAt (m : Nat → UInt8) (addr n : Nat) :
    paddedShorts (readAt m addr (2 * n)) = shortsAt m addr n ∧
      paddedShorts (readAt m addr (2 * n + 1)) =
        shortsAt m addr n ++ [shortOf (m (addr + 2 * n)) 0] := by
  induction n generalizing addr with
  | zero => exact ⟨rfl, rfl⟩
  | succ n ih =>
      obtain ⟨heven, hodd⟩ := ih (addr + 2)
      constructor
      · rw [show 2 * (n + 1) = 2 + 2 * n by ring, readAt_two_add, paddedShorts, heven,
          shortsAt_succ]
        rfl
      · rw [show 2 * (n + 1) + 1 = 2 + (2 * n + 1) by ring, readAt_two_add, paddedShorts, hodd,
          shortsAt_succ, List.cons_append, show addr + 2 + 2 * n = addr + 2 * (n + 1) by ring]
        rfl

/-! ## The checksum -/

/-- The sum of up to 65537 words fits 32 bits. -/
theorem foldl_toNat {buf : List UInt16} (h : buf.length ≤ 65537) :
    (buf.foldl (fun sum short => sum + short.toUInt32) (0 : UInt32)).toNat =
        (wordValues buf).sum ∧
      (wordValues buf).sum ≤ buf.length * 65535 := by
  induction buf using List.reverseRecOn with
  | nil => exact ⟨rfl, le_refl _⟩
  | append_singleton buf short ih =>
      rw [List.length_append, List.length_singleton] at h
      obtain ⟨hsum, hle⟩ := ih (by omega)
      have hshort := short.toNat_lt
      have htotal : (wordValues (buf ++ [short])).sum = (wordValues buf).sum + short.toNat := by
        simp [wordValues]
      rw [List.foldl_append, List.foldl_cons, List.foldl_nil, UInt32.toNat_add, hsum,
        UInt16.toNat_toUInt32, htotal, List.length_append, List.length_singleton]
      omega

/-- The checksum is the complement of the one's complement sum. -/
theorem ipv4Checksum_toNat {buf : List UInt16} (h : buf.length ≤ 65537) :
    (ipv4Checksum buf).toNat = 65535 - onesSum 65536 (wordValues buf) := by
  obtain ⟨hsum, hle⟩ := foldl_toNat h
  have hfold := foldTwice_eq_onesSum (by decide : 2 ≤ 65536) (wordValues_lt _)
    (by omega : (wordValues buf).sum < 65536 * 65536)
  unfold ipv4Checksum
  rw [← hfold, ← hsum]
  generalize List.foldl _ (0 : UInt32) buf = sum
  have hlt := sum.toNat_lt
  simp only [UInt32.toNat_and, UInt32.toNat_not, UInt32.toNat_add, UInt32.toNat_shiftRight]
  rw [show UInt32.toNat 0xffff = 2 ^ 16 - 1 from rfl, show UInt32.toNat 16 % 32 = 16 from rfl]
  simp only [Nat.and_two_pow_sub_one_eq_mod, Nat.shiftRight_eq_div_pow, foldTwice, endAround,
    UInt32.size]
  omega

/-- The checksum as it is stored, in 16 bits. -/
theorem checksum_toUInt16 {buf : List UInt16} (h : buf.length ≤ 65537) :
    (ipv4Checksum buf).toUInt16.toNat = 65535 - onesSum 65536 (wordValues buf) := by
  rw [UInt32.toNat_toUInt16, ipv4Checksum_toNat h]
  omega

/-- Equal checksums come from sums with the same residue. -/
theorem sum_modEq_of_checksum_eq {ws vs : List UInt16} (hws : ws.length ≤ 65537)
    (hvs : vs.length ≤ 65537)
    (h : (ipv4Checksum ws).toUInt16 = (ipv4Checksum vs).toUInt16) :
    (wordValues ws).sum ≡ (wordValues vs).sum [MOD 65535] := by
  have hwsSum := onesSum_represents (by decide : 2 ≤ 65536) (wordValues_lt ws)
  have hvsSum := onesSum_represents (by decide : 2 ≤ 65536) (wordValues_lt vs)
  have hsum : onesSum 65536 (wordValues ws) = onesSum 65536 (wordValues vs) := by
    have hword := congrArg UInt16.toNat h
    rw [checksum_toUInt16 hws, checksum_toUInt16 hvs] at hword
    have hlt := hwsSum.lt
    have hlt' := hvsSum.lt
    omega
  exact hwsSum.modEq.symm.trans (hsum ▸ hvsSum.modEq)

/-- The last byte shows in the checksum. -/
theorem low_eq_of_checksum_eq {ws : List UInt16} {high low low' : UInt8} (hws : ws.length ≤ 65536)
    (h : (ipv4Checksum (ws ++ [shortOf high low])).toUInt16 =
      (ipv4Checksum (ws ++ [shortOf high low'])).toUInt16) : low = low' := by
  have hlength : ∀ b, (ws ++ [shortOf high b]).length ≤ 65537 := by
    intro b
    rw [List.length_append, List.length_singleton]
    omega
  have hmod := sum_modEq_of_checksum_eq (hlength low) (hlength low') h
  have hlt := low.toNat_lt
  have hlt' := low'.toNat_lt
  simp only [wordValues, List.map_append, List.sum_append, List.map_singleton, List.sum_singleton,
    shortOf_toNat] at hmod
  apply UInt8.toNat_inj.mp
  unfold Nat.ModEq at hmod
  omega

/-! ### The sums on the way -/

/-- The sum after the first `shorts` words. -/
def partialSum (buf : List UInt16) (shorts : Nat) : UInt32 :=
  (buf.take shorts).foldl (fun sum short => sum + short.toUInt32) 0

/-- `(sum >> 16) + (sum & 0xffff)` -/
def foldedSum (sum : UInt32) : UInt32 := (sum >>> 16) + (sum &&& 0xffff)

/-- Each addition of the loop is exact. -/
theorem partialSum_toNat {buf : List UInt16} (h : buf.length ≤ 65537) (shorts : Nat) :
    (partialSum buf shorts).toNat = (wordValues (buf.take shorts)).sum := by
  refine (foldl_toNat ?_).1
  rw [List.length_take]
  omega

/-- The two additions of the carries are exact as well. -/
theorem foldedSum_toNat (sum : UInt32) :
    (foldedSum sum).toNat = sum.toNat / 65536 + sum.toNat % 65536 ∧
      (foldedSum sum + (foldedSum sum >>> 16)).toNat =
        (foldedSum sum).toNat + (foldedSum sum).toNat / 65536 := by
  have hlt := sum.toNat_lt
  have hfold : (foldedSum sum).toNat = sum.toNat / 65536 + sum.toNat % 65536 := by
    unfold foldedSum
    rw [UInt32.toNat_add, UInt32.toNat_shiftRight, UInt32.toNat_and,
      show UInt32.toNat 0xffff = 2 ^ 16 - 1 from rfl, Nat.and_two_pow_sub_one_eq_mod,
      show UInt32.toNat 16 % 32 = 16 from rfl, Nat.shiftRight_eq_div_pow]
    omega
  refine ⟨hfold, ?_⟩
  rw [UInt32.toNat_add, UInt32.toNat_shiftRight, show UInt32.toNat 16 % 32 = 16 from rfl,
    Nat.shiftRight_eq_div_pow, hfold]
  omega

/-- A word stored in the place of a zero adds itself to the sum. -/
theorem sum_set_zero {buf : List UInt16} {i : Nat} (hi : i < buf.length) (hzero : buf[i] = 0)
    (w : UInt16) : (wordValues (buf.set i w)).sum = (wordValues buf).sum + w.toNat := by
  have hsplit : buf = buf.take i ++ 0 :: buf.drop (i + 1) := by
    rw [← hzero, List.getElem_cons_drop, List.take_append_drop]
  have hset : buf.set i w = buf.take i ++ w :: buf.drop (i + 1) :=
    List.set_eq_take_append_cons_drop.trans (if_pos hi)
  rw [hset]
  conv_rhs => rw [hsplit]
  simp only [wordValues, List.map_append, List.map_cons, List.sum_append, List.sum_cons,
    UInt16.toNat_zero]
  omega

/-- Stored in the place of a zero word, the checksum makes the checksum zero. -/
theorem ipv4Checksum_set_zero {buf : List UInt16} (h : buf.length ≤ 65537) {i : Nat}
    (hi : i < buf.length) (hzero : buf[i] = 0) :
    ipv4Checksum (buf.set i (ipv4Checksum buf).toUInt16) = 0 := by
  have hvalid : Valid 65536 (wordValues (buf.set i (ipv4Checksum buf).toUInt16)) := by
    apply valid_of_complement (by decide) (wordValues_lt buf) (wordValues_lt _)
    rw [sum_set_zero hi hzero, checksum_toUInt16 h]
  have hlength : (buf.set i (ipv4Checksum buf).toUInt16).length ≤ 65537 := by
    rwa [List.length_set]
  apply UInt32.toNat_inj.mp
  rw [ipv4Checksum_toNat hlength, show onesSum 65536 _ = 65535 from hvalid]
  rfl

/-- The checksum of every buffer that the 32 bits allow. -/
theorem ipv4Checksum_onesComplement {buf : List UInt16} (h : buf.length ≤ 65537) :
    (∀ ws : List UInt16, ws.Perm buf →
      (ipv4Checksum buf).toNat = 65535 - onesSum 65536 (wordValues ws)) ∧
    ((∀ shorts, (partialSum buf shorts).toNat = (wordValues (buf.take shorts)).sum) ∧
      let sum := partialSum buf buf.length
      (foldedSum sum).toNat = sum.toNat / 65536 + sum.toNat % 65536 ∧
      (foldedSum sum + (foldedSum sum >>> 16)).toNat =
        (foldedSum sum).toNat + (foldedSum sum).toNat / 65536 ∧
      ipv4Checksum buf = ~~~(foldedSum sum + (foldedSum sum >>> 16)) &&& 0xffff) ∧
    ∀ (i : Nat) (hi : i < buf.length), buf[i] = 0 →
      ipv4Checksum (buf.set i (ipv4Checksum buf).toUInt16) = 0 := by
  refine ⟨?_, ⟨partialSum_toNat h, ?_⟩, fun i hi hzero => ipv4Checksum_set_zero h hi hzero⟩
  · intro ws hperm
    have hwords : (wordValues ws).Perm (wordValues buf) := hperm.map _
    rw [ipv4Checksum_toNat h, onesSum_perm (by decide) (wordValues_lt buf) hwords]
  · have hall : buf.take buf.length = buf := List.take_length
    obtain ⟨hfold, hfold'⟩ := foldedSum_toNat (partialSum buf buf.length)
    refine ⟨hfold, hfold', ?_⟩
    unfold partialSum
    rw [hall]
    rfl

/-- A buffer with a zero word, its checksum and the buffer with the checksum in its place. -/
theorem ipv4Checksum_onesComplement_example :
    (ipv4Checksum [0x4500, 0, 0xffff]).toNat = 65535 - onesSum 65536 [0xffff, 0x4500, 0] ∧
      ipv4Checksum [0x4500, 0xbaff, 0xffff] = 0 := by
  obtain ⟨hsum, -, hset⟩ :=
    @ipv4Checksum_onesComplement [0x4500, 0, 0xffff] (by decide)
  exact ⟨hsum [0xffff, 0x4500, 0] (by decide), hset 1 (by decide) rfl⟩

/-! ### Stored checksums -/

/-- A checksum stored into a field that was zero makes the words it was taken over valid. -/
theorem checksum_valid {m : Nat → UInt8} {addr n k : Nat} (hk : k < n) (hn : n ≤ 65537)
    (hzero : shortAt m (addr + 2 * k) = 0) :
    Valid 65536 (wordValues (shortsAt
      (putShort m (addr + 2 * k) (ipv4Checksum (shortsAt m addr n)).toUInt16) addr n)) := by
  apply valid_of_complement (by decide) (wordValues_lt (shortsAt m addr n)) (wordValues_lt _)
  have hbefore : shortsAt (putShort m (addr + 2 * k) (ipv4Checksum (shortsAt m addr n)).toUInt16)
      addr k = shortsAt m addr k :=
    shortsAt_congr fun i _ hi => putShort_outside m _ _ (Or.inl hi)
  have hafter : shortsAt (putShort m (addr + 2 * k) (ipv4Checksum (shortsAt m addr n)).toUInt16)
      (addr + 2 * (k + 1)) (n - (k + 1)) = shortsAt m (addr + 2 * (k + 1)) (n - (k + 1)) :=
    shortsAt_congr fun i hi _ => putShort_outside m _ _ (Or.inr (by omega))
  rw [sum_shortsAt_split _ addr hk, sum_shortsAt_split m addr hk, hbefore, hafter,
    shortAt_putShort, hzero, checksum_toUInt16 (by simpa using hn)]
  simp only [UInt16.toNat_zero]
  omega

end Net
end WrpcSw
