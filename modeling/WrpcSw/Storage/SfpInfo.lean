import WrpcSw.Lib.CInt
import WrpcSw.Lib.RingBuffer

/-!
# What the two EEPROM drivers share (`include/eeprom.h`)

The return codes, the packed record of an SFP, and the stored words: a 32-bit
calibration value with its validity bit and a 16-bit size, in the byte order of
the CPU, which is big-endian.
-/

namespace WrpcSw
namespace Storage

open RingBuffer

def sfpsMax : Nat := 4

def eeRetI2cerr : Int := -1
def eeRetDbfull : Int := -2
def eeRetCorrpt : Int := -3
def eeRetPoserr : Int := -4

/-- `sizeof(struct s_sfpinfo)`. -/
def sfpInfoSize : Nat := 29

/-- `struct s_sfpinfo`, which is packed: the part number, three words and the
checksum in the last byte. -/
structure SfpInfo where
  bytes : List UInt8
  size_eq : bytes.length = sfpInfoSize
deriving DecidableEq, Repr

namespace SfpInfo

/-- A record of zeros. -/
def zero : SfpInfo := ⟨List.replicate sfpInfoSize 0, List.length_replicate⟩

variable (sfp : SfpInfo)

/-- The sum of all bytes but the checksum. -/
def checksum : UInt8 := (sfp.bytes.take (sfpInfoSize - 1)).foldl (· + ·) 0

/-- The field `chksum`. -/
def chksum : UInt8 := sfp.bytes.getD (sfpInfoSize - 1) 0

/-- `sfp->chksum = chksum`. -/
def withChksum : SfpInfo where
  bytes := sfp.bytes.take (sfpInfoSize - 1) ++ [sfp.checksum]
  size_eq := by
    simp [sfp.size_eq, sfpInfoSize]

/-- The record after a read that put `bs` at its start. -/
def fill (bs : List UInt8) : SfpInfo where
  bytes := bs.take sfpInfoSize ++ sfp.bytes.drop (bs.take sfpInfoSize).length
  size_eq := by
    simp only [List.length_append, List.length_drop, List.length_take, sfp.size_eq]
    omega

@[simp] theorem length_bytes : sfp.bytes.length = sfpInfoSize := sfp.size_eq

/-- A whole record that was read replaces the old one. -/
theorem fill_bytes (r : SfpInfo) : sfp.fill r.bytes = r := by
  cases r with
  | mk bs hbs =>
      simp only [fill, List.take_of_length_le (Nat.le_of_eq hbs), hbs,
        List.drop_of_length_le (Nat.le_of_eq sfp.size_eq), List.append_nil]

/-- A record with its checksum passes the check. -/
theorem checksum_withChksum : sfp.withChksum.checksum = sfp.withChksum.chksum := by
  have hlen : (sfp.bytes.take (sfpInfoSize - 1)).length = sfpInfoSize - 1 := by
    rw [List.length_take, sfp.size_eq]
    decide
  have htake : sfp.withChksum.bytes.take (sfpInfoSize - 1) = sfp.bytes.take (sfpInfoSize - 1) :=
    List.take_left' hlen
  have hlast : sfp.withChksum.bytes.getD (sfpInfoSize - 1) 0 = sfp.checksum := by
    rw [List.getD_eq_getElem?_getD, withChksum, List.getElem?_append_right (Nat.le_of_eq hlen),
      hlen, Nat.sub_self]
    rfl
  rw [chksum, hlast, checksum, htake, checksum]

end SfpInfo

/-! ## Stored words -/

/-- A 32-bit word in memory. -/
def wordBytes (value : BitVec 32) : List UInt8 := beBytes 4 value.toNat

def wordOf (bs : List UInt8) : BitVec 32 := BitVec.ofNat 32 (beNumber bs)

/-- A 16-bit size in memory. -/
def sizeBytes (used : Nat) : List UInt8 := beBytes 2 used

def sizeOf16 (bs : List UInt8) : Nat := CInt.u16 (beNumber bs)

/-- The characters of the init script that its functions write themselves. -/
def space : UInt8 := 32
def newline : UInt8 := 10

/-- `ptr - sizeof(used)`, an unsigned 32-bit difference. -/
def scriptPos (ptr : Nat) : Nat := (ptr + (2 ^ 32 - 2)) % 2 ^ 32

/-- The bit that marks a stored calibration value. -/
def validityBit : BitVec 32 := 0x80000000#32

@[simp] theorem length_wordBytes (value : BitVec 32) : (wordBytes value).length = 4 :=
  length_beBytes 4 _

@[simp] theorem length_sizeBytes (used : Nat) : (sizeBytes used).length = 2 :=
  length_beBytes 2 used

@[simp] theorem wordOf_wordBytes (value : BitVec 32) : wordOf (wordBytes value) = value := by
  unfold wordOf wordBytes
  rw [beNumber_beBytes]
  have hlt := value.isLt
  rw [Nat.mod_eq_of_lt (by omega), BitVec.ofNat_toNat, BitVec.setWidth_eq]

theorem sizeOf16_sizeBytes {used : Nat} (h : used < 65536) : sizeOf16 (sizeBytes used) = used := by
  unfold sizeOf16 sizeBytes CInt.u16
  rw [beNumber_beBytes]
  omega

end Storage
end WrpcSw
