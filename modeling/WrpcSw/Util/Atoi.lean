import WrpcSw.PpPrintf.VsprintfXint

/-!
# Reading a number (`lib/atoi.c`)

The minimal `atoi` of the firmware reads an optional sign and the digits behind it.  It makes no
error check, and its `int` wraps.

* `atoi_number` — it reads back what `%d` prints.
-/

namespace WrpcSw
namespace Util

open Numeral PpPrintf

/-- The loop of `atoi`. -/
def atoiLoop (res : BitVec 32) : List UInt8 → BitVec 32
  | [] => res
  | c :: s =>
      if 48 ≤ c ∧ c ≤ 57 then atoiLoop (res * 10 + BitVec.ofNat 32 c.toNat - 48) s else res

def atoi (s : List UInt8) : BitVec 32 :=
  if s.head? = some 45 then atoiLoop 0 s.tail * -1 else atoiLoop 0 s * 1

/-- A digit is read as its value. -/
theorem hexDigit_read {d : Nat} (h : d < 10) :
    (48 ≤ Xint.hexDigit d ∧ Xint.hexDigit d ≤ 57) ∧ (Xint.hexDigit d).toNat = 48 + d := by
  have hall : ∀ e : Fin 10, (48 ≤ Xint.hexDigit e ∧ Xint.hexDigit e ≤ 57) ∧
      (Xint.hexDigit e).toNat = 48 + e := by decide
  exact hall ⟨d, h⟩

/-- The digits are read from the left. -/
theorem atoiLoop_digits {ds : List Nat} (h : ∀ d ∈ ds, d < 10) (o : Nat) (rest : List UInt8) :
    atoiLoop (BitVec.ofNat 32 o) (ds.map Xint.hexDigit ++ rest) =
      atoiLoop (BitVec.ofNat 32 (horner 10 o ds)) rest := by
  induction ds generalizing o with
  | nil => rfl
  | cons d ds ih =>
      obtain ⟨hdigit, hvalue⟩ := hexDigit_read (h d (List.mem_cons_self ..))
      have hstep : BitVec.ofNat 32 o * 10 + BitVec.ofNat 32 (48 + d) - 48 =
          BitVec.ofNat 32 (10 * o + d) := by
        have hten : (10 : BitVec 32).toNat = 10 := rfl
        have hzero : (48 : BitVec 32).toNat = 48 := rfl
        apply BitVec.eq_of_toNat_eq
        rw [BitVec.toNat_sub, BitVec.toNat_add, BitVec.toNat_mul, BitVec.toNat_ofNat,
          BitVec.toNat_ofNat, BitVec.toNat_ofNat, hten, hzero]
        omega
      rw [List.map_cons, List.cons_append, atoiLoop, if_pos hdigit, hvalue, hstep,
        ih fun e he => h e (List.mem_cons_of_mem _ he)]
      rfl

/-- The loop stops at a character that is no digit, and at the end of the text. -/
theorem atoiLoop_stop (res : BitVec 32) {rest : List UInt8}
    (h : ∀ c, rest.head? = some c → ¬ (48 ≤ c ∧ c ≤ 57)) : atoiLoop res rest = res := by
  cases rest with
  | nil => rfl
  | cons c rest => rw [atoiLoop, if_neg (h c rfl)]

theorem atoiLoop_digitText (n : Nat) {rest : List UInt8}
    (h : ∀ c, rest.head? = some c → ¬ (48 ≤ c ∧ c ≤ 57)) :
    atoiLoop 0 (Xint.digitText 10 n ++ rest) = BitVec.ofNat 32 n := by
  have hdigits : ∀ d ∈ numeral 10 n, d < 10 := fun d hd => lt_of_mem_numeral (by omega) hd
  have hread := atoiLoop_digits hdigits 0 rest
  rw [horner_numeral] at hread
  rw [Xint.digitText]
  exact hread.trans (atoiLoop_stop _ h)

/-- What `%d` prints is read back, for every value of an `int`. -/
theorem atoi_number (value : UInt32) {rest : List UInt8}
    (h : ∀ c, rest.head? = some c → ¬ (48 ≤ c ∧ c ≤ 57)) :
    atoi (Xint.number value 10 32 1 ++ rest) = value.toBitVec := by
  have hlt := value.toNat_lt
  unfold atoi
  by_cases hneg : 0x80000000 ≤ value.toNat
  · rw [Xint.number_of_neg rfl hneg, List.cons_append, List.head?_cons, if_pos rfl, List.tail_cons,
      atoiLoop_digitText _ h]
    apply BitVec.eq_of_toNat_eq
    have hminus : (-1 : BitVec 32).toNat = 4294967295 := rfl
    rw [BitVec.toNat_mul, BitVec.toNat_ofNat, hminus]
    show _ = value.toNat
    omega
  · have hpos : value.toNat < 0x80000000 := Nat.lt_of_not_le hneg
    have hfirst : (Xint.digitText 10 value.toNat ++ rest).head? ≠ some 45 := by
      cases hds : numeral 10 value.toNat with
      | nil => exact absurd hds (numeral_ne_nil _)
      | cons d ds =>
          have hd : d < 10 := lt_of_mem_numeral (by omega) (hds ▸ List.mem_cons_self ..)
          rw [Xint.digitText, hds, List.map_cons, List.cons_append, List.head?_cons]
          intro hminus
          have hvalue := (hexDigit_read hd).2
          rw [Option.some.inj hminus] at hvalue
          have hnat : (45 : UInt8).toNat = 45 := rfl
          omega
    rw [Xint.number_decimal hpos, if_neg hfirst, atoiLoop_digitText _ h]
    apply BitVec.eq_of_toNat_eq
    have hone : (1 : BitVec 32).toNat = 1 := rfl
    rw [BitVec.toNat_mul, BitVec.toNat_ofNat, hone]
    show _ = value.toNat
    omega

theorem atoi_number_negative :
    atoi (Xint.number 0xfffffff6 10 32 1 ++ [32]) = (0xfffffff6 : UInt32).toBitVec :=
  have hblank : ∀ c, ([32] : List UInt8).head? = some c → ¬ (48 ≤ c ∧ c ≤ 57) :=
    fun _ hc => Option.some.inj hc ▸ fun h => absurd h.1 (by decide)
  atoi_number 0xfffffff6 hblank

end Util
end WrpcSw
