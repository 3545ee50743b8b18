import WrpcSw.PpPrintf.VsprintfFull

/-!
# Numbers of 64 bits in the monitor (`monitor/monitor.c`, `monitor/monitor_ppsi.c`)

`print64` splits a number at 10^9 and prints both halves with `%u`, one behind the other.  The
lower half has no leading zeros, so that nine digits are not always printed.

With `vsprintf-xint` an unsigned number from 2^31 on is printed as a negative one.
-/

namespace WrpcSw
namespace Monitor

open Numeral PpPrintf

/-- The implementations of `pp_vsprintf` that print decimal numbers. -/
inductive PrintfConfig
  | xint
  | full
deriving DecidableEq

def sprintf : PrintfConfig → List UInt8 → List Arg → List UInt8
  | .xint => Xint.vsprintf
  | .full => Full.vsprintf

def PRINT64_FACTOR : UInt64 := 1000000000

/-- `print64` of `monitor.c`.  The product of the upper half has 32 bits. -/
def print64 (cfg : PrintfConfig) (x : UInt64) : List UInt8 :=
  if x < PRINT64_FACTOR then sprintf cfg (ascii "%u") [.int x.toUInt32]
  else
    let hHalf := (x / PRINT64_FACTOR).toUInt32
    let lHalf := (x - (hHalf * PRINT64_FACTOR.toUInt32).toUInt64).toUInt32
    sprintf cfg (ascii "%u%u") [.int hHalf, .int lHalf]

/-- `print64` of `monitor_ppsi.c`.  `div64_32` gives what `__div64_32` leaves in its operand, and
what it returns. -/
def print64Ppsi (div64_32 : UInt64 → UInt32 → UInt64 × UInt32) (cfg : PrintfConfig) (x : UInt64) :
    List UInt8 :=
  if x < PRINT64_FACTOR then sprintf cfg (ascii "%u") [.int x.toUInt32]
  else
    let (quotient, lHalf) := div64_32 x PRINT64_FACTOR.toUInt32
    let hHalf := quotient.toUInt32
    sprintf cfg (ascii "%u%u") [.int hHalf, .int lHalf]

/-! ## What is printed -/

/-- The decimal digits of a number, without leading zeros. -/
def decimal (n : Nat) : List UInt8 := (numeral 10 n).map fun d => UInt8.ofNat (48 + d)

/-- `%u` with `vsprintf-xint`. -/
def xintUnsigned (n : Nat) : List UInt8 :=
  if n < 2147483648 then decimal n else 45 :: decimal (4294967296 - n)

def unsignedText : PrintfConfig → Nat → List UInt8
  | .xint => xintUnsigned
  | .full => decimal

theorem digitText_eq (n : Nat) : Xint.digitText 10 n = decimal n := by
  have hdigit : ∀ d : Fin 10, Xint.hexDigit d = UInt8.ofNat (48 + d) := by decide
  unfold Xint.digitText decimal
  exact List.map_congr_left fun d hd => hdigit ⟨d, lt_of_mem_numeral (by omega) hd⟩

theorem xint_number (value : UInt32) : Xint.number value 10 32 1 = xintUnsigned value.toNat := by
  unfold xintUnsigned
  split_ifs with hsmall
  · rw [Xint.number_decimal hsmall, digitText_eq]
  · rw [Xint.number_of_neg rfl (Nat.le_of_not_lt hsmall), digitText_eq]

theorem sprintf_one (cfg : PrintfConfig) (a : UInt32) :
    sprintf cfg (ascii "%u") [.int a] = unsignedText cfg a.toNat := by
  cases cfg with
  | xint =>
      have hformat := Xint.format_unsigned a [] []
      rw [List.append_nil] at hformat
      rw [sprintf, Xint.vsprintf, hformat, Xint.format, List.append_nil, xint_number]
      rfl
  | full =>
      have hformat : Full.vsprintf (ascii "%u") [.int a] =
          Full.number a 10 (-1) (-1) {} ++ [] := rfl
      rw [sprintf, hformat, List.append_nil, Full.number_unsigned]
      rfl

theorem sprintf_two (cfg : PrintfConfig) (a b : UInt32) :
    sprintf cfg (ascii "%u%u") [.int a, .int b] =
      unsignedText cfg a.toNat ++ unsignedText cfg b.toNat := by
  cases cfg with
  | xint =>
      have htwo : ascii "%u%u" = ascii "%u" ++ (ascii "%u" ++ []) := by decide
      rw [sprintf, Xint.vsprintf, htwo, Xint.format_unsigned, Xint.format_unsigned, Xint.format,
        List.append_nil, xint_number, xint_number]
      rfl
  | full =>
      have hformat : Full.vsprintf (ascii "%u%u") [.int a, .int b] =
          Full.number a 10 (-1) (-1) {} ++ (Full.number b 10 (-1) (-1) {} ++ []) := rfl
      rw [sprintf, hformat, List.append_nil, Full.number_unsigned, Full.number_unsigned]
      rfl

/-- The text of a number by its halves. -/
def halves (cfg : PrintfConfig) (x : Nat) : List UInt8 :=
  if x < 1000000000 then unsignedText cfg x
  else unsignedText cfg (x / 1000000000) ++ unsignedText cfg (x % 1000000000)

theorem print64_eq (cfg : PrintfConfig) {x : UInt64} (hx : x.toNat < 4294967296 * 1000000000) :
    print64 cfg x = halves cfg x.toNat := by
  have hfactor : PRINT64_FACTOR.toNat = 1000000000 := rfl
  have hlt : x < PRINT64_FACTOR ↔ x.toNat < 1000000000 := UInt64.lt_iff_toNat_lt
  unfold print64 halves
  refine if_ctx_congr hlt (fun hsmall => ?_) fun hlarge => ?_
  · rw [sprintf_one, UInt64.toNat_toUInt32, Nat.mod_eq_of_lt (by omega)]
  · have hhigh : (x / PRINT64_FACTOR).toUInt32.toNat = x.toNat / 1000000000 := by
      rw [UInt64.toNat_toUInt32, UInt64.toNat_div, hfactor]
      omega
    have hlow : (x - ((x / PRINT64_FACTOR).toUInt32 * PRINT64_FACTOR.toUInt32).toUInt64).toUInt32.toNat
        = x.toNat % 1000000000 := by
      have hproduct : ((x / PRINT64_FACTOR).toUInt32 * PRINT64_FACTOR.toUInt32).toUInt64.toNat =
          x.toNat / 1000000000 * 1000000000 % 4294967296 := by
        rw [UInt32.toNat_toUInt64, UInt32.toNat_mul, hhigh]
        rfl
      rw [UInt64.toNat_toUInt32, UInt64.toNat_sub, hproduct]
      omega
    rw [sprintf_two, hhigh, hlow]

/-- `__div64_32` divides its operand in place and returns the remainder. -/
def Divides (div64_32 : UInt64 → UInt32 → UInt64 × UInt32) : Prop :=
  ∀ x b, b ≠ 0 → div64_32 x b = (x / b.toUInt64, (x % b.toUInt64).toUInt32)

theorem print64Ppsi_eq {div64_32 : UInt64 → UInt32 → UInt64 × UInt32} (hdiv : Divides div64_32)
    (cfg : PrintfConfig) {x : UInt64} (hx : x.toNat < 4294967296 * 1000000000) :
    print64Ppsi div64_32 cfg x = halves cfg x.toNat := by
  have hfactor : PRINT64_FACTOR.toUInt32.toUInt64.toNat = 1000000000 := rfl
  have hlt : x < PRINT64_FACTOR ↔ x.toNat < 1000000000 := UInt64.lt_iff_toNat_lt
  unfold print64Ppsi halves
  refine if_ctx_congr hlt (fun hsmall => ?_) fun hlarge => ?_
  · rw [sprintf_one, UInt64.toNat_toUInt32, Nat.mod_eq_of_lt (by omega)]
  · have hhigh : (x / PRINT64_FACTOR.toUInt32.toUInt64).toUInt32.toNat =
        x.toNat / 1000000000 := by
      rw [UInt64.toNat_toUInt32, UInt64.toNat_div, hfactor]
      omega
    have hlow : (x % PRINT64_FACTOR.toUInt32.toUInt64).toUInt32.toNat = x.toNat % 1000000000 := by
      rw [UInt64.toNat_toUInt32, UInt64.toNat_mod, hfactor]
      omega
    rw [hdiv x PRINT64_FACTOR.toUInt32 (by decide)]
    show sprintf cfg (ascii "%u%u") [.int _, .int _] = _
    rw [sprintf_two, hhigh, hlow]

/-! ## When it is the number -/

theorem toNat_digit {d : Nat} (h : d < 10) : (UInt8.ofNat (48 + d)).toNat = 48 + d :=
  UInt8.toNat_ofNat_of_lt' (Nat.lt_trans (Nat.add_lt_add_left h 48) (by decide))

theorem decimal_injective : Function.Injective decimal := by
  intro m n h
  have hdigits : ∀ k, (decimal k).map (fun c => c.toNat - 48) = numeral 10 k := by
    intro k
    unfold decimal
    rw [List.map_map]
    refine (List.map_congr_left fun d hd => ?_).trans (List.map_id _)
    have hlt := lt_of_mem_numeral (by omega) hd
    show (UInt8.ofNat (48 + d)).toNat - 48 = d
    rw [toNat_digit hlt, Nat.add_sub_cancel_left]
  apply numeral_injective (b := 10)
  rw [← hdigits m, ← hdigits n, h]

theorem length_decimal (n : Nat) : (decimal n).length = (numeral 10 n).length := List.length_map ..

/-- A decimal text has no sign. -/
theorem decimal_ne_negative (m n : Nat) (text : List UInt8) : 45 :: decimal n ++ text ≠ decimal m := by
  intro h
  have hmem : (45 : UInt8) ∈ decimal m := h ▸ List.mem_cons_self
  obtain ⟨d, hd, hdigit⟩ := List.mem_map.mp hmem
  have hlt := lt_of_mem_numeral (by omega) hd
  have hnat := congrArg UInt8.toNat hdigit
  rw [toNat_digit hlt, show (45 : UInt8).toNat = 45 from rfl] at hnat
  omega

/-- Two decimal texts are one when the lower part has nine digits. -/
theorem decimal_append_iff {n : Nat} (hn : 1000000000 ≤ n) :
    decimal (n / 1000000000) ++ decimal (n % 1000000000) = decimal n ↔
      100000000 ≤ n % 1000000000 := by
  have hhigh : 0 < n / 1000000000 := by omega
  have hlow : n % 1000000000 < 10 ^ 9 := Nat.mod_lt n (by omega)
  have happend : decimal (n / 1000000000) ++ decimal (n % 1000000000) =
      decimal (n / 1000000000 * 10 ^ (numeral 10 (n % 1000000000)).length + n % 1000000000) := by
    unfold decimal
    rw [← List.map_append, numeral_append (by omega) hhigh]
  have hshort := length_numeral_le_iff (show 1 < 10 by omega) (show 0 < 8 by omega)
    (n % 1000000000)
  have hlong := (length_numeral_le_iff (show 1 < 10 by omega) (show 0 < 9 by omega)
    (n % 1000000000)).mpr hlow
  rw [happend, decimal_injective.eq_iff]
  constructor
  · intro heq
    apply Nat.le_of_not_lt
    intro hlt
    have hpow := Nat.pow_le_pow_right (show 0 < 10 by omega) (hshort.mpr hlt)
    have hmul := Nat.mul_le_mul_left (n / 1000000000) hpow
    omega
  · intro hnine
    have hlen : (numeral 10 (n % 1000000000)).length = 9 := by omega
    rw [hlen]
    omega

/-- When the text is the number: no lower half, or nine digits of it; and no upper half that is
printed as a negative number. -/
def Faithful (cfg : PrintfConfig) (n : Nat) : Prop :=
  n < 1000000000 ∨
    (100000000 ≤ n % 1000000000 ∧ (cfg = .xint → n / 1000000000 < 2147483648))

theorem unsignedText_small (cfg : PrintfConfig) {n : Nat} (h : n < 2147483648) :
    unsignedText cfg n = decimal n := by
  cases cfg with
  | xint => exact if_pos h
  | full => rfl

theorem halves_eq_iff (cfg : PrintfConfig) (n : Nat) :
    halves cfg n = decimal n ↔ Faithful cfg n := by
  unfold halves Faithful
  by_cases hsmall : n < 1000000000
  · rw [if_pos hsmall, unsignedText_small cfg (by omega)]
    exact iff_of_true rfl (Or.inl hsmall)
  · have hlow : n % 1000000000 < 2147483648 := by omega
    have hparts := decimal_append_iff (Nat.le_of_not_lt hsmall)
    rw [if_neg hsmall, unsignedText_small cfg hlow, or_iff_right hsmall]
    by_cases hnegative : cfg = .xint ∧ 2147483648 ≤ n / 1000000000
    · obtain ⟨rfl, hhigh⟩ := hnegative
      have htext : unsignedText .xint (n / 1000000000) =
          45 :: decimal (4294967296 - n / 1000000000) := if_neg (Nat.not_lt_of_le hhigh)
      rw [htext]
      refine iff_of_false (decimal_ne_negative n _ _) ?_
      rintro ⟨-, hlt⟩
      exact absurd (hlt rfl) (Nat.not_lt_of_le hhigh)
    · have htext : unsignedText cfg (n / 1000000000) = decimal (n / 1000000000) := by
        cases cfg with
        | xint => exact if_pos (Nat.lt_of_not_le fun hle => hnegative ⟨rfl, hle⟩)
        | full => rfl
      rw [htext, hparts]
      refine (and_iff_left ?_).symm
      exact fun hxint => Nat.lt_of_not_le fun hle => hnegative ⟨hxint, hle⟩

theorem length_unsignedText (cfg : PrintfConfig) {n : Nat} (h : n < 4294967296) :
    (unsignedText cfg n).length ≤ 11 := by
  have hten : ∀ {k}, k < 4294967296 → (decimal k).length ≤ 10 := by
    intro k hk
    rw [length_decimal]
    exact (length_numeral_le_iff (by omega) (by omega) k).mpr (by omega)
  cases cfg with
  | xint =>
      show (xintUnsigned n).length ≤ 11
      unfold xintUnsigned
      split_ifs with hsmall
      · exact Nat.le_succ_of_le (hten h)
      · exact Nat.succ_le_succ (hten (by omega))
  | full => exact Nat.le_succ_of_le (hten h)

theorem length_halves (cfg : PrintfConfig) {n : Nat} (hn : n < 4294967296 * 1000000000) :
    (halves cfg n).length ≤ 20 := by
  unfold halves
  split_ifs with hsmall
  · exact Nat.le_trans (length_unsignedText cfg (by omega)) (by omega)
  · have hhigh := length_unsignedText cfg (show n / 1000000000 < 4294967296 by omega)
    have hlow : (unsignedText cfg (n % 1000000000)).length ≤ 9 := by
      rw [unsignedText_small cfg (by omega), length_decimal]
      exact (length_numeral_le_iff (by omega) (by omega) _).mpr (by omega)
    rw [List.length_append]
    omega

/-- Both versions print the number exactly if `Faithful` says so, and never more than 20
characters. -/
theorem print64_iff {div64_32 : UInt64 → UInt32 → UInt64 × UInt32} (hdiv : Divides div64_32)
    (cfg : PrintfConfig) (x : UInt64) (hx : x.toNat < 4294967296 * 1000000000) :
    (print64 cfg x = decimal x.toNat ↔ Faithful cfg x.toNat) ∧
    (print64Ppsi div64_32 cfg x = decimal x.toNat ↔ Faithful cfg x.toNat) ∧
    (print64 cfg x).length ≤ 20 ∧ (print64Ppsi div64_32 cfg x).length ≤ 20 := by
  rw [print64_eq cfg hx, print64Ppsi_eq hdiv cfg hx]
  exact ⟨halves_eq_iff cfg _, halves_eq_iff cfg _, length_halves cfg hx, length_halves cfg hx⟩

/-- `__div64_32` as a function. -/
def divide (x : UInt64) (b : UInt32) : UInt64 × UInt32 :=
  (x / b.toUInt64, (x % b.toUInt64).toUInt32)

theorem print64_example :
    print64 .xint 123456789012 = decimal 123456789012 ∧
      print64Ppsi divide .xint 123456789012 = decimal 123456789012 := by
  have hiff := print64_iff (fun _ _ _ => rfl : Divides divide) .xint 123456789012 (by decide)
  have hfaithful : Faithful .xint (123456789012 : UInt64).toNat :=
    Or.inr ⟨by decide, fun _ => by decide⟩
  exact ⟨hiff.1.mpr hfaithful, hiff.2.1.mpr hfaithful⟩

theorem halves_billion (cfg : PrintfConfig) :
    halves cfg 1000000000 = halves cfg 10 ∧ halves cfg 1000000000 ≠ decimal 1000000000 := by
  constructor
  · have hten : numeral 10 10 = numeral 10 1 ++ [0] := numeral_step (by omega) (Nat.le_refl 10)
    have hbillion : halves cfg 1000000000 = decimal 1 ++ decimal 0 := by
      rw [halves, if_neg (by omega), unsignedText_small cfg (by omega),
        unsignedText_small cfg (by omega)]
    rw [hbillion, halves, if_pos (by omega), unsignedText_small cfg (by omega), decimal, decimal,
      decimal, hten, List.map_append, numeral_zero]
  · intro heq
    rcases (halves_eq_iff cfg 1000000000).mp heq with hsmall | ⟨hlow, -⟩
    · omega
    · omega

/-- 10^9 and 10 are both printed as `10`, by both versions. -/
theorem print64_billion :
    print64 .xint 1000000000 = print64 .xint 10 ∧
      print64 .xint 1000000000 ≠ decimal 1000000000 ∧
      print64Ppsi divide .full 1000000000 = print64Ppsi divide .full 10 ∧
      print64Ppsi divide .full 1000000000 ≠ decimal 1000000000 := by
  have hdivide : Divides divide := fun _ _ _ => rfl
  rw [print64_eq .xint (by decide), print64_eq .xint (by decide),
    print64Ppsi_eq hdivide .full (by decide), print64Ppsi_eq hdivide .full (by decide)]
  obtain ⟨hsame, hne⟩ := halves_billion .xint
  obtain ⟨hsame', hne'⟩ := halves_billion .full
  exact ⟨hsame, hne, hsame', hne'⟩

end Monitor
end WrpcSw
