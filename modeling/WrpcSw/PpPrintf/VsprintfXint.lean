import WrpcSw.Lib.Numeral
import Mathlib.Tactic.SplitIfs

/-!
# The formatted output of the default configuration (`pp_printf/vsprintf-xint.c`)

`mprintf`, `sprintf` and `vprintf` of the firmware are `pp_printf`, `pp_sprintf` and
`pp_vprintf` (`include/wrc.h`), and all of them format with `pp_vsprintf`.  The configuration
selects one of its implementations; `CONFIG_PRINTF_XINT` is the default.

It prints integers in three bases with a width of one digit.  Base 10 is always signed.
-/

namespace WrpcSw
namespace PpPrintf

open Numeral

/-- The bytes of a text. -/
def ascii (text : String) : List UInt8 := text.toList.map fun c => c.toNat.toUInt8

/-- An argument of a format. -/
inductive Arg
  | int (value : UInt32)
  | str (text : List UInt8)

/-- `va_arg(args, int)`.  The formats of the firmware match their arguments; another argument
reads as zero. -/
def intArg : List Arg → UInt32
  | .int value :: _ => value
  | _ => 0

/-- `va_arg(args, char *)`. -/
def strArg : List Arg → List UInt8
  | .str text :: _ => text
  | _ => []

namespace Xint

def hex : List UInt8 := ascii "0123456789abcdef"

def hexDigit (d : Nat) : UInt8 := hex.getD d 0

/-- Put `lead` before the digits up to the width. -/
def fill (lead : UInt8) (wid : Nat) (digits : List UInt8) : List UInt8 :=
  List.replicate (wid - digits.length) lead ++ digits

/-- The text of a number.  The array `tmp` of the source has room for 16 characters. -/
def number (value : UInt32) (base : Nat) (lead : UInt8) (wid : Nat) : List UInt8 :=
  let negative : Bool := 0x80000000 ≤ value.toNat ∧ base = 10
  let magnitude := if negative then -value else value
  let tmp := digitsBefore hexDigit base 16 magnitude.toNat []
  let tmp := if tmp = [] then [48] else tmp
  if negative then
    if lead = 32 then fill lead wid (45 :: tmp) else 45 :: fill lead (wid - 1) tmp
  else fill lead wid tmp

/-- What was read of a conversion. -/
structure Conversion where
  base : Nat
  lead : UInt8
  wid : Nat

/-- The part of a format behind a `%`, or outside a conversion (`none`). -/
def format : Option Conversion → List UInt8 → List Arg → List UInt8
  | _, [], _ => []
  | none, c :: fmt, args =>
      if c = 37 then format (some ⟨10, 32, 1⟩) fmt args else c :: format none fmt args
  | some k, c :: fmt, args =>
      if c = 48 then format (some { k with lead := 48 }) fmt args            -- '0'
      else if c = 99 then (intArg args).toUInt8 :: format none fmt args.tail  -- 'c'
      else if c = 115 then strArg args ++ format none fmt args.tail           -- 's'
      else if c = 110 then format none fmt args                               -- 'n'
      else if c = 37 then 37 :: format none fmt args                          -- '%'
      else if c = 112 ∨ c = 120 ∨ c = 88 then                                 -- 'p', 'x', 'X'
        number (intArg args) 16 k.lead k.wid ++ format none fmt args.tail
      else if c = 111 then                                                    -- 'o'
        number (intArg args) (if k.base = 10 then 8 else k.base) k.lead k.wid ++
          format none fmt args.tail
      else if c = 100 ∨ c = 105 ∨ c = 117 then                                -- 'd', 'i', 'u'
        number (intArg args) k.base k.lead k.wid ++ format none fmt args.tail
      else if c = 42 then                                                     -- '*'
        format (some { k with base := (intArg args).toNat }) fmt args.tail
      else if 49 ≤ c ∧ c ≤ 57 then
        format (some { k with wid := c.toNat - 48 }) fmt args
      else format (some k) fmt args

/-- `pp_vsprintf`: the text that it writes, without the final zero. -/
def vsprintf (fmt : List UInt8) (args : List Arg) : List UInt8 := format none fmt args

/-! ## Formats -/

/-- Text without a conversion. -/
theorem format_text {text : List UInt8} (h : 37 ∉ text) (fmt : List UInt8) (args : List Arg) :
    format none (text ++ fmt) args = text ++ format none fmt args := by
  induction text with
  | nil => rfl
  | cons c text ih =>
      have hc : c ≠ 37 := fun hc => h (hc ▸ List.mem_cons_self)
      rw [List.cons_append, format, if_neg hc, ih fun hmem => h (List.mem_cons_of_mem c hmem)]
      rfl

theorem format_hex2 (value : UInt32) (fmt : List UInt8) (args : List Arg) :
    format none (ascii "%02x" ++ fmt) (.int value :: args) =
      number value 16 48 2 ++ format none fmt args := rfl

theorem format_decimal (value : UInt32) (fmt : List UInt8) (args : List Arg) :
    format none (ascii "%d" ++ fmt) (.int value :: args) =
      number value 10 32 1 ++ format none fmt args := rfl

theorem format_unsigned (value : UInt32) (fmt : List UInt8) (args : List Arg) :
    format none (ascii "%u" ++ fmt) (.int value :: args) =
      number value 10 32 1 ++ format none fmt args := rfl

/-! ## Numbers -/

/-- The text of a number in base 10 or 16. -/
def digitText (base n : Nat) : List UInt8 := (numeral base n).map hexDigit

/-- The digits that the loop leaves in `tmp`, with the digit zero if there is none. -/
theorem tmp_eq {base : Nat} (hbase : 1 < base) {n : Nat} (h : n < base ^ 16) :
    (if digitsBefore hexDigit base 16 n [] = [] then [48] else digitsBefore hexDigit base 16 n [])
      = digitText base n := by
  rw [digitsBefore_eq hexDigit hbase h, List.append_nil]
  by_cases hn : n = 0
  · rw [hn, Nat.digits_zero]
    rfl
  · have hdigits : (Nat.digits base n).reverse.map hexDigit = digitText base n := by
      rw [digitText, numeral_of_pos base (Nat.pos_of_ne_zero hn)]
    have hne : digitText base n ≠ [] := mt List.map_eq_nil_iff.mp (numeral_ne_nil n)
    rw [hdigits, if_neg hne]

theorem fill_of_le {lead : UInt8} {wid : Nat} {digits : List UInt8} (h : wid ≤ digits.length) :
    fill lead wid digits = digits := by
  rw [fill, Nat.sub_eq_zero_of_le h]
  rfl

theorem length_digitText_pos (base n : Nat) : 1 ≤ (digitText base n).length := by
  rw [digitText, List.length_map]
  exact List.length_pos_iff.mpr (numeral_ne_nil n)

theorem toNat_lt_pow {base : Nat} (hbase : 4 ≤ base) (value : UInt32) :
    value.toNat < base ^ 16 := by
  have hpow : 4 ^ 16 ≤ base ^ 16 := Nat.pow_le_pow_left hbase 16
  exact Nat.lt_of_lt_of_le value.toNat_lt (by omega)

/-- A number that is not negative. -/
theorem number_of_nonneg {value : UInt32} {base : Nat} (hbase : 4 ≤ base)
    (h : base = 10 → value.toNat < 0x80000000) (lead : UInt8) (wid : Nat) :
    number value base lead wid = fill lead wid (digitText base value.toNat) := by
  have hsign : ¬ (0x80000000 ≤ value.toNat ∧ base = 10) := by
    rintro ⟨hle, hten⟩
    have hlt := h hten
    omega
  have htmp := tmp_eq (show 1 < base by omega) (toNat_lt_pow hbase value)
  simp only [number, decide_eq_false hsign, Bool.false_eq_true, if_false]
  rw [htmp]

/-- A negative number of the base 10, with the width 1. -/
theorem number_of_neg {value : UInt32} {base : Nat} (hbase : base = 10)
    (h : 0x80000000 ≤ value.toNat) :
    number value base 32 1 = 45 :: digitText base (4294967296 - value.toNat) := by
  have hneg : (-value).toNat = 4294967296 - value.toNat := by
    have hlt := value.toNat_lt
    have hsize : UInt32.size = 4294967296 := rfl
    rw [UInt32.toNat_neg, hsize]
    omega
  have hsign : 0x80000000 ≤ value.toNat ∧ base = 10 := ⟨h, hbase⟩
  have htmp := tmp_eq (show 1 < base by omega) (toNat_lt_pow (show 4 ≤ base by omega) (-value))
  simp only [number, decide_eq_true hsign, if_true]
  rw [htmp, hneg]
  exact fill_of_le (Nat.succ_le_succ (Nat.zero_le _))

/-- `%u` and `%d` of a number below 2^31. -/
theorem number_decimal {value : UInt32} (h : value.toNat < 0x80000000) :
    number value 10 32 1 = digitText 10 value.toNat := by
  rw [number_of_nonneg (by omega) (fun _ => h)]
  exact fill_of_le (length_digitText_pos 10 value.toNat)

end Xint

end PpPrintf
end WrpcSw
