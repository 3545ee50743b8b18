import Mathlib.Data.List.TakeWhile
import WrpcSw.Lib.CInt
import WrpcSw.PpPrintf.VsprintfXint

/-!
# The C library of the tools

The tools run on the host, with the C library of the host: `FILE`, the conversions of `printf` that
they use, `atoi` and `strtol`.  The host has an `int` of 32 bits and a `long` of 64 bits.

* `fread_full`, `fread_end` — a read of whole words, inside the file and at its end.
* `strtol_decimal` — a decimal number is read back.
* `mapM_digitValue` — the digits of a number are read back.
-/

namespace WrpcSw
namespace Tools

open CInt Numeral
open PpPrintf (ascii)

/-! ## Files -/

/-- A file that is open for reading, with what was not read yet. -/
structure File where
  rest : List UInt8
  eof : Bool := false

/-- `feof` -/
def feof (f : File) : Bool := f.eof

/-- `fread(x, 1, n, f)`: the buffer, the number of bytes that were read, and the file.  The end of
the file is noticed by a read that goes beyond it. -/
def fread (x : List UInt8) (n : Nat) (f : File) : List UInt8 × Nat × File :=
  let got := f.rest.take n
  (got ++ x.drop got.length, got.length,
    { rest := f.rest.drop n, eof := f.eof || decide (f.rest.length < n) })

theorem fread_full (x word rest : List UInt8) :
    fread x word.length { rest := word ++ rest } =
      (word ++ x.drop word.length, word.length, { rest := rest }) := by
  have heof : ¬ (word ++ rest).length < word.length := by
    rw [List.length_append]
    omega
  unfold fread
  dsimp only
  rw [List.take_left, List.drop_left, decide_eq_false heof]
  rfl

/-- Nothing is read at the end of the file, and the buffer stays as it is. -/
theorem fread_end (x : List UInt8) {n : Nat} (hn : 0 < n) :
    fread x n { rest := [] } = (x, 0, { rest := [], eof := true }) := by
  have heof : ([] : List UInt8).length < n := hn
  unfold fread
  rw [List.take_nil, List.drop_nil, decide_eq_true heof]
  rfl

/-! ## Digits -/

/-- The character of a digit. -/
def digitChar (upper : Bool) (d : Nat) : UInt8 :=
  UInt8.ofNat (if d < 10 then 48 + d else if upper then 55 + d else 87 + d)

/-- The text of a number. -/
def digits (upper : Bool) (base n : Nat) : List UInt8 := (numeral base n).map (digitChar upper)

/-- The value of a digit. -/
def digitValue (c : UInt8) : Option Nat :=
  if 48 ≤ c ∧ c ≤ 57 then some (c.toNat - 48)
  else if 65 ≤ c ∧ c ≤ 90 then some (c.toNat - 55)
  else if 97 ≤ c ∧ c ≤ 122 then some (c.toNat - 87)
  else none

def isDigit (base : Nat) (c : UInt8) : Bool := (digitValue c).any (· < base)

/-- The bases whose digits have characters. -/
structure IsBase (base : Nat) : Prop where
  one_lt : 1 < base
  le_sixteen : base ≤ 16

theorem isBase_ten : IsBase 10 := ⟨by decide, by decide⟩

theorem isBase_sixteen : IsBase 16 := ⟨by decide, by decide⟩

/-! ## `printf` -/

inductive Arg
  | num (value : Int)
  | str (text : List UInt8)

/-- `va_arg` for an `int` or a `long`.  The formats of the tools match their arguments; another
argument reads as zero. -/
def numArg : List Arg → Int
  | .num value :: _ => value
  | _ => 0

/-- `va_arg(args, char *)` -/
def strArg : List Arg → List UInt8
  | .str text :: _ => text
  | _ => []

/-- What was read of a conversion: the flag `0`, and the width. -/
structure Conversion where
  zero : Bool := false
  width : Nat := 0

/-- Put `lead` before the text up to the width. -/
def fill (lead : UInt8) (width : Nat) (text : List UInt8) : List UInt8 :=
  List.replicate (width - text.length) lead ++ text

/-- `%d` -/
def signed (k : Conversion) (v : Int) : List UInt8 :=
  if v < 0 then
    if k.zero then 45 :: fill 48 (k.width - 1) (digits false 10 v.natAbs)
    else fill 32 k.width (45 :: digits false 10 v.natAbs)
  else fill (if k.zero then 48 else 32) k.width (digits false 10 v.natAbs)

/-- `%x`, `%X` -/
def hexadecimal (upper : Bool) (k : Conversion) (v : Int) : List UInt8 :=
  fill (if k.zero then 48 else 32) k.width (digits upper 16 (v % 2 ^ 32).toNat)

/-- The part of a format behind a `%`, or outside a conversion (`none`). -/
def format : Option Conversion → List UInt8 → List Arg → List UInt8
  | _, [], _ => []
  | none, c :: fmt, args =>
      if c = 37 then format (some {}) fmt args else c :: format none fmt args
  | some k, c :: fmt, args =>
      if c = 48 ∧ k.width = 0 then format (some { k with zero := true }) fmt args
      else if 48 ≤ c ∧ c ≤ 57 then
        format (some { k with width := 10 * k.width + (c.toNat - 48) }) fmt args
      else if c = 42 then                                                     -- '*'
        format (some { k with width := (numArg args).toNat }) fmt args.tail
      else if c = 108 then format (some k) fmt args                           -- 'l'
      else if c = 100 then signed k (numArg args) ++ format none fmt args.tail
      else if c = 120 then hexadecimal false k (numArg args) ++ format none fmt args.tail
      else if c = 88 then hexadecimal true k (numArg args) ++ format none fmt args.tail
      else if c = 115 then strArg args ++ format none fmt args.tail           -- 's'
      else if c = 37 then 37 :: format none fmt args                          -- '%'
      else format none fmt args

/-- The text that `printf` prints. -/
def printf (fmt : String) (args : List Arg) : List UInt8 := format none (ascii fmt) args

/-! ## `strtol` and `atoi` -/

def isspace (c : UInt8) : Bool := c = 32 ∨ (9 ≤ c ∧ c ≤ 13)

/-- The values of `long`. -/
def clampLong (v : Int) : Int := max (-2 ^ 63) (min v (2 ^ 63 - 1))

/-- `strtol`: the number, and the text behind it.  Base 0 takes the base from the text. -/
def strtol (nptr : List UInt8) (base : Nat) : Int × List UInt8 :=
  let text := nptr.dropWhile isspace
  let negative : Bool := text.head? = some 45
  let text := if negative ∨ text.head? = some 43 then text.tail else text
  let hex : Bool := (base = 0 ∨ base = 16) ∧ text.head? = some 48 ∧
    (text.tail.head? = some 120 ∨ text.tail.head? = some 88) ∧
    (text.drop 2).head?.any (isDigit 16)
  let base :=
    if hex then 16 else if base = 0 then (if text.head? = some 48 then 8 else 10) else base
  let text := if hex then text.drop 2 else text
  let read := text.takeWhile (isDigit base)
  if read = [] then (0, nptr)
  else
    let magnitude : Int := horner base 0 (read.filterMap digitValue)
    (clampLong (if negative then -magnitude else magnitude), text.drop read.length)

/-- `atoi`: the result of `strtol` as an `int`. -/
def atoi (nptr : List UInt8) : Int := i32 (strtol nptr 10).1

/-! ## Numbers that are printed and read -/

theorem digitValue_digitChar (upper : Bool) {d : Nat} (h : d < 16) :
    digitValue (digitChar upper d) = some d := by
  revert upper d
  decide

section Digits

variable {base : Nat} (hbase : IsBase base)

include hbase

theorem isDigit_of_mem {upper : Bool} {n : Nat} {c : UInt8} (h : c ∈ digits upper base n) :
    isDigit base c = true := by
  obtain ⟨d, hd, rfl⟩ := List.mem_map.mp h
  have hlt := lt_of_mem_numeral hbase.one_lt hd
  rw [isDigit, digitValue_digitChar upper (hlt.trans_le hbase.le_sixteen)]
  exact decide_eq_true hlt

theorem filterMap_digits (upper : Bool) (n : Nat) :
    (digits upper base n).filterMap digitValue = numeral base n := by
  have hvalues : ∀ ds : List Nat, (∀ d ∈ ds, d < 16) →
      (ds.map (digitChar upper)).filterMap digitValue = ds := by
    intro ds
    induction ds with
    | nil => exact fun _ => rfl
    | cons d ds ih =>
        intro hds
        rw [List.map_cons, List.filterMap_cons,
          digitValue_digitChar upper (hds d List.mem_cons_self),
          ih fun e he => hds e (List.mem_cons_of_mem d he)]
  refine hvalues _ fun d hd => ?_
  have hlt := lt_of_mem_numeral hbase.one_lt hd
  exact hlt.trans_le hbase.le_sixteen

omit hbase in
theorem digits_ne_nil (upper : Bool) (n : Nat) : digits upper base n ≠ [] :=
  List.map_eq_nil_iff.not.mpr (numeral_ne_nil n)

end Digits

/-- A decimal digit is no space, no sign and no zero, unless it is the digit zero. -/
theorem digitChar_first (upper : Bool) {d : Nat} (h : d < 10) :
    isspace (digitChar upper d) = false ∧ digitChar upper d ≠ 45 ∧ digitChar upper d ≠ 43 ∧
      (digitChar upper d = 48 → d = 0) := by
  revert upper d
  decide

/-- The first digit. -/
theorem exists_head_digits (upper : Bool) (n : Nat) :
    ∃ d ds, digits upper 10 n = digitChar upper d :: ds ∧ d < 10 ∧ (d = 0 → n = 0) := by
  obtain ⟨d, ds, hnumeral⟩ := List.exists_cons_of_ne_nil (numeral_ne_nil (b := 10) n)
  have hmem : d ∈ numeral 10 n := hnumeral ▸ List.mem_cons_self
  refine ⟨d, ds.map (digitChar upper), ?_, lt_of_mem_numeral (by decide) hmem, fun hd => ?_⟩
  · rw [digits, hnumeral, List.map_cons]
  · by_contra hn
    exact ne_zero_of_head_numeral (Nat.pos_of_ne_zero hn) (by rw [hnumeral]; rfl) hd

/-- A decimal number is read back, up to the largest `long`. -/
theorem strtol_decimal {n base : Nat} (hbase : base = 10 ∨ base = 0 ∧ 0 < n) :
    strtol (digits false 10 n) base = (clampLong n, []) := by
  obtain ⟨d, ds, htext, hd, hzero⟩ := exists_head_digits false n
  obtain ⟨hspace, hminus, hplus, hfirst⟩ := digitChar_first false hd
  have hdigits : (digits false 10 n).takeWhile (isDigit 10) = digits false 10 n :=
    List.takeWhile_eq_self_iff.mpr fun c hc => isDigit_of_mem isBase_ten hc
  have hskip : (digits false 10 n).dropWhile isspace = digits false 10 n := by
    rw [htext]
    exact List.dropWhile_cons_of_neg (by rw [hspace]; exact Bool.false_ne_true)
  have hhead : (digits false 10 n).head? = some (digitChar false d) := by rw [htext]; rfl
  have hnegative : ¬ (digits false 10 n).head? = some 45 := by
    rw [hhead]
    exact fun h => hminus (Option.some.inj h)
  have hsign : ¬ (digits false 10 n).head? = some 43 := by
    rw [hhead]
    exact fun h => hplus (Option.some.inj h)
  have hoctal : base = 0 → ¬ (digits false 10 n).head? = some 48 := by
    intro hauto hzeroChar
    rw [hhead] at hzeroChar
    have hn := hzero (hfirst (Option.some.inj hzeroChar))
    omega
  have hvalue : horner 10 0 ((digits false 10 n).filterMap digitValue) = n := by
    rw [filterMap_digits isBase_ten, horner_numeral]
  have hhex : ¬ ((base = 0 ∨ base = 16) ∧ (digits false 10 n).head? = some 48 ∧
      ((digits false 10 n).tail.head? = some 120 ∨ (digits false 10 n).tail.head? = some 88) ∧
      ((digits false 10 n).drop 2).head?.any (isDigit 16)) := by
    rintro ⟨hauto, hzeroChar, -⟩
    exact hoctal (by omega) hzeroChar
  have hten : (if base = 0 then (if (digits false 10 n).head? = some 48 then 8 else 10)
      else base) = 10 := by
    split_ifs with hauto hzeroChar
    · exact absurd hzeroChar (hoctal hauto)
    · rfl
    · omega
  unfold strtol
  simp only [hskip, hnegative, hsign, hhex, hten, decide_false, Bool.false_eq_true, or_self, if_false,
    hdigits, digits_ne_nil, hvalue, List.drop_length]

/-! ## What the conversions print -/

/-- Text without a conversion. -/
theorem format_text {text : List UInt8} (h : 37 ∉ text) (fmt : List UInt8) (args : List Arg) :
    format none (text ++ fmt) args = text ++ format none fmt args := by
  induction text with
  | nil => rfl
  | cons c text ih =>
      have hc : c ≠ 37 := fun hc => h (hc ▸ List.mem_cons_self)
      rw [List.cons_append, format, if_neg hc, ih fun hmem => h (List.mem_cons_of_mem c hmem)]
      rfl

theorem format_str (text fmt : List UInt8) (args : List Arg) :
    format none (ascii "%s" ++ fmt) (.str text :: args) = text ++ format none fmt args := rfl

theorem format_long (v : Int) (fmt : List UInt8) (args : List Arg) :
    format none (ascii "%ld" ++ fmt) (.num v :: args) = signed {} v ++ format none fmt args := rfl

theorem fill_zero (lead : UInt8) (text : List UInt8) : fill lead 0 text = text := by
  rw [fill, Nat.zero_sub]
  rfl

theorem signed_natCast (n : Nat) : signed {} n = digits false 10 n :=
  (if_neg (by omega)).trans (fill_zero 32 _)

theorem hexadecimal_natCast (upper : Bool) {n : Nat} (h : n < 2 ^ 32) :
    hexadecimal upper {} n = digits upper 16 n := by
  have hword : ((n : Int) % 2 ^ 32).toNat = n := by omega
  rw [hexadecimal, hword]
  exact fill_zero _ _

/-- A byte has two digits. -/
theorem hexadecimal_byte (upper : Bool) (b : UInt8) :
    hexadecimal upper { zero := true, width := 2 } b.toNat =
      [digitChar upper (b.toNat / 16), digitChar upper (b.toNat % 16)] := by
  have hlt := b.toNat_lt
  have hword : ((b.toNat : Int) % 2 ^ 32).toNat = b.toNat := by omega
  rw [hexadecimal, hword, digits]
  by_cases hone : b.toNat < 16
  · rw [numeral_of_lt hone, Nat.div_eq_of_lt hone, Nat.mod_eq_of_lt hone]
    rfl
  · have hhigh : b.toNat / 16 < 16 := by omega
    rw [numeral_step (by decide) (by omega), numeral_of_lt hhigh]
    rfl

end Tools
end WrpcSw
