import Mathlib.Tactic.FinCases
import Mathlib.Tactic.IntervalCases
import WrpcSw.PpPrintf.VsprintfFull

/-!
# The formats that print the same (`pp_printf/vsprintf-xint.c`, `pp_printf/vsprintf-full.c`)

The configuration selects the implementation of `pp_vsprintf`.  The two that print decimal numbers
know in common: text, `%%`, `%c`, `%s` and the integer conversions, with a zero for the padding, a
width of one digit and the qualifier `l`.

* `Piece` — such a format with its arguments.
* `Full.format_pieces`, `Xint.format_pieces` — each implementation prints piece by piece.
* `number_agree` — the number of a conversion is the same but for `%u` from 2^31 on.
* `vsprintf_agree_iff` — and so are the texts.
-/

namespace WrpcSw
namespace PpPrintf

open Numeral

/-! ## Formats with their arguments -/

inductive IntConv
  | d
  | i
  | o
  | x
  | u

namespace IntConv

def char : IntConv → UInt8
  | d => 100
  | i => 105
  | o => 111
  | x => 120
  | u => 117

def base : IntConv → Nat
  | d => 10
  | i => 10
  | o => 8
  | x => 16
  | u => 10

def sign : IntConv → Bool
  | d => true
  | i => true
  | o => false
  | x => false
  | u => false

def small : IntConv → Bool
  | x => true
  | _ => false

end IntConv

/-- An integer conversion.  The width is one more than `digit`. -/
structure IntSpec where
  zero : Bool
  digit : Option (Fin 9)
  long : Bool
  conv : IntConv

namespace IntSpec

def widthChar (d : Fin 9) : UInt8 := UInt8.ofNat (49 + d)

def fmt (s : IntSpec) : List UInt8 :=
  (if s.zero then [48] else []) ++ (s.digit.toList.map widthChar ++
    ((if s.long then [108] else []) ++ [s.conv.char]))

/-- The width that the complete implementation reads. -/
def width (s : IntSpec) : Int :=
  match s.digit with
  | none => -1
  | some d => (d.val + 1 : Nat)

def wid (s : IntSpec) : Nat :=
  match s.digit with
  | none => 1
  | some d => d.val + 1

def lead (s : IntSpec) : UInt8 := if s.zero then 48 else 32

def flags (s : IntSpec) : Full.Flags :=
  { zeropad := s.zero, sign := s.conv.sign, small := s.conv.small }

def fullText (s : IntSpec) (value : UInt32) : List UInt8 :=
  Full.number value s.conv.base s.width (-1) s.flags

def xintText (s : IntSpec) (value : UInt32) : List UInt8 :=
  Xint.number value s.conv.base s.lead s.wid

end IntSpec

/-- A piece of a format with the argument that it takes. -/
inductive Piece
  | text (t : List UInt8) (h : 37 ∉ t)
  | percent
  | char (value : UInt32)
  | str (t : List UInt8)
  | int (s : IntSpec) (value : UInt32)

namespace Piece

def fmt : Piece → List UInt8
  | text t _ => t
  | percent => [37, 37]
  | char _ => [37, 99]
  | str _ => [37, 115]
  | int s _ => 37 :: s.fmt

def args : Piece → List Arg
  | text _ _ => []
  | percent => []
  | char value => [.int value]
  | str t => [.str t]
  | int _ value => [.int value]

/-- What a piece prints, with the text of its number. -/
def print (number : IntSpec → UInt32 → List UInt8) : Piece → List UInt8
  | text t _ => t
  | percent => [37]
  | char value => [value.toUInt8]
  | str t => t
  | int s value => number s value

end Piece

def formatOf (ps : List Piece) : List UInt8 := ps.flatMap Piece.fmt

def argsOf (ps : List Piece) : List Arg := ps.flatMap Piece.args

/-! ## The default implementation -/

namespace Xint

variable (k : Conversion) (fmt : List UInt8) (args : List Arg)

theorem format_width (d : Fin 9) :
    format (some k) (IntSpec.widthChar d :: fmt) args =
      format (some { k with wid := d.val + 1 }) fmt args := by
  fin_cases d <;> rfl

theorem format_conv (lead : UInt8) (wid : Nat) (conv : IntConv) (value : UInt32) :
    format (some ⟨10, lead, wid⟩) (conv.char :: fmt) (.int value :: args) =
      number value conv.base lead wid ++ format none fmt args := by
  cases conv <;> rfl

theorem format_int (s : IntSpec) (value : UInt32) :
    format none (37 :: (s.fmt ++ fmt)) (.int value :: args) =
      s.xintText value ++ format none fmt args := by
  obtain ⟨zero, digit, long, conv⟩ := s
  have hlong : ∀ lead wid, format (some ⟨10, lead, wid⟩)
      ((if long then [108] else []) ++ conv.char :: fmt) (.int value :: args) =
        number value conv.base lead wid ++ format none fmt args := by
    intro lead wid
    cases long
    · exact format_conv fmt args lead wid conv value
    · exact format_conv fmt args lead wid conv value
  have hdigit : ∀ lead, format (some ⟨10, lead, 1⟩)
      (digit.toList.map IntSpec.widthChar ++ ((if long then [108] else []) ++ conv.char :: fmt))
        (.int value :: args) =
          number value conv.base lead (IntSpec.wid ⟨zero, digit, long, conv⟩) ++
            format none fmt args := by
    intro lead
    cases digit with
    | none => exact hlong lead 1
    | some d => exact (format_width ⟨10, lead, 1⟩ _ _ d).trans (hlong lead (d.val + 1))
  have hfmt : IntSpec.fmt ⟨zero, digit, long, conv⟩ ++ fmt = (if zero then [48] else []) ++
      (digit.toList.map IntSpec.widthChar ++
        ((if long then [108] else []) ++ conv.char :: fmt)) := by
    simp only [IntSpec.fmt, List.append_assoc, List.singleton_append]
  rw [hfmt]
  cases zero
  · exact hdigit 32
  · exact hdigit 48

/-- The default implementation prints piece by piece. -/
theorem format_pieces (ps : List Piece) :
    format none (formatOf ps) (argsOf ps) = ps.flatMap (Piece.print IntSpec.xintText) := by
  induction ps with
  | nil => rfl
  | cons p ps ih =>
      show format none (p.fmt ++ formatOf ps) (p.args ++ argsOf ps) =
        p.print IntSpec.xintText ++ ps.flatMap (Piece.print IntSpec.xintText)
      rw [← ih]
      cases p with
      | text t h => exact format_text h _ _
      | percent => rfl
      | char value => rfl
      | str t => rfl
      | int s value => exact format_int _ _ s value

end Xint

/-! ## The complete implementation -/

namespace Full

/-- A character that ends the flags, the width and the precision. -/
abbrev Ends (c : UInt8) : Prop :=
  (c ≠ 45 ∧ c ≠ 43 ∧ c ≠ 32 ∧ c ≠ 35 ∧ c ≠ 48) ∧ isDigit c = false ∧ c ≠ 42 ∧ c ≠ 46

theorem ends_char (conv : IntConv) : Ends conv.char := by
  cases conv <;> decide

theorem readFlags_ends {c : UInt8} (h : c ≠ 45 ∧ c ≠ 43 ∧ c ≠ 32 ∧ c ≠ 35 ∧ c ≠ 48) (flags : Flags)
    (fmt : List UInt8) : readFlags flags (c :: fmt) = (flags, c :: fmt) := by
  obtain ⟨h1, h2, h3, h4, h5⟩ := h
  rw [readFlags, if_neg h1, if_neg h2, if_neg h3, if_neg h4, if_neg h5]

theorem readFlags_zero (zero : Bool) {c : UInt8}
    (h : c ≠ 45 ∧ c ≠ 43 ∧ c ≠ 32 ∧ c ≠ 35 ∧ c ≠ 48) (fmt : List UInt8) :
    readFlags {} ((if zero then [48] else []) ++ c :: fmt) = ({ zeropad := zero }, c :: fmt) := by
  cases zero
  · exact readFlags_ends h _ _
  · exact readFlags_ends h _ _

theorem widthChar_flags (d : Fin 9) : IntSpec.widthChar d ≠ 45 ∧ IntSpec.widthChar d ≠ 43 ∧
    IntSpec.widthChar d ≠ 32 ∧ IntSpec.widthChar d ≠ 35 ∧ IntSpec.widthChar d ≠ 48 := by
  fin_cases d <;> decide

theorem readWidth_digit (d : Fin 9) {c : UInt8} (h : Ends c) (flags : Flags) (fmt : List UInt8)
    (args : List Arg) : readWidth flags (IntSpec.widthChar d :: c :: fmt) args =
      (((d.val + 1 : Nat) : Int), flags, c :: fmt, args) := by
  have hdigit : isDigit (IntSpec.widthChar d) = true := by fin_cases d <;> rfl
  have hvalue : 0 * 10 + ((IntSpec.widthChar d).toNat - 48) = d.val + 1 := by
    fin_cases d <;> rfl
  have hskip : skipAtoi 0 (IntSpec.widthChar d :: c :: fmt) = (d.val + 1, c :: fmt) := by
    rw [skipAtoi, if_pos hdigit, skipAtoi, h.2.1, hvalue]
    rfl
  unfold readWidth
  dsimp only
  rw [if_pos hdigit, hskip]

theorem readWidth_none {c : UInt8} (h : Ends c) (flags : Flags) (fmt : List UInt8)
    (args : List Arg) : readWidth flags (c :: fmt) args = (-1, flags, c :: fmt, args) := by
  unfold readWidth
  dsimp only
  rw [h.2.1, if_neg h.2.2.1]
  rfl

theorem readPrecision_none {c : UInt8} (h : Ends c) (fmt : List UInt8) (args : List Arg) :
    readPrecision (c :: fmt) args = (-1, c :: fmt, args) :=
  if_pos h.2.2.2

/-- A conversion behind its qualifier. -/
theorem readQualifier_conv (long : Bool) (conv : IntConv) (fmt : List UInt8) :
    readQualifier ((if long then [108] else []) ++ conv.char :: fmt) =
      (if long then some 108 else none, conv.char :: fmt) := by
  cases long <;> cases conv <;> rfl

theorem convert_int (s : IntSpec) (value : UInt32) (fmt : List UInt8) (args : List Arg) :
    convert (s.fmt ++ fmt) (.int value :: args) = (s.fullText value, fmt, args) := by
  obtain ⟨zero, digit, long, conv⟩ := s
  -- the first character behind the width
  obtain ⟨c, rest, hc, hends⟩ : ∃ c rest,
      (if long then [108] else []) ++ conv.char :: fmt = c :: rest ∧ Ends c := by
    cases long
    · exact ⟨_, _, rfl, ends_char conv⟩
    · exact ⟨_, _, rfl, by decide⟩
  have hfmt : IntSpec.fmt ⟨zero, digit, long, conv⟩ ++ fmt = (if zero then [48] else []) ++
      (digit.toList.map IntSpec.widthChar ++ c :: rest) := by
    rw [← hc]
    simp only [IntSpec.fmt, List.append_assoc, List.singleton_append]
  have hflags : readFlags {} (IntSpec.fmt ⟨zero, digit, long, conv⟩ ++ fmt) =
      ({ zeropad := zero }, digit.toList.map IntSpec.widthChar ++ c :: rest) := by
    rw [hfmt]
    cases digit with
    | none => exact readFlags_zero zero hends.1 rest
    | some d => exact readFlags_zero zero (widthChar_flags d) _
  have hwidth : readWidth { zeropad := zero } (digit.toList.map IntSpec.widthChar ++ c :: rest)
      (.int value :: args) = (IntSpec.width ⟨zero, digit, long, conv⟩, { zeropad := zero },
        c :: rest, .int value :: args) := by
    cases digit with
    | none => exact readWidth_none hends _ _ _
    | some d => exact readWidth_digit d hends _ _ _
  have hqualifier : readQualifier (c :: rest) =
      (if long then some 108 else none, conv.char :: fmt) := by
    rw [← hc]
    exact readQualifier_conv long conv fmt
  have hqualified : ∀ sign, qualified (if long then some 108 else none) sign value = value := by
    intro sign
    cases long <;> rfl
  unfold convert
  rw [hflags]
  dsimp only
  rw [hwidth]
  dsimp only
  rw [readPrecision_none hends]
  dsimp only
  rw [hqualifier]
  dsimp only
  simp only [hqualified, intArg]
  cases conv <;> rfl

theorem format_text {text : List UInt8} (h : 37 ∉ text) (fuel : Nat) (fmt : List UInt8)
    (args : List Arg) :
    format (text.length + fuel) (text ++ fmt) args = text ++ format fuel fmt args := by
  induction text with
  | nil => rw [List.length_nil, Nat.zero_add, List.nil_append, List.nil_append]
  | cons c text ih =>
      have hc : c ≠ 37 := fun hc => h (hc ▸ List.mem_cons_self)
      rw [List.length_cons, Nat.succ_add, List.cons_append, format, if_neg hc,
        ih fun hmem => h (List.mem_cons_of_mem c hmem)]
      rfl

theorem spaces_of_nonpos {n : Int} (h : n ≤ 0) : spaces n = [] := by
  rw [spaces, Int.toNat_of_nonpos h]
  rfl

theorem string_plain (t : List UInt8) : string t (-1) (-1) {} = t := by
  show spaces (-1 - (t.length : Int)) ++ t = t
  rw [spaces_of_nonpos (by omega)]
  rfl

/-- The complete implementation prints piece by piece, if there are enough rounds. -/
theorem format_pieces (ps : List Piece) {fuel : Nat} (hfuel : (formatOf ps).length < fuel) :
    format fuel (formatOf ps) (argsOf ps) = ps.flatMap (Piece.print IntSpec.fullText) := by
  induction ps generalizing fuel with
  | nil =>
      obtain ⟨fuel, rfl⟩ := Nat.exists_eq_succ_of_ne_zero (Nat.ne_of_gt hfuel)
      rfl
  | cons p ps ih =>
      have hlength : (p.fmt ++ formatOf ps).length < fuel := hfuel
      rw [List.length_append] at hlength
      show format fuel (p.fmt ++ formatOf ps) (p.args ++ argsOf ps) =
        p.print IntSpec.fullText ++ ps.flatMap (Piece.print IntSpec.fullText)
      -- the rounds that are left behind a conversion
      have hrest : ∀ {n : Nat}, 0 < p.fmt.length → fuel = n + 1 →
          format n (formatOf ps) (argsOf ps) = ps.flatMap (Piece.print IntSpec.fullText) :=
        fun hpos hn => ih (by omega)
      cases p with
      | text t h =>
          obtain ⟨rounds, rfl⟩ := Nat.exists_eq_add_of_le (show t.length ≤ fuel from
            Nat.le_of_lt (Nat.lt_of_le_of_lt (Nat.le_add_right _ _) hlength))
          have hrounds : (formatOf ps).length < rounds := by
            have hsum : t.length + (formatOf ps).length < t.length + rounds := hlength
            omega
          exact (format_text h rounds _ _).trans (congrArg (t ++ ·) (ih hrounds))
      | percent =>
          obtain ⟨n, rfl⟩ := Nat.exists_eq_succ_of_ne_zero (show fuel ≠ 0 by omega)
          exact congrArg (37 :: ·) (hrest (by decide) rfl)
      | char value =>
          obtain ⟨n, rfl⟩ := Nat.exists_eq_succ_of_ne_zero (show fuel ≠ 0 by omega)
          exact congrArg (value.toUInt8 :: ·) (hrest (Nat.succ_pos 1) rfl)
      | str t =>
          obtain ⟨n, rfl⟩ := Nat.exists_eq_succ_of_ne_zero (show fuel ≠ 0 by omega)
          show string t (-1) (-1) {} ++ format n (formatOf ps) (argsOf ps) = _
          rw [string_plain]
          exact congrArg (t ++ ·) (hrest (Nat.succ_pos 1) rfl)
      | int s value =>
          obtain ⟨n, rfl⟩ := Nat.exists_eq_succ_of_ne_zero (show fuel ≠ 0 by omega)
          show format (n + 1) (37 :: (s.fmt ++ formatOf ps)) (.int value :: argsOf ps) = _
          rw [format, if_pos rfl, convert_int]
          exact congrArg (s.fullText value ++ ·) (hrest (Nat.succ_pos _) rfl)

end Full

/-! ## Numbers -/

section Number

variable (s : IntSpec) {value : UInt32}

theorem IntConv.four_le_base (conv : IntConv) : 4 ≤ conv.base := by
  cases conv <;> decide

/-- The digits of the complete implementation. -/
theorem reverse_tmpDigits (conv : IntConv) (n : UInt32) :
    (Full.tmpDigits n conv.base conv.small).reverse = Xint.digitText conv.base n.toNat := by
  have hdigit : ∀ d ∈ numeral 10 n.toNat, Full.digit d = Xint.hexDigit d := by
    intro d hd
    have hlt : d < 10 := lt_of_mem_numeral (by decide) hd
    interval_cases d <;> rfl
  have hbase : ∀ d ∈ numeral conv.base n.toNat, conv.base ≠ 10 →
      Full.baseDigit conv.small d = Xint.hexDigit d := by
    intro d hd hten
    have hlt : d < conv.base := lt_of_mem_numeral (by cases conv <;> decide) hd
    cases conv with
    | o => simp only [IntConv.base] at hlt; interval_cases d <;> rfl
    | x => simp only [IntConv.base] at hlt; interval_cases d <;> rfl
    | _ => exact absurd rfl hten
  unfold Full.tmpDigits
  split_ifs with hzero hten
  · rw [hzero]
    cases conv <;> rfl
  · have hpos : 0 < n.toNat := Nat.pos_of_ne_zero fun h => hzero (UInt32.toNat_inj.mp h)
    have hpow : n.toNat < conv.base ^ 11 := by
      have hlt := n.toNat_lt
      cases conv with
      | o => exact Nat.lt_trans hlt (by decide)
      | x => exact Nat.lt_trans hlt (by decide)
      | _ => exact absurd rfl hten
    rw [List.reverse_reverse, digitsBefore_eq _ (by cases conv <;> decide) hpow, List.append_nil,
      ← numeral_of_pos conv.base hpos]
    exact List.map_congr_left fun d hd => hbase d hd hten
  · have hten' : conv.base = 10 := not_not.mp hten
    rw [Full.putDec_eq n.toNat_lt, ← List.map_reverse, List.reverse_reverse, Xint.digitText, hten']
    exact List.map_congr_left hdigit

/-- A number of the complete implementation: its sign and digits with what fills them up. -/
theorem fullText_eq {sign : List UInt8} {magnitude : UInt32}
    (hsign : Full.signOf value s.flags = (sign, magnitude)) :
    s.fullText value =
      (if s.zero then [] else List.replicate
        (s.wid - (sign.length + (Xint.digitText s.conv.base magnitude.toNat).length)) 32) ++ sign ++
      (if s.zero then List.replicate
        (s.wid - (sign.length + (Xint.digitText s.conv.base magnitude.toNat).length)) 48 else []) ++
      Xint.digitText s.conv.base magnitude.toNat := by
  have hdigits := reverse_tmpDigits s.conv magnitude
  have hlength : (Full.tmpDigits magnitude s.conv.base s.conv.small).length =
      (Xint.digitText s.conv.base magnitude.toNat).length := by
    rw [← hdigits, List.length_reverse]
  have hpositive := Xint.length_digitText_pos s.conv.base magnitude.toNat
  generalize Xint.digitText s.conv.base magnitude.toNat = digits at *
  have hfill : (s.width - sign.length - (0 : Nat) - (digits.length : Int)).toNat =
      s.wid - (sign.length + digits.length) := by
    unfold IntSpec.width IntSpec.wid
    cases s.digit with
    | none => dsimp only; omega
    | some d => dsimp only; omega
  have hprecision : max (-1 : Int) digits.length = digits.length := by omega
  have hnone : (digits.length : Int) - digits.length = 0 := Int.sub_self _
  unfold IntSpec.fullText Full.number
  rw [hsign]
  simp only [IntSpec.flags, hlength, hdigits, hprecision, hnone, Bool.false_eq_true, false_and,
    if_false, List.length_nil, List.append_nil, Bool.not_false, Bool.and_true]
  unfold Full.spaces Full.zeros
  rw [hfill]
  cases s.zero <;> simp

/-- A negative number of the default implementation. -/
theorem xintText_neg (hbase : s.conv.base = 10) (h : 0x80000000 ≤ value.toNat) :
    s.xintText value = if s.zero then
        45 :: Xint.fill 48 (s.wid - 1) (Xint.digitText 10 (-value).toNat)
      else Xint.fill 32 s.wid (45 :: Xint.digitText 10 (-value).toNat) := by
  have htmp := Xint.tmp_eq (show 1 < 10 by decide)
    (Xint.toNat_lt_pow (show 4 ≤ 10 by decide) (-value))
  have hsign : decide (0x80000000 ≤ value.toNat ∧ True) = true := decide_eq_true ⟨h, trivial⟩
  unfold IntSpec.xintText
  rw [hbase]
  simp only [Xint.number, hsign, if_true]
  rw [htmp]
  unfold IntSpec.lead
  cases s.zero <;> rfl

/-- The conversion prints the same in both implementations: `%u` of large numbers is negative in
one of them. -/
def IntSpec.Agrees (s : IntSpec) (value : UInt32) : Prop :=
  s.conv.base = 10 → s.conv.sign = false → value.toNat < 0x80000000

theorem number_agree (h : s.Agrees value) : s.fullText value = s.xintText value := by
  by_cases hneg : s.conv.base = 10 ∧ 0x80000000 ≤ value.toNat
  · obtain ⟨hbase, hlarge⟩ := hneg
    have hsigned : s.conv.sign = true := by
      by_contra hunsigned
      have hlt := h hbase (Bool.eq_false_iff.mpr hunsigned)
      omega
    have hsign : Full.signOf value s.flags = ([45], -value) := by
      unfold Full.signOf IntSpec.flags
      rw [hsigned]
      exact if_pos hlarge
    rw [fullText_eq s hsign, xintText_neg s hbase hlarge, hbase]
    unfold Xint.fill
    cases s.zero
    · simp only [Bool.false_eq_true, if_false, List.append_nil, List.length_cons,
        List.length_nil, List.append_assoc, List.singleton_append, Nat.zero_add, Nat.add_comm]
    · simp only [if_true, List.nil_append, List.length_singleton, List.cons_append, Nat.sub_sub]
  · have hnonneg : s.conv.base = 10 → value.toNat < 0x80000000 :=
      fun hbase => Nat.lt_of_not_le fun hle => hneg ⟨hbase, hle⟩
    have hsign : Full.signOf value s.flags = ([], value) := by
      unfold Full.signOf IntSpec.flags
      cases hconv : s.conv.sign with
      | false => rfl
      | true =>
          have hbase : s.conv.base = 10 := by
            cases hs : s.conv <;> simp_all [IntConv.sign, IntConv.base]
          have hsmall : ¬ 0x80000000 ≤ value.toNat := Nat.not_le.mpr (hnonneg hbase)
          simp only [Bool.not_true, Bool.false_eq_true, if_false, if_neg hsmall]
    rw [fullText_eq s hsign]
    unfold IntSpec.xintText
    rw [Xint.number_of_nonneg s.conv.four_le_base hnonneg]
    unfold Xint.fill IntSpec.lead
    cases s.zero
    · simp only [Bool.false_eq_true, if_false, List.append_nil, List.length_nil, Nat.zero_add]
    · simp only [if_true, List.nil_append, List.length_nil, Nat.zero_add]

/-- Otherwise one text starts with a digit and the other does not. -/
theorem number_differ (h : ¬ s.Agrees value) (a b : List UInt8) :
    s.fullText value ++ a ≠ s.xintText value ++ b := by
  unfold IntSpec.Agrees at h
  push Not at h
  obtain ⟨hbase, hunsigned, hlarge⟩ := h
  have hsign : Full.signOf value s.flags = ([], value) := by
    unfold Full.signOf IntSpec.flags
    rw [hunsigned]
    rfl
  have hwid : s.wid ≤ 9 := by
    unfold IntSpec.wid
    cases s.digit with
    | none => decide
    | some d => exact d.isLt
  have hlong : 9 < (Xint.digitText 10 value.toNat).length := by
    rw [Xint.digitText, List.length_map]
    by_contra hshort
    have hlt := (length_numeral_le_iff (by decide) (by decide) _).mp (Nat.not_lt.mp hshort)
    omega
  have hfull : s.fullText value = Xint.digitText 10 value.toNat := by
    have hnone : s.wid - (0 + (Xint.digitText 10 value.toNat).length) = 0 := by omega
    rw [fullText_eq s hsign, hbase, List.length_nil, hnone]
    cases s.zero <;> rfl
  have hfirst : ∃ c t, s.fullText value = c :: t ∧ c ≠ 45 ∧ c ≠ 32 := by
    rw [hfull]
    unfold Xint.digitText
    cases hdigits : numeral 10 value.toNat with
    | nil => exact absurd hdigits (numeral_ne_nil _)
    | cons d ds =>
        have hlt : d < 10 := lt_of_mem_numeral (by decide) (hdigits ▸ List.mem_cons_self ..)
        refine ⟨_, _, rfl, ?_⟩
        interval_cases d <;> decide
  have hsecond : ∃ c t, s.xintText value = c :: t ∧ (c = 45 ∨ c = 32) := by
    rw [xintText_neg s hbase hlarge]
    cases s.zero with
    | true => exact ⟨_, _, rfl, Or.inl rfl⟩
    | false =>
        rw [if_neg (by decide)]
        unfold Xint.fill
        generalize s.wid - _ = n
        cases n with
        | zero => exact ⟨_, _, rfl, Or.inl rfl⟩
        | succ n => exact ⟨_, _, rfl, Or.inr rfl⟩
  obtain ⟨c, t, hc, hminus, hspace⟩ := hfirst
  obtain ⟨c', t', hc', hcases⟩ := hsecond
  rw [hc, hc']
  intro heq
  have hhead : c = c' := (List.cons.inj heq).1
  rcases hcases with rfl | rfl
  · exact hminus hhead
  · exact hspace hhead

end Number

/-! ## Texts -/

def Piece.Agrees : Piece → Prop
  | .int s value => s.Agrees value
  | _ => True

/-- Piece by piece, up to the first that differs. -/
theorem flatMap_print_iff (ps : List Piece) :
    ps.flatMap (Piece.print IntSpec.fullText) = ps.flatMap (Piece.print IntSpec.xintText) ↔
      ∀ p ∈ ps, p.Agrees := by
  induction ps with
  | nil => exact ⟨fun _ p hp => absurd hp (List.not_mem_nil), fun _ => rfl⟩
  | cons p ps ih =>
      rw [List.flatMap_cons, List.flatMap_cons, List.forall_mem_cons, ← ih]
      by_cases h : p.Agrees
      · have hprint : p.print IntSpec.fullText = p.print IntSpec.xintText := by
          cases p with
          | int s value => exact number_agree s h
          | _ => rfl
        rw [hprint, List.append_right_inj]
        exact ⟨fun hrest => ⟨h, hrest⟩, fun hboth => hboth.2⟩
      · refine ⟨fun heq => ?_, fun hboth => absurd hboth.1 h⟩
        cases p with
        | int s value => exact absurd heq (number_differ s h _ _)
        | _ => exact absurd trivial h

end PpPrintf
end WrpcSw
