import WrpcSw.PpPrintf.VsprintfXint

/-!
# The complete formatted output (`pp_printf/vsprintf-full.c`)

With `CONFIG_PRINTF_FULL` formats have flags, a width, a precision and a qualifier.  `int`, `long`
and pointers have 32 bits.

Decimal digits are made without divisions by 10: the digits of a number in base 16 are recombined,
and small numbers are divided by multiplying and shifting.

* `number`, `vsprintf` — the code.
* `putDec_eq` — the digits are those of the number.
-/

namespace WrpcSw
namespace PpPrintf
namespace Full

open Numeral

/-! ## Decimal digits -/

def digit (d : Nat) : UInt8 := UInt8.ofNat (48 + d)

/-- `put_dec_trunc`: the digits of a number below 100000, the least significant one first. -/
def putDecTrunc (q : Nat) : List UInt8 :=
  let d1 := q / 16 % 16
  let d2 := q / 256 % 16
  let d3 := q / 4096
  let d0 := 6 * (d3 + d2 + d1) + q % 16
  let q := d0 * 0xcd / 2048
  let d0 := d0 - 10 * q
  let d1 := q + 9 * d3 + 5 * d2 + d1
  digit d0 ::
    if d1 = 0 then []
    else
      let q := d1 * 0xcd / 2048
      let d1 := d1 - 10 * q
      let d2 := q + 2 * d2
      digit d1 ::
        if d2 = 0 ∧ d3 = 0 then []
        else
          let q := d2 * 0xd / 128
          let d2 := d2 - 10 * q
          let d3 := q + 4 * d3
          digit d2 ::
            if d3 = 0 then []
            else
              let q := d3 * 0xcd / 2048
              let d3 := d3 - 10 * q
              digit d3 :: if q = 0 then [] else [digit q]

/-- `put_dec_full`: always five digits. -/
def putDecFull (q : Nat) : List UInt8 :=
  let d1 := q / 16 % 16
  let d2 := q / 256 % 16
  let d3 := q / 4096
  let d0 := 6 * (d3 + d2 + d1) + q % 16
  let q := d0 * 0xcd / 2048
  let d0 := d0 - 10 * q
  let d1 := q + 9 * d3 + 5 * d2 + d1
  let q := d1 * 0xcd / 2048
  let d1 := d1 - 10 * q
  let d2 := q + 2 * d2
  let q := d2 * 0xd / 128
  let d2 := d2 - 10 * q
  let d3 := q + 4 * d3
  let q := d3 * 0xcd / 2048
  let d3 := d3 - 10 * q
  [digit d0, digit d1, digit d2, digit d3, digit q]

/-- `put_dec`, for at most `fuel` rounds; two are enough for 32 bits. -/
def putDec : Nat → Nat → List UInt8
  | 0, _ => []
  | fuel + 1, num =>
      if num < 100000 then putDecTrunc num
      else putDecFull (num % 100000) ++ putDec fuel (num / 100000)

/-! ## Numbers and texts -/

structure Flags where
  zeropad : Bool := false
  sign : Bool := false
  plus : Bool := false
  space : Bool := false
  left : Bool := false
  small : Bool := false
  special : Bool := false

def upperDigits : List UInt8 := ascii "0123456789ABCDEF"

/-- A digit in base 8 or 16, in small letters if `small`. -/
def baseDigit (small : Bool) (d : Nat) : UInt8 :=
  upperDigits.getD d 0 ||| if small then 0x20 else 0

/-- The digits of `tmp`, the least significant one first. -/
def tmpDigits (num : UInt32) (base : Nat) (small : Bool) : List UInt8 :=
  if num = 0 then [48]
  else if base ≠ 10 then (digitsBefore (baseDigit small) base 11 num.toNat []).reverse
  else putDec 2 num.toNat

/-- The sign of a number, and its magnitude. -/
def signOf (num : UInt32) (type : Flags) : List UInt8 × UInt32 :=
  if !type.sign then ([], num)
  else if 0x80000000 ≤ num.toNat then ([45], -num)
  else if type.plus then ([43], num)
  else if type.space then ([32], num)
  else ([], num)

def spaces (n : Int) : List UInt8 := List.replicate n.toNat 32

def zeros (n : Int) : List UInt8 := List.replicate n.toNat 48

def number (num : UInt32) (base : Nat) (size precision : Int) (type : Flags) : List UInt8 :=
  let zeropad := type.zeropad && !type.left
  let (sign, num) := signOf num type
  let pfx : List UInt8 :=
    if type.special ∧ base ≠ 10 then
      if base = 16 then [48, 88 ||| if type.small then 0x20 else 0] else [48]
    else []
  let tmp := tmpDigits num base type.small
  let precision := max precision tmp.length
  let size := size - sign.length - pfx.length - precision
  (if !zeropad && !type.left then spaces size else []) ++ sign ++ pfx ++
    (if zeropad then zeros size else []) ++ zeros (precision - tmp.length) ++ tmp.reverse ++
    (if type.left then spaces size else [])

/-- `string`.  A negative precision is no limit. -/
def string (s : List UInt8) (fieldWidth precision : Int) (flags : Flags) : List UInt8 :=
  let s := if precision < 0 then s else s.take precision.toNat
  if flags.left then s ++ spaces (fieldWidth - s.length) else spaces (fieldWidth - s.length) ++ s

/-- `pointer`, without the extensions of a network stack. -/
def pointer (ptr : UInt32) (fieldWidth precision : Int) (flags : Flags) : List UInt8 :=
  if ptr = 0 then string (ascii "(null)") fieldWidth precision flags
  else
    let flags := { flags with small := true }
    if fieldWidth = -1 then number ptr 16 8 precision { flags with zeropad := true }
    else number ptr 16 fieldWidth precision flags

/-! ## Formats -/

def isDigit (c : UInt8) : Bool := 48 ≤ c ∧ c ≤ 57

def isAlnum (c : UInt8) : Bool := isDigit c || (97 ≤ c ∧ c ≤ 122) || (65 ≤ c ∧ c ≤ 90)

/-- The flags at the start of a conversion. -/
def readFlags (flags : Flags) : List UInt8 → Flags × List UInt8
  | [] => (flags, [])
  | c :: fmt =>
      if c = 45 then readFlags { flags with left := true } fmt
      else if c = 43 then readFlags { flags with plus := true } fmt
      else if c = 32 then readFlags { flags with space := true } fmt
      else if c = 35 then readFlags { flags with special := true } fmt
      else if c = 48 then readFlags { flags with zeropad := true } fmt
      else (flags, c :: fmt)

/-- `skip_atoi`. -/
def skipAtoi (i : Nat) : List UInt8 → Nat × List UInt8
  | [] => (i, [])
  | c :: fmt => if isDigit c then skipAtoi (i * 10 + (c.toNat - 48)) fmt else (i, c :: fmt)

def signed (value : UInt32) : Int :=
  if value.toNat < 0x80000000 then value.toNat else (value.toNat : Int) - 4294967296

/-- The field width; a negative one in an argument means alignment to the left. -/
def readWidth (flags : Flags) (fmt : List UInt8) (args : List Arg) :
    Int × Flags × List UInt8 × List Arg :=
  match fmt with
  | [] => (-1, flags, [], args)
  | c :: rest =>
      if isDigit c then
        let (i, rest) := skipAtoi 0 (c :: rest)
        (i, flags, rest, args)
      else if c = 42 then
        let width := signed (intArg args)
        if width < 0 then (-width, { flags with left := true }, rest, args.tail)
        else (width, flags, rest, args.tail)
      else (-1, flags, c :: rest, args)

def readPrecision (fmt : List UInt8) (args : List Arg) : Int × List UInt8 × List Arg :=
  match fmt with
  | [] => (-1, [], args)
  | c :: rest =>
      if c ≠ 46 then (-1, c :: rest, args)
      else if rest.head?.any isDigit then
        let (i, rest) := skipAtoi 0 rest
        (i, rest, args)
      else if rest.head? = some 42 then (max 0 (signed (intArg args)), rest.tail, args.tail)
      else (0, rest, args)

/-- The qualifier; `ll` is read as `L`. -/
def readQualifier (fmt : List UInt8) : Option UInt8 × List UInt8 :=
  match fmt with
  | [] => (none, [])
  | c :: rest =>
      if c = 104 ∨ c = 108 ∨ c = 76 ∨ c = 90 ∨ c = 122 ∨ c = 116 then
        if c = 108 ∧ rest.head? = some 108 then (some 76, rest.tail) else (some c, rest)
      else (none, c :: rest)

/-- The value of an argument.  All but `h` have 32 bits. -/
def qualified (qualifier : Option UInt8) (sign : Bool) (value : UInt32) : UInt32 :=
  if qualifier = some 104 then
    let low := value.toNat % 65536
    if sign ∧ 0x8000 ≤ low then UInt32.ofNat (low + 0xffff0000) else UInt32.ofNat low
  else value

/-- A conversion behind its `%`: its text, and what was not read of the format and arguments. -/
def convert (fmt : List UInt8) (args : List Arg) : List UInt8 × List UInt8 × List Arg :=
  let (flags, fmt) := readFlags {} fmt
  let (width, flags, fmt, args) := readWidth flags fmt args
  let (precision, fmt, args) := readPrecision fmt args
  let (qualifier, fmt) := readQualifier fmt
  match fmt with
  | [] => ([37], [], args)
  | c :: fmt =>
      let integer (base : Nat) (flags : Flags) : List UInt8 × List UInt8 × List Arg :=
        (number (qualified qualifier flags.sign (intArg args)) base width precision flags,
          fmt, args.tail)
      if c = 99 then                                                          -- 'c'
        let char := [(intArg args).toUInt8]
        (if flags.left then char ++ spaces (width - 1) else spaces (width - 1) ++ char,
          fmt, args.tail)
      else if c = 115 then                                                    -- 's'
        (string (strArg args) width precision flags, fmt, args.tail)
      else if c = 112 then                                                    -- 'p'
        (pointer (intArg args) width precision flags, fmt.dropWhile isAlnum, args.tail)
      else if c = 110 then ([], fmt, args.tail)                               -- 'n'
      else if c = 37 then ([37], fmt, args)                                   -- '%'
      else if c = 111 then integer 8 flags                                    -- 'o'
      else if c = 120 then integer 16 { flags with small := true }            -- 'x'
      else if c = 88 then integer 16 flags                                    -- 'X'
      else if c = 100 ∨ c = 105 then integer 10 { flags with sign := true }   -- 'd', 'i'
      else if c = 117 then integer 10 flags                                   -- 'u'
      else ([37, c], fmt, args)

/-- The loop of `pp_vsprintf`, for at most `fuel` rounds. -/
def format : Nat → List UInt8 → List Arg → List UInt8
  | 0, _, _ => []
  | _ + 1, [], _ => []
  | fuel + 1, c :: fmt, args =>
      if c = 37 then
        let (text, fmt, args) := convert fmt args
        text ++ format fuel fmt args
      else c :: format fuel fmt args

/-- `pp_vsprintf`: the text that it writes, without the final zero.  Each round reads at least one
character of the format. -/
def vsprintf (fmt : List UInt8) (args : List Arg) : List UInt8 := format (fmt.length + 1) fmt args

/-! ## The digits of a number -/

/-- The last digit, and the ones before it if there are any. -/
theorem reverse_numeral (q : Nat) : (numeral 10 q).reverse =
    q % 10 :: if q / 10 = 0 then [] else (numeral 10 (q / 10)).reverse := by
  by_cases hlt : q < 10
  · rw [numeral_of_lt hlt, Nat.mod_eq_of_lt hlt, if_pos (by omega)]
    rfl
  · rw [numeral_step (by omega) (Nat.le_of_not_lt hlt), List.reverse_append, if_neg (by omega)]
    rfl

/-- A division by 10 as the source makes it. -/
theorem div_ten {n : Nat} (h : n ≤ 1000) : n * 0xcd / 2048 = n / 10 := by omega

theorem div_ten_short {n : Nat} (h : n ≤ 68) : n * 0xd / 128 = n / 10 := by omega

/-- The recombined digits in base 16 are the number without its last digits, up to tens. -/
structure Recombined (q a d0 d1 d2 d3 : Nat) : Prop where
  ones : d0 % 10 = q % 10
  tens : d1 % 10 = q / 10 % 10
  hundreds : d2 % 10 = q / 100 % 10
  thousands : d3 = q / 1000
  tens_zero : d1 = 0 ↔ q / 10 = 0
  hundreds_zero : d2 = 0 ∧ a = 0 ↔ q / 100 = 0
  small : d0 ≤ 1000 ∧ d1 ≤ 1000 ∧ d2 ≤ 68 ∧ d3 ≤ 1000

theorem recombined {q a b c r d0 d1 d2 d3 : Nat} (hq : q = 4096 * a + 256 * b + 16 * c + r)
    (ha : a ≤ 24) (hb : b < 16) (hc : c < 16) (hr : r < 16) (h0 : d0 = 6 * (a + b + c) + r)
    (h1 : d1 = d0 / 10 + 9 * a + 5 * b + c) (h2 : d2 = d1 / 10 + 2 * b)
    (h3 : d3 = d2 / 10 + 4 * a) : Recombined q a d0 d1 d2 d3 := by
  have hones : q = d0 + 10 * (409 * a + 25 * b + c) := by omega
  have htens : q / 10 = d1 + 10 * (40 * a + 2 * b) := by
    rw [hones]
    omega
  have hhundreds : q / 100 = d2 + 10 * (4 * a) := by
    have hdiv : q / 100 = q / 10 / 10 := (Nat.div_div_eq_div_mul q 10 10).symm
    rw [hdiv, htens]
    omega
  have hthousands : q / 1000 = d3 := by
    have hdiv : q / 1000 = q / 100 / 10 := (Nat.div_div_eq_div_mul q 100 10).symm
    rw [hdiv, hhundreds]
    omega
  exact
    { ones := by rw [hones, Nat.add_mul_mod_self_left]
      tens := by rw [htens, Nat.add_mul_mod_self_left]
      hundreds := by rw [hhundreds, Nat.add_mul_mod_self_left]
      thousands := hthousands.symm
      tens_zero := by
        rw [htens]
        omega
      hundreds_zero := by
        rw [hhundreds]
        omega
      small := by omega }

theorem sub_div_ten (n : Nat) : n - 10 * (n / 10) = n % 10 := by omega

theorem putDecFull_eq {q : Nat} (h : q < 100000) :
    putDecFull q = [q % 10, q / 10 % 10, q / 100 % 10, q / 1000 % 10, q / 1000 / 10].map digit := by
  have hq : q = 4096 * (q / 4096) + 256 * (q / 256 % 16) + 16 * (q / 16 % 16) + q % 16 := by omega
  obtain ⟨d0, h0⟩ : ∃ d, d = 6 * (q / 4096 + q / 256 % 16 + q / 16 % 16) + q % 16 := ⟨_, rfl⟩
  obtain ⟨d1, h1⟩ : ∃ d, d = d0 / 10 + 9 * (q / 4096) + 5 * (q / 256 % 16) + q / 16 % 16 := ⟨_, rfl⟩
  obtain ⟨d2, h2⟩ : ∃ d, d = d1 / 10 + 2 * (q / 256 % 16) := ⟨_, rfl⟩
  obtain ⟨d3, h3⟩ : ∃ d, d = d2 / 10 + 4 * (q / 4096) := ⟨_, rfl⟩
  have hrec := recombined hq (by omega) (by omega) (by omega) (by omega) h0 h1 h2 h3
  obtain ⟨hs0, hs1, hs2, -⟩ := hrec.small
  have hs3 : q / 1000 ≤ 1000 := by omega
  simp only [putDecFull, ← h0, div_ten hs0, ← h1, div_ten hs1, ← h2, div_ten_short hs2, ← h3,
    div_ten hs3, sub_div_ten, hrec.ones, hrec.tens, hrec.hundreds, hrec.thousands]
  rfl

/-- The digits of a small number, without leading zeros. -/
theorem putDecTrunc_eq {q : Nat} (h : q < 100000) :
    putDecTrunc q = (numeral 10 q).reverse.map digit := by
  have hq : q = 4096 * (q / 4096) + 256 * (q / 256 % 16) + 16 * (q / 16 % 16) + q % 16 := by omega
  obtain ⟨d0, h0⟩ : ∃ d, d = 6 * (q / 4096 + q / 256 % 16 + q / 16 % 16) + q % 16 := ⟨_, rfl⟩
  obtain ⟨d1, h1⟩ : ∃ d, d = d0 / 10 + 9 * (q / 4096) + 5 * (q / 256 % 16) + q / 16 % 16 := ⟨_, rfl⟩
  obtain ⟨d2, h2⟩ : ∃ d, d = d1 / 10 + 2 * (q / 256 % 16) := ⟨_, rfl⟩
  obtain ⟨d3, h3⟩ : ∃ d, d = d2 / 10 + 4 * (q / 4096) := ⟨_, rfl⟩
  have hrec := recombined hq (by omega) (by omega) (by omega) (by omega) h0 h1 h2 h3
  obtain ⟨hs0, hs1, hs2, -⟩ := hrec.small
  have hs3 : q / 1000 ≤ 1000 := by omega
  have h100 : q / 10 / 10 = q / 100 := Nat.div_div_eq_div_mul q 10 10
  have h1000 : q / 100 / 10 = q / 1000 := Nat.div_div_eq_div_mul q 100 10
  have hlast : q / 1000 / 10 < 10 := by omega
  simp only [putDecTrunc, ← h0, div_ten hs0, ← h1, div_ten hs1, ← h2, div_ten_short hs2, ← h3,
    div_ten hs3, sub_div_ten, hrec.ones, hrec.tens, hrec.hundreds, hrec.thousands, hrec.tens_zero,
    hrec.hundreds_zero]
  rw [reverse_numeral q, reverse_numeral (q / 10), h100, reverse_numeral (q / 100), h1000,
    reverse_numeral (q / 1000), numeral_of_lt hlast]
  split_ifs <;> rfl

/-- A digit behind a number. -/
theorem reverse_numeral_append {m d : Nat} (hm : 0 < m) (hd : d < 10) :
    (numeral 10 (10 * m + d)).reverse = d :: (numeral 10 m).reverse := by
  have hmod : (10 * m + d) % 10 = d := by omega
  have hdiv : (10 * m + d) / 10 = m := by omega
  rw [reverse_numeral, hmod, hdiv, if_neg (Nat.ne_of_gt hm)]

/-- The digits of a number of 32 bits. -/
theorem putDec_eq {num : Nat} (h : num < 4294967296) :
    putDec 2 num = (numeral 10 num).reverse.map digit := by
  rw [putDec]
  split_ifs with hsmall
  · exact putDecTrunc_eq hsmall
  · obtain ⟨high, hhigh⟩ : ∃ high, num / 100000 = high := ⟨_, rfl⟩
    obtain ⟨low, hlow⟩ : ∃ low, num % 100000 = low := ⟨_, rfl⟩
    have hlt : low < 100000 := by omega
    have hhigh' : high < 100000 := by omega
    have hnum : num = 10 * (10 * (10 * (10 * (10 * high + low / 1000 / 10) + low / 1000 % 10) +
        low / 100 % 10) + low / 10 % 10) + low % 10 := by omega
    rw [hhigh, hlow, putDecFull_eq hlt, putDec, if_pos hhigh', putDecTrunc_eq hhigh', hnum,
      reverse_numeral_append (by omega) (by omega), reverse_numeral_append (by omega) (by omega),
      reverse_numeral_append (by omega) (by omega), reverse_numeral_append (by omega) (by omega),
      reverse_numeral_append (by omega) (by omega)]
    rfl

/-- `%u` of any number. -/
theorem number_unsigned (value : UInt32) :
    number value 10 (-1) (-1) {} = (numeral 10 value.toNat).map digit := by
  have htmp : tmpDigits value 10 false = (numeral 10 value.toNat).reverse.map digit := by
    unfold tmpDigits
    by_cases hzero : value = 0
    · rw [if_pos hzero, hzero]
      rfl
    · rw [if_neg hzero, if_neg (not_not.mpr rfl)]
      exact putDec_eq value.toNat_lt
  have hlen : ∀ n : Nat, max (-1 : Int) n = n := fun n => by omega
  simp only [number, signOf, htmp, hlen, Bool.false_eq_true, false_and, if_false, Bool.not_false,
    if_true, List.length_nil, Int.sub_self, List.append_nil]
  rw [List.map_reverse, List.reverse_reverse]
  have hspaces : ∀ n : Nat, spaces (-1 - (0 : Nat) - (0 : Nat) - (n : Int)) = [] := by
    intro n
    have hneg : (-1 - (0 : Nat) - (0 : Nat) - (n : Int)).toNat = 0 := by omega
    rw [spaces, hneg]
    rfl
  rw [hspaces]
  rfl

end Full

end PpPrintf
end WrpcSw
