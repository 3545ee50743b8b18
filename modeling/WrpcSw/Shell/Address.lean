import WrpcSw.Lib.CInt
import WrpcSw.Shell.Exec

/-!
# Addresses in the shell (`shell/shell.c`, `shell/cmd_mac.c`, `shell/cmd_ip.c`)

The commands `mac` and `ip` print an address and read one.  `fromhex` and `fromdec` read a number
up to the first character that is no digit; the two decoders read a number for each byte of the
address and pass over one separator behind it.

* `readNumber_text` — the digits of a number are read back, whatever stands behind them.
* `decodeGroups_intercalate` — numbers with separators between them are read back.
* `address_roundTrip` — both commands, and both kinds of numbers.
-/

namespace WrpcSw
namespace Shell

open Numeral PpPrintf CInt

variable {σ : Type*}

/-! ## The code -/

/-- The value of a character that `fromdec` accepts. -/
def decValue (c : UInt8) : Option Nat := if 48 ≤ c ∧ c ≤ 57 then some (c.toNat - 48) else none

/-- The value of a character that `fromhex` accepts. -/
def hexValue (c : UInt8) : Option Nat :=
  if 48 ≤ c ∧ c ≤ 57 then some (c.toNat - 48)
  else if 65 ≤ c ∧ c ≤ 70 then some (c.toNat - 65 + 10)
  else if 97 ≤ c ∧ c ≤ 102 then some (c.toNat - 97 + 10)
  else none

/-- The loop of `fromhex` and `fromdec`: `o`, an `int`, is multiplied by the base and the value of
the character is added.  The result is `o` and the text that was not read. -/
def readNumber (base : Nat) (value : UInt8 → Option Nat) (o : Int) : List UInt8 → Int × List UInt8
  | [] => (o, [])
  | c :: text =>
      match value c with
      | some d => readNumber base value (i32 (o * base + d)) text
      | none => (o, c :: text)

def fromhex (hex : List UInt8) : Int × List UInt8 := readNumber 16 hexValue 0 hex

def fromdec (dec : List UInt8) : Int × List UInt8 := readNumber 10 decValue 0 dec

/-- The loop of `decode_mac` and `decode_ip` for `n` bytes. -/
def decodeGroups (number : List UInt8 → Int × List UInt8) (separator : UInt8) :
    Nat → List UInt8 → List UInt8
  | 0, _ => []
  | n + 1, str =>
      let (x, str) := number str
      let str := if str.head? = some separator then str.tail else str
      UInt8.ofInt x :: decodeGroups number separator n str

def decodeMac (str : List UInt8) : List UInt8 := decodeGroups fromhex 58 6 str

def decodeIp (str : List UInt8) : List UInt8 := decodeGroups fromdec 46 4 str

/-- An address of `n` bytes, of which the decoder wrote the list `bs`. -/
def toVector (n : Nat) (bs : List UInt8) : Vector UInt8 n := Vector.ofFn fun i => bs.getD i 0

/-- The functions that `cmd_mac` calls. -/
structure MacCalls (σ : Type*) where
  getMacAddr : σ → Vector UInt8 6
  setMacAddr : Vector UInt8 6 → σ → σ
  getPersistentMac : Vector UInt8 6 → σ → Vector UInt8 6 × σ
  setPersistentMac : Vector UInt8 6 → σ → σ
  pfilterInitDefault : σ → σ

/-- The functions that `cmd_ip` calls, and the variable `needIP`. -/
structure IpCalls (σ : Type*) where
  getIP : σ → Vector UInt8 4
  setIP : Vector UInt8 4 → σ → σ
  needIP : σ → Bool

def byteArg (b : UInt8) : Arg := .int b.toUInt32

def macLine (mac : Vector UInt8 6) : List UInt8 :=
  Xint.vsprintf (ascii "MAC-address: %02x:%02x:%02x:%02x:%02x:%02x\n")
    [byteArg (mac.get 0), byteArg (mac.get 1), byteArg (mac.get 2), byteArg (mac.get 3),
      byteArg (mac.get 4), byteArg (mac.get 5)]

def ipLine (ip : Vector UInt8 4) : List UInt8 :=
  Xint.vsprintf (ascii "IP-address: %d.%d.%d.%d\n")
    [byteArg ip[0], byteArg ip[1], byteArg ip[2], byteArg ip[3]]

/-- Whether an argument is the word, in any case. -/
def isWord (word : String) (arg : List UInt8) : Bool := strcasecmp arg (ascii word) = 0

/-- `cmd_mac`: what it returns, the state after it and what it prints. -/
def cmdMac (calls : MacCalls σ) (args : List (List UInt8)) (t : σ) : Int × σ × List UInt8 :=
  match args with
  | [] => (0, t, macLine (calls.getMacAddr t))
  | arg :: args =>
      if isWord "get" arg then (0, t, macLine (calls.getMacAddr t))
      else if isWord "getp" arg then
        let (mac, t) := calls.getPersistentMac (calls.getMacAddr t) t
        (0, t, macLine mac)
      else
        match args with
        | [] => (-EINVAL, t, [])
        | str :: _ =>
            let mac := toVector 6 (decodeMac str)
            if isWord "set" arg then
              (0, calls.pfilterInitDefault (calls.setMacAddr mac t), macLine mac)
            else if isWord "setp" arg then (0, calls.setPersistentMac mac t, macLine mac)
            else (-EINVAL, t, [])

/-- What `cmd_ip` prints at its end. -/
def ipReport (calls : IpCalls σ) (ip : Vector UInt8 4) (t : σ) : List UInt8 :=
  if calls.needIP t then ascii "IP-address: in training\n" else ipLine ip

/-- `cmd_ip`: what it returns, the state after it and what it prints. -/
def cmdIp (calls : IpCalls σ) (args : List (List UInt8)) (t : σ) : Int × σ × List UInt8 :=
  match args with
  | [] => (0, t, ipReport calls (calls.getIP t) t)
  | arg :: args =>
      if isWord "get" arg then (0, t, ipReport calls (calls.getIP t) t)
      else
        match args with
        | [] => (-EINVAL, t, [])
        | str :: _ =>
            if isWord "set" arg then
              let ip := toVector 4 (decodeIp str)
              (0, calls.setIP ip t, ipReport calls ip (calls.setIP ip t))
            else (-EINVAL, t, [])

/-! ## Numbers -/

section Number

variable {base : Nat} {value : UInt8 → Option Nat}

/-- Characters that are all digits, with their values. -/
def Reads (value : UInt8 → Option Nat) (text : List UInt8) (ds : List Nat) : Prop :=
  text.map value = ds.map some

/-- The digits are read from the left, as long as the number is in the range of an `int`. -/
theorem readNumber_append (hbase : 0 < base) {text : List UInt8} {ds : List Nat}
    (htext : Reads value text ds) {o : Nat} (hrange : horner base o ds < 2147483648)
    (rest : List UInt8) :
    readNumber base value o (text ++ rest) = readNumber base value (horner base o ds) rest := by
  induction text generalizing ds o with
  | nil =>
      obtain rfl : ds = [] := List.map_eq_nil_iff.mp htext.symm
      rfl
  | cons c text ih =>
      cases ds with
      | nil => exact absurd htext nofun
      | cons d ds =>
          obtain ⟨hvalue, htext⟩ := List.cons.inj htext
          have hfirst : base * o + d ≤ horner base o (d :: ds) :=
            horner_prefix_le hbase o [d] ds
          have hwrap : i32 ((o : Int) * base + d) = (base * o + d : Nat) := by
            have hcast : (o : Int) * base + d = (base * o + d : Nat) := by
              push_cast
              ring
            rw [hcast]
            exact i32_eq_self ⟨by omega, by omega⟩
          rw [List.cons_append, readNumber, hvalue]
          show readNumber base value (i32 ((o : Int) * base + d)) (text ++ rest) = _
          rw [hwrap]
          exact ih htext hrange

/-- The number stops at a character that is no digit, and at the end of the text. -/
theorem readNumber_stop (o : Int) {rest : List UInt8}
    (hrest : ∀ c, rest.head? = some c → value c = none) :
    readNumber base value o rest = (o, rest) := by
  cases rest with
  | nil => rfl
  | cons c rest => rw [readNumber, hrest c rfl]

/-- The digits of a number are read back. -/
theorem readNumber_text (hbase : 0 < base) {v : Nat} (hv : v < 2147483648) {text : List UInt8}
    {ds : List Nat} (htext : Reads value text ds) (hds : horner base 0 ds = v)
    {rest : List UInt8} (hrest : ∀ c, rest.head? = some c → value c = none) :
    readNumber base value 0 (text ++ rest) = ((v : Int), rest) := by
  have hread := readNumber_append hbase (o := 0) htext (by rw [hds]; exact hv) rest
  rw [hds] at hread
  exact hread.trans (readNumber_stop v hrest)

end Number

/-! ## Printed digits -/

def toupper (c : UInt8) : UInt8 := if 97 ≤ c ∧ c ≤ 122 then c - 32 else c

/-- Characters that are the digits of a list, one by one. -/
theorem reads_map {value : UInt8 → Option Nat} {digit : Nat → UInt8} {ds : List Nat}
    (h : ∀ d ∈ ds, value (digit d) = some d) : Reads value (ds.map digit) ds := by
  unfold Reads
  rw [List.map_map]
  exact List.map_congr_left h

theorem hexValue_hexDigit {d : Nat} (h : d < 16) :
    hexValue (Xint.hexDigit d) = some d ∧ hexValue (toupper (Xint.hexDigit d)) = some d := by
  have hall : ∀ e : Fin 16, hexValue (Xint.hexDigit e) = some e.val ∧
      hexValue (toupper (Xint.hexDigit e)) = some e.val := by decide
  exact hall ⟨d, h⟩

theorem decValue_hexDigit {d : Nat} (h : d < 10) : decValue (Xint.hexDigit d) = some d := by
  have hall : ∀ e : Fin 10, decValue (Xint.hexDigit e) = some e.val := by decide
  exact hall ⟨d, h⟩

theorem reads_hex (v : Nat) : Reads hexValue (Xint.digitText 16 v) (numeral 16 v) :=
  reads_map fun _ hd => (hexValue_hexDigit (lt_of_mem_numeral (by omega) hd)).1

theorem hexValue_tolower (c : UInt8) : hexValue (tolower c) = hexValue c := by
  by_cases hupper : 65 ≤ c ∧ c ≤ 90
  · have hle : ∀ a b : UInt8, a ≤ b ↔ a.toNat ≤ b.toNat := fun _ _ => UInt8.le_iff_toNat_le
    have hlower : tolower c = c + 32 := if_pos hupper
    obtain ⟨hlow, hhigh⟩ := hupper
    rw [hle, show (65 : UInt8).toNat = 65 from rfl] at hlow
    rw [hle, show (90 : UInt8).toNat = 90 from rfl] at hhigh
    have hadd : (c + 32).toNat = c.toNat + 32 := by
      rw [UInt8.toNat_add, show (32 : UInt8).toNat = 32 from rfl]
      omega
    have hdigit : ¬ (48 ≤ c ∧ c ≤ 57) := by
      rw [hle, hle, show (57 : UInt8).toNat = 57 from rfl]
      omega
    have hdigit' : ¬ (48 ≤ c + 32 ∧ c + 32 ≤ 57) := by
      rw [hle, hle, hadd, show (57 : UInt8).toNat = 57 from rfl]
      omega
    have hcapital' : ¬ (65 ≤ c + 32 ∧ c + 32 ≤ 70) := by
      rw [hle, hle, hadd, show (70 : UInt8).toNat = 70 from rfl]
      omega
    have hsmall : ¬ (97 ≤ c ∧ c ≤ 102) := by
      rw [hle, hle, show (97 : UInt8).toNat = 97 from rfl]
      omega
    have hsame : (97 ≤ c + 32 ∧ c + 32 ≤ 102) ↔ (65 ≤ c ∧ c ≤ 70) := by
      rw [hle, hle, hle, hle, hadd, show (102 : UInt8).toNat = 102 from rfl,
        show (97 : UInt8).toNat = 97 from rfl, show (70 : UInt8).toNat = 70 from rfl,
        show (65 : UInt8).toNat = 65 from rfl]
      omega
    rw [hlower, hexValue, hexValue, if_neg hdigit, if_neg hdigit', if_neg hcapital', if_neg hsmall]
    refine if_congr hsame ?_ rfl
    rw [hadd, Nat.add_sub_add_right c.toNat 32 65]
  · rw [tolower, if_neg hupper]

/-- The digits in small or capital letters. -/
theorem reads_hex_of_tolower {text : List UInt8} {v : Nat}
    (h : text.map tolower = Xint.digitText 16 v) : Reads hexValue text (numeral 16 v) := by
  have hlower := reads_hex v
  unfold Reads at hlower ⊢
  rw [← hlower, ← h, List.map_map]
  exact List.map_congr_left fun c _ => (hexValue_tolower c).symm

theorem reads_dec (v : Nat) : Reads decValue (Xint.digitText 10 v) (numeral 10 v) :=
  reads_map fun _ hd => decValue_hexDigit (lt_of_mem_numeral (by omega) hd)

/-! ## Groups -/

/-- Numbers with a separator between them are read back. -/
theorem decodeGroups_intercalate (number : List UInt8 → Int × List UInt8) (separator : UInt8)
    (group : UInt8 → List UInt8)
    (hgroup : ∀ b rest, (∀ c, rest.head? = some c → c = separator) →
      number (group b ++ rest) = ((b.toNat : Int), rest)) (bs : List UInt8) :
    decodeGroups number separator bs.length ([separator].intercalate (bs.map group)) = bs := by
  have hbyte : ∀ b : UInt8, UInt8.ofInt (b.toNat : Int) = b := by
    intro b
    have hlt := b.toNat_lt
    have hmod : ((b.toNat : Int) % 2 ^ 8).toNat = b.toNat := by omega
    rw [UInt8.ofInt, hmod]
    exact UInt8.ofNat_toNat
  induction bs with
  | nil => rfl
  | cons b bs ih =>
      cases bs with
      | nil =>
          have hnumber := hgroup b [] nofun
          rw [List.append_nil] at hnumber
          show decodeGroups number separator 1 ([separator].intercalate [group b]) = [b]
          rw [List.intercalate_singleton, decodeGroups, hnumber]
          exact congrArg (· :: []) (hbyte b)
      | cons b' bs =>
          have hnumber := hgroup b (separator :: [separator].intercalate ((b' :: bs).map group))
            fun c hc => (Option.some.inj hc).symm
          have htext : [separator].intercalate ((b :: b' :: bs).map group) =
              group b ++ separator :: [separator].intercalate ((b' :: bs).map group) := by
            rw [List.map_cons, List.map_cons, List.intercalate_cons_cons, List.append_assoc]
            rfl
          rw [htext, List.length_cons, decodeGroups, hnumber]
          show UInt8.ofInt (b.toNat : Int) :: decodeGroups number separator (bs.length + 1)
            (if some separator = some separator then
              [separator].intercalate ((b' :: bs).map group) else _) = _
          rw [if_pos rfl, hbyte]
          exact congrArg (b :: ·) ih

/-- The two digits of a byte. -/
def hexByte (b : UInt8) : List UInt8 :=
  [Xint.hexDigit (b.toNat / 16), Xint.hexDigit (b.toNat % 16)]

def decByte (b : UInt8) : List UInt8 := Xint.digitText 10 b.toNat

theorem number_hexByte (b : UInt8) : Xint.number b.toUInt32 16 48 2 = hexByte b := by
  have hlt := b.toNat_lt
  have hnat : b.toUInt32.toNat = b.toNat := UInt8.toNat_toUInt32 b
  rw [Xint.number_of_nonneg (by omega) (fun h => absurd h (by omega)), hnat, Xint.digitText]
  by_cases hone : b.toNat < 16
  · have hzero : b.toNat / 16 = 0 := by omega
    rw [numeral_of_lt hone, hexByte, hzero, Nat.mod_eq_of_lt hone]
    rfl
  · have hquotient : b.toNat / 16 < 16 := by omega
    rw [numeral_step (by omega) (Nat.le_of_not_lt hone), numeral_of_lt hquotient]
    rfl

theorem number_decByte (b : UInt8) : Xint.number b.toUInt32 10 32 1 = decByte b := by
  have hlt := b.toNat_lt
  have hnat : b.toUInt32.toNat = b.toNat := UInt8.toNat_toUInt32 b
  rw [Xint.number_decimal (by omega), hnat, decByte]

/-- Both digits are read back, and so are their capital letters. -/
theorem fromhex_hexByte (b : UInt8) {rest : List UInt8}
    (hrest : ∀ c, rest.head? = some c → hexValue c = none) :
    fromhex (hexByte b ++ rest) = ((b.toNat : Int), rest) ∧
      fromhex ((hexByte b).map toupper ++ rest) = ((b.toNat : Int), rest) := by
  have hlt := b.toNat_lt
  obtain ⟨hhigh, hhigh'⟩ := hexValue_hexDigit (show b.toNat / 16 < 16 by omega)
  obtain ⟨hlow, hlow'⟩ := hexValue_hexDigit (show b.toNat % 16 < 16 by omega)
  have hhorner : horner 16 0 [b.toNat / 16, b.toNat % 16] = b.toNat := by
    show 16 * (16 * 0 + b.toNat / 16) + b.toNat % 16 = b.toNat
    omega
  have hreads : Reads hexValue (hexByte b) [b.toNat / 16, b.toNat % 16] := by
    simp only [Reads, hexByte, List.map_cons, List.map_nil, hhigh, hlow]
  have hreads' : Reads hexValue ((hexByte b).map toupper) [b.toNat / 16, b.toNat % 16] := by
    simp only [Reads, hexByte, List.map_cons, List.map_nil, hhigh', hlow']
  exact ⟨readNumber_text (by omega) (by omega) hreads hhorner hrest,
    readNumber_text (by omega) (by omega) hreads' hhorner hrest⟩

theorem fromdec_decByte (b : UInt8) {rest : List UInt8}
    (hrest : ∀ c, rest.head? = some c → decValue c = none) :
    fromdec (decByte b ++ rest) = ((b.toNat : Int), rest) := by
  have hlt := b.toNat_lt
  exact readNumber_text (by omega) (by omega) (reads_dec b.toNat) (horner_numeral b.toNat) hrest

/-- The address that `cmd_mac` prints. -/
def macText (mac : Vector UInt8 6) : List UInt8 := [58].intercalate (mac.toList.map hexByte)

/-- The address that `cmd_ip` prints. -/
def ipText (ip : Vector UInt8 4) : List UInt8 := [46].intercalate (ip.toList.map decByte)

theorem toList_six (mac : Vector UInt8 6) :
    mac.toList = [mac.get 0, mac.get 1, mac.get 2, mac.get 3, mac.get 4, mac.get 5] := by
  apply List.ext_getElem (by simp)
  intro i hi hi'
  match i, hi' with
  | 0, _ | 1, _ | 2, _ | 3, _ | 4, _ | 5, _ => rfl

theorem toList_four (ip : Vector UInt8 4) : ip.toList = [ip[0], ip[1], ip[2], ip[3]] := by
  apply List.ext_getElem (by simp)
  intro i hi hi'
  match i, hi' with
  | 0, _ | 1, _ | 2, _ | 3, _ => rfl

theorem macLine_eq (mac : Vector UInt8 6) :
    macLine mac = ascii "MAC-address: " ++ macText mac ++ ascii "\n" := by
  have hcolon : (37 : UInt8) ∉ ascii ":" := by decide
  have hend : (37 : UInt8) ∉ ascii "\n" := by decide
  have hformat : ascii "MAC-address: %02x:%02x:%02x:%02x:%02x:%02x\n" =
      ascii "MAC-address: " ++ (ascii "%02x" ++ (ascii ":" ++ (ascii "%02x" ++ (ascii ":" ++
        (ascii "%02x" ++ (ascii ":" ++ (ascii "%02x" ++ (ascii ":" ++ (ascii "%02x" ++
          (ascii ":" ++ (ascii "%02x" ++ (ascii "\n" ++ [])))))))))))) := by decide
  rw [macText, toList_six, macLine, hformat, Xint.vsprintf, Xint.format_text (by decide)]
  simp only [byteArg, Xint.format_hex2, number_hexByte, Xint.format_text hcolon, Xint.format_text hend,
    Xint.format, List.map_cons, List.map_nil, List.intercalate_cons_cons,
    List.intercalate_singleton, List.append_assoc]
  rfl

theorem ipLine_eq (ip : Vector UInt8 4) :
    ipLine ip = ascii "IP-address: " ++ ipText ip ++ ascii "\n" := by
  have hdot : (37 : UInt8) ∉ ascii "." := by decide
  have hend : (37 : UInt8) ∉ ascii "\n" := by decide
  have hformat : ascii "IP-address: %d.%d.%d.%d\n" =
      ascii "IP-address: " ++ (ascii "%d" ++ (ascii "." ++ (ascii "%d" ++ (ascii "." ++
        (ascii "%d" ++ (ascii "." ++ (ascii "%d" ++ (ascii "\n" ++ [])))))))) := by decide
  rw [ipText, toList_four, ipLine, hformat, Xint.vsprintf, Xint.format_text (by decide)]
  simp only [byteArg, Xint.format_decimal, number_decByte, Xint.format_text hdot, Xint.format_text hend,
    Xint.format, List.map_cons, List.map_nil, List.intercalate_cons_cons,
    List.intercalate_singleton, List.append_assoc]
  rfl

theorem map_intercalate (f : UInt8 → UInt8) (separator : UInt8) (ls : List (List UInt8)) :
    ([separator].intercalate ls).map f = [f separator].intercalate (ls.map (List.map f)) := by
  induction ls with
  | nil => rfl
  | cons l ls ih =>
      cases ls with
      | nil => simp only [List.map_cons, List.map_nil, List.intercalate_singleton]
      | cons l' ls =>
          rw [List.map_cons] at ih
          rw [List.map_cons, List.map_cons, List.intercalate_cons_cons, List.intercalate_cons_cons,
            List.map_append, List.map_append, ih]
          rfl

theorem decodeMac_macText (mac : Vector UInt8 6) :
    decodeMac (macText mac) = mac.toList ∧ decodeMac ((macText mac).map toupper) = mac.toList := by
  have hstop : ∀ rest : List UInt8, (∀ c, rest.head? = some c → c = 58) →
      ∀ c, rest.head? = some c → hexValue c = none := by
    intro rest hrest c hc
    rw [hrest c hc]
    rfl
  have hlen : mac.toList.length = 6 := Vector.length_toList
  constructor
  · have hgroups := decodeGroups_intercalate fromhex 58 hexByte
      (fun b rest hrest => (fromhex_hexByte b (hstop rest hrest)).1) mac.toList
    rwa [hlen] at hgroups
  · have hgroups := decodeGroups_intercalate fromhex 58 (fun b => (hexByte b).map toupper)
      (fun b rest hrest => (fromhex_hexByte b (hstop rest hrest)).2) mac.toList
    rw [hlen] at hgroups
    rw [macText, map_intercalate, List.map_map]
    exact hgroups

theorem decodeIp_ipText (ip : Vector UInt8 4) : decodeIp (ipText ip) = ip.toList := by
  have hstop : ∀ rest : List UInt8, (∀ c, rest.head? = some c → c = 46) →
      ∀ c, rest.head? = some c → decValue c = none := by
    intro rest hrest c hc
    rw [hrest c hc]
    rfl
  have hlen : ip.toList.length = 4 := Vector.length_toList
  have hgroups := decodeGroups_intercalate fromdec 46 decByte
    (fun b rest hrest => fromdec_decByte b (hstop rest hrest)) ip.toList
  rwa [hlen] at hgroups

/-- What the commands print of an address is read back, and so are the digits of a number that
stand before a character that is no digit. -/
theorem address_roundTrip :
    (∀ (calls : MacCalls σ) (t : σ), cmdMac calls [] t =
      (0, t, ascii "MAC-address: " ++ macText (calls.getMacAddr t) ++ ascii "\n")) ∧
    (∀ mac : Vector UInt8 6, decodeMac (macText mac) = mac.toList ∧
      decodeMac ((macText mac).map toupper) = mac.toList) ∧
    (∀ (calls : IpCalls σ) (t : σ), calls.needIP t = false → cmdIp calls [] t =
      (0, t, ascii "IP-address: " ++ ipText (calls.getIP t) ++ ascii "\n")) ∧
    (∀ ip : Vector UInt8 4, decodeIp (ipText ip) = ip.toList) ∧
    (∀ (v : Nat) (rest : List UInt8), v < 2147483648 →
      (∀ c, rest.head? = some c → decValue c = none) →
      fromdec (Xint.digitText 10 v ++ rest) = ((v : Int), rest)) ∧
    (∀ (v : Nat) (text rest : List UInt8), v < 2147483648 →
      text.map tolower = Xint.digitText 16 v → (∀ c, rest.head? = some c → hexValue c = none) →
      fromhex (text ++ rest) = ((v : Int), rest)) := by
  refine ⟨?_, decodeMac_macText, ?_, decodeIp_ipText, ?_, ?_⟩
  · intro calls t
    rw [cmdMac, macLine_eq]
  · intro calls t hip
    have hreport : ipReport calls (calls.getIP t) t = ipLine (calls.getIP t) := by
      rw [ipReport, hip]
      rfl
    rw [cmdIp, hreport, ipLine_eq]
  · intro v rest hv hrest
    exact readNumber_text (by omega) hv (reads_dec v) (horner_numeral v) hrest
  · intro v text rest hv htext hrest
    exact readNumber_text (by omega) hv (reads_hex_of_tolower htext) (horner_numeral v) hrest

theorem address_roundTrip_example :
    fromdec (ascii "42 ms") = (42, ascii " ms") ∧ fromhex (ascii "fF:00") = (255, ascii ":00") := by
  obtain ⟨-, -, -, -, hdec, hhex⟩ := @address_roundTrip Unit
  have htwo : Xint.digitText 10 42 = ascii "42" := by
    rw [Xint.digitText, numeral_step (by omega) (by omega), numeral_of_lt (by omega)]
    rfl
  have hff : (ascii "fF").map tolower = Xint.digitText 16 255 := by
    rw [Xint.digitText, numeral_step (by omega) (by omega), numeral_of_lt (by omega)]
    rfl
  have hdec42 := hdec 42 (ascii " ms") (by omega)
    (fun c hc => by rw [← Option.some.inj hc]; rfl)
  rw [htwo] at hdec42
  exact ⟨hdec42, hhex 255 (ascii "fF") (ascii ":00") (by omega) hff
    (fun c hc => by rw [← Option.some.inj hc]; rfl)⟩

end Shell
end WrpcSw
