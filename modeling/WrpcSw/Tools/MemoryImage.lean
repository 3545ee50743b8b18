import WrpcSw.Lib.Lexer
import WrpcSw.Tools.Genram

/-!
# Reading memory images back

The formats that the generators print: the writes of a simulation, a memory initialization file,
and a VHDL package with an array.  Each is read into the memory that it describes.

* `readInit`, `readMif`, `readVhd` — the readers.
* `tabulate_numbered` — a table of consecutive words is a memory.
* `initEntries_lines`, `mifEntries_lines` — the lines of consecutive words are read back.
* `memoryOf_flatten` — the memory that has an image, word by word.
-/

namespace WrpcSw
namespace Tools

open Lexer Numeral
open PpPrintf (ascii)

/-! ## The readers -/

/-- A memory: the number of bits of a word, and the words. -/
structure Memory where
  width : Nat
  words : List Nat
deriving DecidableEq

/-- The memory of `depth` words that a table gives.  The table has each address once. -/
def tabulate (width depth : Nat) (entries : List (Nat × Nat)) : Option Memory :=
  if (entries.map Prod.fst).Perm (List.range depth) ∧ ∀ e ∈ entries, e.2 < 2 ^ width then
    some ⟨width, (List.range depth).map fun i => (entries.lookup i).getD 0⟩
  else none

/-- The characters of words and numbers. -/
def letter (c : UInt8) : Bool :=
  c = 95 ∨ (48 ≤ c ∧ c ≤ 57) ∨ (65 ≤ c ∧ c ≤ 90) ∨ (97 ≤ c ∧ c ≤ 122)

def tokens (text : List UInt8) : List (Token UInt8) := lex isspace letter text

def skip (text : String) (ts : List (Token UInt8)) : Option (List (Token UInt8)) :=
  expect isspace letter (ascii text) ts

def readNumber (base : Nat) (w : List UInt8) : Option Nat :=
  if w ≠ [] ∧ w.all (isDigit base) then some (horner base 0 (w.filterMap digitValue)) else none

def number (base : Nat) : List (Token UInt8) → Option (Nat × List (Token UInt8))
  | .word w :: ts => (readNumber base w).map fun n => (n, ts)
  | _ => none

def skipName : List (Token UInt8) → Option (List (Token UInt8))
  | .word _ :: ts => some ts
  | _ => none

/-- `write ADDRESS DATA`, with data of 32 bits. -/
def initEntries : List (Token UInt8) → Option (List (Nat × Nat))
  | [] => some []
  | .word command :: .word address :: .word data :: ts =>
      if command = ascii "write" ∧ data.length = 8 then do
        let a ← readNumber 16 address
        let d ← readNumber 16 data
        let es ← initEntries ts
        some ((a, d) :: es)
      else none
  | _ => none

/-- A memory has the words that are written. -/
def readInit (text : List UInt8) : Option Memory := do
  let es ← initEntries (tokens text)
  tabulate 32 es.length es

/-- `ADDRESS : DATA;` up to `END;`. -/
def mifEntries : List (Token UInt8) → Option (List (Nat × Nat))
  | [.word last, .symbol c] => if last = ascii "END" ∧ c = 59 then some [] else none
  | .word address :: .symbol c :: .word data :: .symbol c' :: ts =>
      if c = 58 ∧ c' = 59 then do
        let a ← readNumber 16 address
        let d ← readNumber 16 data
        let es ← mifEntries ts
        some ((a, d) :: es)
      else none
  | _ => none

/-- A memory initialization file with hexadecimal addresses and data. -/
def readMif (text : List UInt8) : Option Memory := do
  let ts ← skip "DEPTH =" (tokens text)
  let (depth, ts) ← number 10 ts
  let ts ← skip "; WIDTH =" ts
  let (width, ts) ← number 10 ts
  let ts ← skip "; ADDRESS_RADIX = HEX; DATA_RADIX = HEX; CONTENT BEGIN" ts
  let es ← mifEntries ts
  tabulate width depth es

/-- A comment starts with two dashes and ends with its line. -/
def stripComments : Bool → List UInt8 → List UInt8
  | _, [] => []
  | true, c :: text => if c = 10 then c :: stripComments false text else stripComments true text
  | false, c :: text =>
      if c = 45 ∧ text.head? = some 45 then stripComments true text
      else c :: stripComments false text

/-- `POSITION => x"DATA"` with commas between, up to `);`.  The data have `width` bits. -/
def vhdEntries (width : Nat) : List (Token UInt8) → Option (List (Nat × Nat))
  | .word position :: .symbol c₁ :: .symbol c₂ :: .word base :: .symbol q₁ :: .word data ::
      .symbol q₂ :: .symbol c₃ :: ts =>
      if c₁ = 61 ∧ c₂ = 62 ∧ base = ascii "x" ∧ q₁ = 34 ∧ q₂ = 34 ∧ 4 * data.length = width then do
        let p ← readNumber 10 position
        let d ← readNumber 16 data
        if c₃ = 44 then
          let es ← vhdEntries width ts
          some ((p, d) :: es)
        else if c₃ = 41 ∧ ts.head? = some (.symbol 59) then some [(p, d)]
        else none
      else none
  | _ => none

/-- A VHDL package with the array of a memory. -/
def readVhd (text : List UInt8) : Option Memory := do
  let ts := (tokens (stripComments false text)).dropWhile (· ≠ .word (ascii "package"))
  let ts ← skip "package" ts
  let ts ← skipName ts
  let ts ← skip "is constant" ts
  let ts ← skipName ts
  let ts ← skip ": t_meminit_array(" ts
  let (high, ts) ← number 10 ts
  let ts ← skip "downto 0," ts
  let (top, ts) ← number 10 ts
  let ts ← skip "downto 0) := (" ts
  let es ← vhdEntries (top + 1) ts
  tabulate (top + 1) (high + 1) es

/-! ## Words -/

/-- The word that bytes are, the most significant one first. -/
def wordOf (bytes : List UInt8) : Nat := horner 256 0 (bytes.map UInt8.toNat)

/-- The memory of `n` words that has an image, and zeros behind it. -/
def memoryOf (image : List UInt8) (n : Nat) : Memory :=
  ⟨32, (List.range n).map fun i =>
    if i < image.length / 4 then wordOf ((image.drop (4 * i)).take 4) else 0⟩

/-- The words of a table, from the address `i` on. -/
def numbered (i : Nat) : List (List UInt8) → List (Nat × Nat)
  | [] => []
  | w :: ws => (i, wordOf w) :: numbered (i + 1) ws

theorem map_fst_numbered (i : Nat) (ws : List (List UInt8)) :
    (numbered i ws).map Prod.fst = List.range' i ws.length := by
  induction ws generalizing i with
  | nil => rfl
  | cons w ws ih => rw [numbered, List.map_cons, ih, List.length_cons, List.range'_succ]

theorem map_snd_numbered (i : Nat) (ws : List (List UInt8)) :
    (numbered i ws).map Prod.snd = ws.map wordOf := by
  induction ws generalizing i with
  | nil => rfl
  | cons w ws ih => rw [numbered, List.map_cons, ih, List.map_cons]

theorem length_numbered (i : Nat) (ws : List (List UInt8)) :
    (numbered i ws).length = ws.length := by
  rw [← List.length_map Prod.fst, map_fst_numbered, List.length_range']

theorem wordOf_lt (bytes : List UInt8) : wordOf bytes < 256 ^ bytes.length := by
  have hdigits : ∀ d ∈ (bytes.map UInt8.toNat).reverse, d < 256 := by
    intro d hd
    obtain ⟨b, -, rfl⟩ := List.mem_map.mp (List.mem_reverse.mp hd)
    exact b.toNat_lt
  have hlt := Nat.ofDigits_lt_base_pow_length (by decide) hdigits
  rw [List.length_reverse, List.length_map] at hlt
  rw [wordOf, horner_eq_ofDigits]
  exact hlt

theorem lookup_numbered (ws : List (List UInt8)) (i : Nat) :
    (List.range' i ws.length).map (fun j => ((numbered i ws).lookup j).getD 0) =
      ws.map wordOf := by
  induction ws generalizing i with
  | nil => rfl
  | cons w ws ih =>
      rw [List.length_cons, List.range'_succ, List.map_cons, List.map_cons, numbered,
        List.lookup_cons_self, ← ih (i + 1)]
      congr 1
      apply List.map_congr_left
      intro j hj
      have hne : j ≠ i := by
        have hle := (List.mem_range'_1.mp hj).1
        omega
      rw [List.lookup_cons, beq_false_of_ne hne]

/-- A table of consecutive words is a memory. -/
theorem tabulate_numbered {ws : List (List UInt8)} (hws : ∀ w ∈ ws, w.length = 4) :
    tabulate 32 ws.length (numbered 0 ws) = some ⟨32, ws.map wordOf⟩ := by
  have haddresses : ((numbered 0 ws).map Prod.fst).Perm (List.range ws.length) := by
    rw [map_fst_numbered, List.range_eq_range']
  have hwords : ∀ e ∈ numbered 0 ws, e.2 < 2 ^ 32 := by
    intro e he
    have hmem : e.2 ∈ ws.map wordOf := map_snd_numbered 0 ws ▸ List.mem_map_of_mem he
    obtain ⟨w, hw, hword⟩ := List.mem_map.mp hmem
    have hlt := wordOf_lt w
    rw [hws w hw] at hlt
    rw [← hword]
    exact hlt
  rw [tabulate, if_pos ⟨haddresses, hwords⟩, List.range_eq_range', lookup_numbered]

theorem tabulate_depth {width depth : Nat} {es : List (Nat × Nat)} {m : Memory}
    (h : tabulate width depth es = some m) : m.words.length = depth := by
  unfold tabulate at h
  split_ifs at h
  · obtain rfl := Option.some.inj h
    rw [List.length_map, List.length_range]

theorem tabulate_length {width depth : Nat} {es : List (Nat × Nat)} {m : Memory}
    (h : tabulate width depth es = some m) : es.length = depth := by
  unfold tabulate at h
  split_ifs at h with htable
  · have hlen := htable.1.length_eq
    rw [List.length_map, List.length_range] at hlen
    exact hlen

/-- An image of whole words. -/
theorem exists_words {image : List UInt8} {k : Nat} (h : image.length = 4 * k) :
    ∃ ws : List (List UInt8), image = ws.flatten ∧ ws.length = k ∧ ∀ w ∈ ws, w.length = 4 := by
  induction k generalizing image with
  | zero => exact ⟨[], List.length_eq_zero_iff.mp h, rfl, nofun⟩
  | succ k ih =>
      have hdrop : (image.drop 4).length = 4 * k := by
        rw [List.length_drop]
        omega
      obtain ⟨ws, hrest, hlen, hws⟩ := ih hdrop
      refine ⟨image.take 4 :: ws, ?_, congrArg (· + 1) hlen, ?_⟩
      · rw [List.flatten_cons, ← hrest, List.take_append_drop]
      · refine List.forall_mem_cons.mpr ⟨?_, hws⟩
        rw [List.length_take]
        omega

section Words

variable {ws : List (List UInt8)} (hws : ∀ w ∈ ws, w.length = 4)

include hws

theorem length_flatten_words : ws.flatten.length = 4 * ws.length := by
  induction ws with
  | nil => rfl
  | cons w ws ih =>
      have hw := hws w List.mem_cons_self
      rw [List.flatten_cons, List.length_append, hw,
        ih fun v hv => hws v (List.mem_cons_of_mem w hv), List.length_cons]
      omega

theorem map_words :
    (List.range ws.length).map (fun i => wordOf ((ws.flatten.drop (4 * i)).take 4)) =
      ws.map wordOf := by
  induction ws with
  | nil => rfl
  | cons w ws ih =>
      have hw := hws w List.mem_cons_self
      have hrest := ih fun v hv => hws v (List.mem_cons_of_mem w hv)
      rw [List.length_cons, List.range_succ_eq_map, List.map_cons, List.map_map, List.map_cons,
        ← hrest]
      refine congrArg₂ List.cons ?_ (List.map_congr_left fun i _ => ?_)
      · rw [List.flatten_cons, Nat.mul_zero, List.drop_zero, ← hw, List.take_left]
      · have hskip : 4 * (i + 1) = w.length + 4 * i := by omega
        rw [Function.comp_apply, List.flatten_cons, hskip, List.drop_length_add_append]

/-- The memory that has an image: its words, and then zeros. -/
theorem memoryOf_flatten {n : Nat} (hn : ws.length ≤ n) :
    memoryOf ws.flatten n =
      ⟨32, ws.map wordOf ++ List.replicate (n - ws.length) 0⟩ := by
  obtain ⟨m, rfl⟩ := Nat.exists_eq_add_of_le hn
  have hlen : ws.flatten.length / 4 = ws.length := by
    rw [length_flatten_words hws]
    omega
  have himage : (List.range ws.length).map (fun i => if i < ws.length then
      wordOf ((ws.flatten.drop (4 * i)).take 4) else 0) = ws.map wordOf := by
    rw [← map_words hws]
    exact List.map_congr_left fun i hi => if_pos (List.mem_range.mp hi)
  have hzeros : (List.range m).map (fun i => if ws.length + i < ws.length then
      wordOf ((ws.flatten.drop (4 * (ws.length + i))).take 4) else 0) = List.replicate m 0 := by
    refine (List.map_congr_left fun i _ => if_neg (by omega)).trans ?_
    rw [List.map_const', List.length_range]
  rw [memoryOf, hlen, List.range_add, List.map_append, List.map_map, himage,
    Nat.add_sub_cancel_left]
  exact congrArg (fun zeros => Memory.mk 32 (ws.map wordOf ++ zeros)) hzeros

end Words

/-! ## Numbers in a text -/

theorem letter_of_isDigit {base : Nat} {c : UInt8} (h : isDigit base c = true) :
    letter c = true := by
  unfold isDigit digitValue at h
  split_ifs at h with hdecimal hupper hlower
  · exact decide_eq_true (Or.inr (Or.inl hdecimal))
  · exact decide_eq_true (Or.inr (Or.inr (Or.inl hupper)))
  · exact decide_eq_true (Or.inr (Or.inr (Or.inr hlower)))
  · exact absurd h nofun

theorem readNumber_digits {base : Nat} (hbase : IsBase base) (upper : Bool) (n : Nat) :
    readNumber base (digits upper base n) = some n := by
  have hread : digits upper base n ≠ [] ∧ (digits upper base n).all (isDigit base) :=
    ⟨digits_ne_nil upper n, List.all_eq_true.mpr fun c hc => isDigit_of_mem hbase hc⟩
  rw [readNumber, if_pos hread, filterMap_digits hbase, horner_numeral]

/-- The digits of a word. -/
def hexWord (upper : Bool) (bytes : List UInt8) : List UInt8 :=
  bytes.flatMap fun b => [digitChar upper (b.toNat / 16), digitChar upper (b.toNat % 16)]

theorem isDigit_digitChar (upper : Bool) {d : Nat} (h : d < 16) :
    isDigit 16 (digitChar upper d) = true := by
  rw [isDigit, digitValue_digitChar upper h]
  exact decide_eq_true h

theorem isDigit_of_mem_hexWord {upper : Bool} {bytes : List UInt8} {c : UInt8}
    (h : c ∈ hexWord upper bytes) : isDigit 16 c = true := by
  obtain ⟨b, -, hc⟩ := List.mem_flatMap.mp h
  have hlt := b.toNat_lt
  rcases List.mem_cons.mp hc with rfl | hc
  · exact isDigit_digitChar upper (by omega)
  · obtain rfl := List.mem_singleton.mp hc
    exact isDigit_digitChar upper (by omega)

theorem length_hexWord (upper : Bool) (bytes : List UInt8) :
    (hexWord upper bytes).length = 2 * bytes.length := by
  induction bytes with
  | nil => rfl
  | cons b bytes ih =>
      rw [hexWord, List.flatMap_cons, List.length_append, ← hexWord, ih, List.length_cons]
      exact Nat.add_comm _ _

theorem horner_hexWord (upper : Bool) (v : Nat) (bytes : List UInt8) :
    horner 16 v ((hexWord upper bytes).filterMap digitValue) =
      horner 256 v (bytes.map UInt8.toNat) := by
  induction bytes generalizing v with
  | nil => rfl
  | cons b bytes ih =>
      have hlt := b.toNat_lt
      have hhigh : digitValue (digitChar upper (b.toNat / 16)) = some (b.toNat / 16) :=
        digitValue_digitChar upper (by omega)
      have hlow : digitValue (digitChar upper (b.toNat % 16)) = some (b.toNat % 16) :=
        digitValue_digitChar upper (by omega)
      have hbyte : 16 * (16 * v + b.toNat / 16) + b.toNat % 16 = 256 * v + b.toNat := by omega
      show horner 16 v ((digitChar upper (b.toNat / 16) :: digitChar upper (b.toNat % 16) ::
        hexWord upper bytes).filterMap digitValue) = horner 256 (256 * v + b.toNat) _
      rw [List.filterMap_cons, hhigh, List.filterMap_cons, hlow, ← hbyte]
      exact ih _

theorem readNumber_hexWord (upper : Bool) {bytes : List UInt8} (hne : bytes ≠ []) :
    readNumber 16 (hexWord upper bytes) = some (wordOf bytes) := by
  have hread : hexWord upper bytes ≠ [] ∧ (hexWord upper bytes).all (isDigit 16) := by
    refine ⟨fun hnil => hne ?_, List.all_eq_true.mpr fun c hc => isDigit_of_mem_hexWord hc⟩
    have hlen := length_hexWord upper bytes
    rw [hnil, List.length_nil] at hlen
    exact List.length_eq_zero_iff.mp (by omega)
  rw [readNumber, if_pos hread, horner_hexWord, wordOf]

theorem number_word {base n : Nat} {w : List UInt8} (h : readNumber base w = some n)
    (ts : List (Token UInt8)) : number base (.word w :: ts) = some (n, ts) := by
  rw [number, h]
  rfl

theorem skip_tokens (text : String) (ts : List (Token UInt8)) :
    skip text (tokens (ascii text) ++ ts) = some ts := expect_append (ascii text) ts

/-! ## Lines -/

theorem tokens_text {text : List UInt8} (h : text.getLast?.any letter = false)
    (l : List UInt8) : tokens (text ++ l) = tokens text ++ tokens l := lex_append h l

theorem stops_text {text : List UInt8} (hne : text ≠ []) (h : text.head?.any letter = false)
    (l : List UInt8) : Stops letter (text ++ l) := by
  obtain ⟨c, text, rfl⟩ := List.exists_cons_of_ne_nil hne
  have hc : letter c = false := h
  exact stops_cons hc (text ++ l)

theorem tokens_digits {base : Nat} (hbase : IsBase base) (upper : Bool) (n : Nat)
    {l : List UInt8} (hl : Stops letter l) :
    tokens (digits upper base n ++ l) = .word (digits upper base n) :: tokens l :=
  lex_word (digits_ne_nil upper n)
    (fun _ hc => letter_of_isDigit (isDigit_of_mem hbase hc)) hl

theorem tokens_hexWord (upper : Bool) {w : List UInt8} (hw : w.length = 4) {l : List UInt8}
    (hl : Stops letter l) :
    tokens (hexWord upper w ++ l) = .word (hexWord upper w) :: tokens l := by
  refine lex_word (fun hnil => ?_) (fun c hc => letter_of_isDigit (isDigit_of_mem_hexWord hc)) hl
  have hlen := length_hexWord upper w
  rw [hnil, hw] at hlen
  exact absurd hlen (by decide)

/-- What a program prints of consecutive words. -/
def lines (line : Int → List UInt8 → List UInt8) (i : Nat) : List (List UInt8) → List UInt8
  | [] => []
  | w :: ws => line i w ++ lines line (i + 1) ws

theorem lines_append (line : Int → List UInt8 → List UInt8) (i : Nat)
    (ws vs : List (List UInt8)) :
    lines line i (ws ++ vs) = lines line i ws ++ lines line (i + ws.length) vs := by
  induction ws generalizing i with
  | nil => rfl
  | cons w ws ih =>
      rw [List.cons_append, lines, ih, lines, List.append_assoc, List.length_cons,
        Nat.add_right_comm, Nat.add_assoc]

section Line

variable {i : Nat} (hi : i < 2 ^ 32) {w : List UInt8} (hw : w.length = 4)

theorem exists_four (hw : w.length = 4) : ∃ a b c d, w = [a, b, c, d] := by
  obtain ⟨a, w, rfl⟩ := List.exists_of_length_succ w hw
  obtain ⟨b, c, d, rfl⟩ := List.length_eq_three.mp (Nat.succ.inj hw)
  exact ⟨a, b, c, d, rfl⟩

include hi hw

theorem initLine_eq :
    initLine i w =
      ascii "write " ++ (digits false 16 i ++ (ascii " " ++ (hexWord true w ++ ascii "\n"))) := by
  obtain ⟨a, b, c, d, rfl⟩ := exists_four hw
  have hline : initLine i [a, b, c, d] =
      ascii "write " ++ (hexadecimal false {} i ++ (ascii " " ++
        (hexadecimal true { zero := true, width := 2 } a.toNat ++
          (hexadecimal true { zero := true, width := 2 } b.toNat ++
            (hexadecimal true { zero := true, width := 2 } c.toNat ++
              (hexadecimal true { zero := true, width := 2 } d.toNat ++ ascii "\n")))))) := rfl
  rw [hline, hexadecimal_natCast false hi, hexadecimal_byte, hexadecimal_byte, hexadecimal_byte,
    hexadecimal_byte]
  rfl

theorem tokens_initLine (l : List UInt8) :
    tokens (initLine i w ++ l) =
      .word (ascii "write") :: .word (digits false 16 i) :: .word (hexWord true w) ::
        tokens l := by
  have hspace : Stops letter (ascii " " ++ (hexWord true w ++ (ascii "\n" ++ l))) :=
    stops_text (by decide) (by decide) _
  have hend : Stops letter (ascii "\n" ++ l) := stops_text (by decide) (by decide) _
  rw [initLine_eq hi hw]
  simp only [List.append_assoc]
  rw [tokens_text (by decide), tokens_digits isBase_sixteen _ _ hspace,
    tokens_text (by decide), tokens_hexWord true hw hend, tokens_text (by decide)]
  rfl

theorem mifLine_eq :
    mifLine i w =
      digits false 16 i ++ (ascii " : " ++ (hexWord true w ++ ascii ";\n")) := by
  obtain ⟨a, b, c, d, rfl⟩ := exists_four hw
  have hline : mifLine i [a, b, c, d] =
      hexadecimal false {} i ++ (ascii " : " ++
        (hexadecimal true { zero := true, width := 2 } a.toNat ++
          (hexadecimal true { zero := true, width := 2 } b.toNat ++
            (hexadecimal true { zero := true, width := 2 } c.toNat ++
              (hexadecimal true { zero := true, width := 2 } d.toNat ++ ascii ";\n"))))) := rfl
  rw [hline, hexadecimal_natCast false hi, hexadecimal_byte, hexadecimal_byte, hexadecimal_byte,
    hexadecimal_byte]
  rfl

theorem tokens_mifLine (l : List UInt8) :
    tokens (mifLine i w ++ l) =
      .word (digits false 16 i) :: .symbol 58 :: .word (hexWord true w) :: .symbol 59 ::
        tokens l := by
  have hcolon : Stops letter (ascii " : " ++ (hexWord true w ++ (ascii ";\n" ++ l))) :=
    stops_text (by decide) (by decide) _
  have hend : Stops letter (ascii ";\n" ++ l) := stops_text (by decide) (by decide) _
  rw [mifLine_eq hi hw]
  simp only [List.append_assoc]
  rw [tokens_digits isBase_sixteen _ _ hcolon, tokens_text (by decide),
    tokens_hexWord true hw hend, tokens_text (by decide)]
  rfl

end Line

/-! ## Tables of consecutive words -/

theorem ne_nil_of_length {w : List UInt8} (hw : w.length = 4) : w ≠ [] := by
  rintro rfl
  exact absurd hw (by decide)

theorem initEntries_lines {ws : List (List UInt8)} (hws : ∀ w ∈ ws, w.length = 4) {i : Nat}
    (hi : i + ws.length ≤ 2 ^ 32) :
    initEntries (tokens (lines initLine i ws)) = some (numbered i ws) := by
  induction ws generalizing i with
  | nil => rfl
  | cons w ws ih =>
      rw [List.length_cons] at hi
      have hw : w.length = 4 := hws w List.mem_cons_self
      have hform : ascii "write" = ascii "write" ∧ (hexWord true w).length = 8 := by
        rw [length_hexWord, hw]
        exact ⟨rfl, rfl⟩
      rw [lines, tokens_initLine (by omega) hw, initEntries, if_pos hform,
        readNumber_digits isBase_sixteen,
        readNumber_hexWord true (ne_nil_of_length hw),
        ih (fun v hv => hws v (List.mem_cons_of_mem w hv)) (by omega)]
      rfl

theorem mifEntries_lines {ws : List (List UInt8)} (hws : ∀ w ∈ ws, w.length = 4) {i : Nat}
    (hi : i + ws.length ≤ 2 ^ 32) :
    mifEntries (tokens (lines mifLine i ws ++ ascii "END;\n")) = some (numbered i ws) := by
  induction ws generalizing i with
  | nil => rfl
  | cons w ws ih =>
      rw [List.length_cons] at hi
      have hw : w.length = 4 := hws w List.mem_cons_self
      have hform : (58 : UInt8) = 58 ∧ (59 : UInt8) = 59 := ⟨rfl, rfl⟩
      rw [lines, List.append_assoc, tokens_mifLine (by omega) hw, mifEntries, if_pos hform,
        readNumber_digits isBase_sixteen,
        readNumber_hexWord true (ne_nil_of_length hw),
        ih (fun v hv => hws v (List.mem_cons_of_mem w hv)) (by omega)]
      rfl

end Tools
end WrpcSw
