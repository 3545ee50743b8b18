import WrpcSw.Tools.RamImages

/-!
# What `genramvhd` describes

`genramvhd` prints as many words as the file has, and zeros behind them.  Its output is a VHDL
package; what is read back of it is the memory of the image.

* `Table.loop_words` — what the loop over the table prints.
* `Table.vhdEntries_lines`, `readVhd_header` — the table and its bounds are read back.
* `readVhd_genramvhd` — the whole program.
-/

namespace WrpcSw
namespace Tools

open Lexer Numeral
open PpPrintf (ascii)

/-! ## The table -/

theorem ne_dash_of_letter {c : UInt8} (h : letter c = true) : c ≠ 45 := by
  rintro rfl
  exact absurd h (by decide)

namespace Table

variable {t : Table}

/-- The text of an entry with what stands around it. -/
def line (t : Table) (i : Int) (x : List UInt8) : List UInt8 :=
  t.indent i ++ (t.entry i x ++ t.ending i)

section Loop

variable (hwidth : t.width = 4) (hbig : t.bigendian = true)

include hwidth hbig

/-- An entry has the bytes at the start of the buffer. -/
theorem line_append (i : Int) {w : List UInt8} (hw : w.length = 4) (x : List UInt8) :
    t.line i (w ++ x) = t.line i w := by
  have hbytes : (List.range 4).flatMap (fun j => printf "%02x" [byteArg ((w ++ x).getD j 0)]) =
      (List.range 4).flatMap fun j => printf "%02x" [byteArg (w.getD j 0)] := by
    refine List.flatMap_congr fun j hj => ?_
    have hlt := List.mem_range.mp hj
    rw [List.getD_append _ _ _ _ (by omega)]
  unfold line entry
  dsimp only
  rw [hwidth, hbig, if_pos rfl, hbytes]

/-- An entry of the file. -/
theorem loop_file (m : Nat) {i : Int} (hi : i < t.elements) (x : List UInt8) {w : List UInt8}
    (hw : w.length = 4) (rest : List UInt8) :
    t.loop (m + 1) i x { rest := w ++ rest } =
      (t.line i w ++ (t.loop m (i + 1) (w ++ x.drop 4) { rest := rest }).1,
        (t.loop m (i + 1) (w ++ x.drop 4) { rest := rest }).2) := by
  have hread := fread_full x w rest
  rw [hw] at hread
  have hfull : ¬ (i < t.elements ∧ (fread x 4 { rest := w ++ rest }).2.1 ≠ 4) := by
    rw [hread]
    exact fun h => h.2 rfl
  rw [loop, hwidth, if_neg hfull, if_pos hi, if_pos hi, hread,
    ← line_append hwidth hbig i hw (x.drop 4), line, List.append_assoc, List.append_assoc]

/-- An entry behind the file. -/
theorem loop_behind (m : Nat) {i : Int} (hi : ¬ i < t.elements) (x : List UInt8) (f : File) :
    t.loop (m + 1) i x f =
      (t.line i zeroWord ++ (t.loop m (i + 1) (List.replicate 16 0) f).1,
        (t.loop m (i + 1) (List.replicate 16 0) f).2) := by
  have hzeros : List.replicate 16 (0 : UInt8) = zeroWord ++ List.replicate 12 0 := rfl
  rw [loop, if_neg fun h => hi h.1, if_neg hi, if_neg hi,
    ← line_append hwidth hbig i (w := zeroWord) rfl (List.replicate 12 0), ← hzeros, line,
    List.append_assoc, List.append_assoc]

theorem loop_zeros (z i : Nat) (hi : t.elements ≤ i) (x : List UInt8) (f : File) :
    t.loop z i x f = (lines t.line i (List.replicate z zeroWord), true) := by
  induction z generalizing i x with
  | zero => rfl
  | succ z ih =>
      have hrest := ih (i + 1) (by omega) (List.replicate 16 0)
      rw [Nat.cast_succ] at hrest
      rw [loop_behind hwidth hbig z (by omega), hrest]
      rfl

/-- The loop prints the words of the file, and zeros behind them. -/
theorem loop_words {us : List (List UInt8)} (hus : ∀ w ∈ us, w.length = 4) (z i : Nat)
    (hi : t.elements = i + us.length) (x : List UInt8) :
    t.loop (us.length + z) i x { rest := us.flatten } =
      (lines t.line i (us ++ List.replicate z zeroWord), true) := by
  induction us generalizing i x with
  | nil =>
      rw [List.length_nil, Nat.zero_add]
      rw [List.length_nil] at hi
      exact loop_zeros hwidth hbig z i (by omega) x _
  | cons w us ih =>
      rw [List.length_cons] at hi
      have hw := hus w List.mem_cons_self
      have hrest := ih (fun v hv => hus v (List.mem_cons_of_mem w hv)) (i + 1) (by omega)
        (w ++ x.drop 4)
      rw [Nat.cast_succ] at hrest
      rw [List.length_cons, Nat.add_right_comm, List.flatten_cons,
        loop_file hwidth hbig _ (by omega) x hw, hrest]
      rfl

end Loop

theorem eq_space_of_mem_indent {i : Int} {c : UInt8} (h : c ∈ t.indent i) : c = 32 := by
  unfold indent at h
  split_ifs at h
  · have hspaces : printf "    " [] = List.replicate 4 32 := rfl
    rw [hspaces] at h
    exact List.eq_of_mem_replicate h
  · exact absurd h List.not_mem_nil

/-- The last entry closes the table, and the others do not. -/
theorem ending_cases (t : Table) (i : Int) :
    (i + 1 = t.size ∧ t.ending i = ascii ");\n") ∨
      (i + 1 ≠ t.size ∧ (t.ending i = ascii ",\n" ∨ t.ending i = ascii ", ")) := by
  unfold ending
  split_ifs with hlast hcolumn
  · exact Or.inl ⟨hlast, rfl⟩
  · exact Or.inr ⟨hlast, Or.inl rfl⟩
  · exact Or.inr ⟨hlast, Or.inr rfl⟩

section Entry

variable (hwidth : t.width = 4) (hbig : t.bigendian = true) (i : Nat) {w : List UInt8}
  (hw : w.length = 4)

include hwidth hbig hw

theorem entry_eq :
    t.entry i w = List.replicate (t.iWidth - (digits false 10 i).length) 32 ++
      (digits false 10 i ++ (ascii " => x\"" ++ (hexWord false w ++ ascii "\""))) := by
  obtain ⟨a, b, c, d, rfl⟩ := exists_four hw
  have hposition : printf "%*ld => x\"" [.num t.iWidth, .num i] =
      signed { width := t.iWidth } i ++ ascii " => x\"" := rfl
  have hsigned : signed { width := t.iWidth } i =
      List.replicate (t.iWidth - (digits false 10 i).length) 32 ++ digits false 10 i :=
    if_neg (by omega)
  have hbyte : ∀ j, printf "%02x" [byteArg ([a, b, c, d].getD j 0)] =
      [digitChar false (([a, b, c, d].getD j 0).toNat / 16),
        digitChar false (([a, b, c, d].getD j 0).toNat % 16)] := by
    intro j
    rw [← hexadecimal_byte]
    exact List.append_nil _
  unfold entry
  rw [hwidth, hbig, hposition, hsigned]
  simp only [hbyte, List.append_assoc]
  rfl

theorem tokens_line (l : List UInt8) :
    tokens (t.line i w ++ l) =
      .word (digits false 10 i) :: .symbol 61 :: .symbol 62 :: .word (ascii "x") :: .symbol 34 ::
        .word (hexWord false w) :: .symbol 34 :: tokens (t.ending i ++ l) := by
  have hspaces : ∀ c ∈ t.indent i ++
      List.replicate (t.iWidth - (digits false 10 i).length) 32,
      letter c = false ∧ isspace c = true := by
    intro c hc
    obtain rfl : c = 32 := (List.mem_append.mp hc).elim eq_space_of_mem_indent
      List.eq_of_mem_replicate
    exact ⟨rfl, rfl⟩
  have harrow : tokens (ascii " => x\"") =
      [.symbol 61, .symbol 62, .word (ascii "x"), .symbol 34] := by decide
  have hstart : Stops letter (ascii " => x\"" ++ (hexWord false w ++ (ascii "\"" ++
      (t.ending i ++ l)))) := stops_text (by decide) (by decide) _
  have hend : Stops letter (ascii "\"" ++ (t.ending i ++ l)) :=
    stops_text (by decide) (by decide) _
  have htext : t.line i w ++ l =
      (t.indent i ++ List.replicate (t.iWidth - (digits false 10 i).length) 32) ++
        (digits false 10 i ++ (ascii " => x\"" ++ (hexWord false w ++ (ascii "\"" ++
          (t.ending i ++ l))))) := by
    rw [line, entry_eq hwidth hbig i hw]
    simp only [List.append_assoc]
  rw [htext, tokens, lex_blanks hspaces, ← tokens,
    tokens_digits isBase_ten false i hstart, tokens_text (by decide), harrow,
    tokens_hexWord false hw hend, tokens_text (by decide)]
  rfl

/-- There are no dashes in an entry. -/
theorem ne_dash_of_mem_line {c : UInt8} (h : c ∈ t.line i w) : c ≠ 45 := by
  rw [line, entry_eq hwidth hbig i hw] at h
  simp only [List.mem_append] at h
  rintro rfl
  rcases h with hindent | (hspaces | hposition | harrow | hdata | hquote) | hending
  · exact absurd (eq_space_of_mem_indent hindent) (by decide)
  · exact absurd (List.eq_of_mem_replicate hspaces) (by decide)
  · have hdigit := isDigit_of_mem isBase_ten hposition
    exact ne_dash_of_letter (letter_of_isDigit hdigit) rfl
  · exact absurd harrow (by decide)
  · exact ne_dash_of_letter (letter_of_isDigit (isDigit_of_mem_hexWord hdata)) rfl
  · exact absurd hquote (by decide)
  · rcases ending_cases t i with ⟨-, hlast⟩ | ⟨-, hnext | hnext⟩
    · rw [hlast] at hending
      exact absurd hending (by decide)
    · rw [hnext] at hending
      exact absurd hending (by decide)
    · rw [hnext] at hending
      exact absurd hending (by decide)

end Entry

section Lines

variable (hwidth : t.width = 4) (hbig : t.bigendian = true)

include hwidth hbig

theorem ne_dash_of_mem_lines {ws : List (List UInt8)} (hws : ∀ w ∈ ws, w.length = 4) {i : Nat}
    {c : UInt8} (h : c ∈ lines t.line i ws) : c ≠ 45 := by
  induction ws generalizing i with
  | nil => exact absurd h List.not_mem_nil
  | cons w ws ih =>
      rcases List.mem_append.mp h with h | h
      · exact ne_dash_of_mem_line hwidth hbig i (hws w List.mem_cons_self) h
      · exact ih (fun v hv => hws v (List.mem_cons_of_mem w hv)) h

/-- A table that is closed by its last entry is read back. -/
theorem vhdEntries_lines {ws : List (List UInt8)} (hne : ws ≠ [])
    (hws : ∀ w ∈ ws, w.length = 4) {i : Nat} (hsize : t.size = i + ws.length)
    (rest : List UInt8) :
    vhdEntries 32 (tokens (lines t.line i ws ++ rest)) = some (numbered i ws) := by
  induction ws generalizing i with
  | nil => exact absurd rfl hne
  | cons w ws ih =>
      rw [List.length_cons] at hsize
      have hw : w.length = 4 := hws w List.mem_cons_self
      have hform : (61 : UInt8) = 61 ∧ (62 : UInt8) = 62 ∧ ascii "x" = ascii "x" ∧
          (34 : UInt8) = 34 ∧ (34 : UInt8) = 34 ∧ 4 * (hexWord false w).length = 32 := by
        rw [length_hexWord, hw]
        exact ⟨rfl, rfl, rfl, rfl, rfl, rfl⟩
      have hposition : readNumber 10 (digits false 10 i) = some i :=
        readNumber_digits isBase_ten false i
      have hdata : readNumber 16 (hexWord false w) = some (wordOf w) :=
        readNumber_hexWord false (ne_nil_of_length hw)
      rw [lines, List.append_assoc, tokens_line hwidth hbig i hw]
      by_cases hlast : ws = []
      · subst hlast
        have hending : t.ending i = ascii ");\n" := by
          rcases ending_cases t i with ⟨-, hending⟩ | ⟨hmore, -⟩
          · exact hending
          · exact absurd hsize.symm hmore
        have hclose : tokens (ascii ");\n" ++ (lines t.line (i + 1) [] ++ rest)) =
            .symbol 41 :: .symbol 59 :: tokens rest := tokens_text (by decide) rest
        rw [hending, hclose, vhdEntries, if_pos hform, hposition, hdata]
        rfl
      · have hcomma : tokens (t.ending i ++ (lines t.line (i + 1) ws ++ rest)) =
            .symbol 44 :: tokens (lines t.line (i + 1) ws ++ rest) := by
          have hpos := List.length_pos_iff.mpr hlast
          rcases ending_cases t i with ⟨hsame, -⟩ | ⟨-, hending | hending⟩
          · omega
          · rw [hending]
            exact tokens_text (by decide) _
          · rw [hending]
            exact tokens_text (by decide) _
        have hrest := ih hlast (fun v hv => hws v (List.mem_cons_of_mem w hv)) (i := i + 1)
          (by omega)
        rw [hcomma, vhdEntries, if_pos hform, hposition, hdata, Option.bind_eq_bind,
          Option.bind_some, Option.bind_eq_bind, Option.bind_some, if_pos rfl, hrest]
        rfl

end Lines

end Table

/-! ## The package -/

theorem stripComments_comment {text : List UInt8} (h : 10 ∉ text) (rest : List UInt8) :
    stripComments true (text ++ 10 :: rest) = 10 :: stripComments false rest := by
  induction text with
  | nil => rfl
  | cons c text ih =>
      have hc : c ≠ 10 := fun hc => h (hc ▸ List.mem_cons_self)
      rw [List.cons_append, stripComments, if_neg hc,
        ih fun hmem => h (List.mem_cons_of_mem c hmem)]

theorem stripComments_eq {text : List UInt8} (h : ∀ c ∈ text, c ≠ 45) :
    stripComments false text = text := by
  induction text with
  | nil => rfl
  | cons c text ih =>
      have hc : ¬ (c = 45 ∧ text.head? = some 45) := fun hc => h c List.mem_cons_self hc.1
      rw [stripComments, if_neg hc, ih fun d hd => h d (List.mem_cons_of_mem c hd)]

/-- The comment at the start of the package is one line. -/
theorem stripComments_vhdComment {first : List UInt8} (hfirst : 10 ∉ first) {text : List UInt8}
    (htext : ∀ c ∈ text, c ≠ 45) :
    stripComments false (vhdComment first ++ text) = 10 :: text := by
  have hcomment : vhdComment first ++ text =
      45 :: (ascii "- AUTOGENERATED FILE (from genramvhd.c run on " ++ first ++ ascii ") --") ++
        10 :: text := by
    have hline : vhdComment first =
        45 :: (ascii "- AUTOGENERATED FILE (from genramvhd.c run on " ++
          (first ++ (ascii ") --" ++ [10]))) := rfl
    rw [hline]
    simp only [List.cons_append, List.append_assoc, List.nil_append]
  have hnewline : 10 ∉ ascii "- AUTOGENERATED FILE (from genramvhd.c run on " ++ first ++
      ascii ") --" := by
    simp only [List.mem_append, not_or]
    exact ⟨⟨by decide, hfirst⟩, by decide⟩
  rw [hcomment, List.cons_append]
  refine (if_pos ⟨rfl, rfl⟩).trans ?_
  rw [stripComments_comment hnewline, stripComments_eq htext]

theorem vhdHeader_eq (package : List UInt8) (size width : Int) :
    vhdHeader package size width =
      vhdContext ++ (ascii "package " ++ ((package ++ ascii "_pkg") ++ (ascii " is\n  constant " ++
        ((package ++ ascii "_init") ++ (ascii " : t_meminit_array(" ++ (signed {} (size - 1) ++
          (ascii " downto 0, " ++
            (signed {} (width * 8 - 1) ++ ascii " downto 0) := (\n")))))))) := by
  have hpackage : printf "package %s_pkg is\n" [.str package] =
      ascii "package " ++ (package ++ (ascii "_pkg" ++ ascii " is\n")) := rfl
  have hconstantIs : ascii " is\n  constant " = ascii " is\n" ++ ascii "  constant " := rfl
  have harray : ascii "_init : t_meminit_array(" =
      ascii "_init" ++ ascii " : t_meminit_array(" := rfl
  have hconstant : printf
      "  constant %s_init : t_meminit_array(%ld downto 0, %ld downto 0) := (\n"
      [.str package, .num (size - 1), .num (width * 8 - 1)] =
      ascii "  constant " ++ (package ++ (ascii "_init : t_meminit_array(" ++
        (signed {} (size - 1) ++ (ascii " downto 0, " ++
          (signed {} (width * 8 - 1) ++ (ascii " downto 0) := (\n" ++ [])))))) := by
    have hformat :
        ascii "  constant %s_init : t_meminit_array(%ld downto 0, %ld downto 0) := (\n" =
          ascii "  constant " ++ (ascii "%s" ++ (ascii "_init : t_meminit_array(" ++
            (ascii "%ld" ++ (ascii " downto 0, " ++ (ascii "%ld" ++
              (ascii " downto 0) := (\n" ++ [])))))) := rfl
    rw [printf, hformat, format_text (by decide), format_str, format_text (by decide), format_long,
      format_text (by decide), format_long, format_text (by decide)]
    rfl
  unfold vhdHeader
  rw [hpackage, hconstant, hconstantIs, harray]
  simp only [List.append_assoc, List.append_nil]

section Package

variable {name : List UInt8} (hname : ∀ c ∈ name, letter c = true)

include hname

theorem tokens_name {suffix : List UInt8} (hne : suffix ≠ [])
    (hsuffix : suffix.all letter = true) {l : List UInt8} (hl : Stops letter l) :
    tokens ((name ++ suffix) ++ l) = .word (name ++ suffix) :: tokens l := by
  refine lex_word (fun hnil => hne (List.append_eq_nil_iff.mp hnil).2) (fun c hc => ?_) hl
  exact (List.mem_append.mp hc).elim (hname c) (List.all_eq_true.mp hsuffix c)

omit hname in
theorem signed_bounds (n : Nat) :
    signed {} (((n + 1 : Nat) : Int) - 1) = digits false 10 n ∧
      signed {} ((4 : Int) * 8 - 1) = digits false 10 31 := by
  rw [Nat.cast_succ, Int.add_sub_cancel]
  exact ⟨signed_natCast n, signed_natCast 31⟩

/-- The tokens of a header. -/
theorem tokens_vhdHeader (n : Nat) (body : List UInt8) :
    tokens (vhdHeader name ((n + 1 : Nat) : Int) 4 ++ body) =
      tokens vhdContext ++ (tokens (ascii "package") ++ (.word (name ++ ascii "_pkg") ::
        (tokens (ascii "is constant") ++ (.word (name ++ ascii "_init") ::
          (tokens (ascii ": t_meminit_array(") ++ (.word (digits false 10 n) ::
            (tokens (ascii "downto 0,") ++ (.word (digits false 10 31) ::
              (tokens (ascii "downto 0) := (") ++ tokens body))))))))) := by
  obtain ⟨hhigh, htop⟩ := signed_bounds n
  have hpackage : tokens (ascii "package ") = tokens (ascii "package") := by decide
  have his : tokens (ascii " is\n  constant ") = tokens (ascii "is constant") := by decide
  have harray : tokens (ascii " : t_meminit_array(") = tokens (ascii ": t_meminit_array(") := by
    decide
  have hdownto : tokens (ascii " downto 0, ") = tokens (ascii "downto 0,") := by decide
  have hopen : tokens (ascii " downto 0) := (\n") = tokens (ascii "downto 0) := (") := by decide
  rw [vhdHeader_eq, hhigh, htop]
  simp only [List.append_assoc]
  rw [tokens_text (by decide), tokens_text (by decide), hpackage,
    ← List.append_assoc name, tokens_name hname (by decide) (by decide)
      (stops_text (by decide) (by decide) _),
    tokens_text (by decide), his, ← List.append_assoc name,
    tokens_name hname (by decide) (by decide) (stops_text (by decide) (by decide) _),
    tokens_text (by decide), harray,
    tokens_digits isBase_ten false n (stops_text (by decide) (by decide) _),
    tokens_text (by decide), hdownto,
    tokens_digits isBase_ten false 31 (stops_text (by decide) (by decide) _),
    tokens_text (by decide), hopen]

theorem ne_dash_of_mem_vhdHeader (n : Nat) {c : UInt8}
    (h : c ∈ vhdHeader name ((n + 1 : Nat) : Int) 4) : c ≠ 45 := by
  obtain ⟨hhigh, htop⟩ := signed_bounds n
  have hletters : ∀ {d : UInt8}, d ∈ name → d ≠ 45 := fun hd => ne_dash_of_letter (hname _ hd)
  have hdigits : ∀ {k : Nat} {d : UInt8}, d ∈ digits false 10 k → d ≠ 45 := fun hd =>
    ne_dash_of_letter (letter_of_isDigit (isDigit_of_mem isBase_ten hd))
  rw [vhdHeader_eq, hhigh, htop] at h
  simp only [List.mem_append] at h
  rintro rfl
  rcases h with h | h | (h | h) | h | (h | h) | h | h | h | h | h
  · exact absurd h (by decide)
  · exact absurd h (by decide)
  · exact hletters h rfl
  · exact absurd h (by decide)
  · exact absurd h (by decide)
  · exact hletters h rfl
  · exact absurd h (by decide)
  · exact absurd h (by decide)
  · exact hdigits h rfl
  · exact absurd h (by decide)
  · exact hdigits h rfl
  · exact absurd h (by decide)

/-- The bounds of the array are read back, and its table. -/
theorem readVhd_header {first body : List UInt8} (hfirst : 10 ∉ first) {n : Nat} (hn : 1 ≤ n)
    (hbody : ∀ c ∈ body, c ≠ 45) :
    readVhd (vhdComment first ++ (vhdHeader name n 4 ++ body)) =
      (vhdEntries 32 (tokens body)).bind (tabulate 32 n) := by
  obtain ⟨m, rfl⟩ := Nat.exists_eq_add_of_le' hn
  have hdashes : ∀ c ∈ vhdHeader name ((m + 1 : Nat) : Int) 4 ++ body, c ≠ 45 := by
    intro c hc
    exact (List.mem_append.mp hc).elim (ne_dash_of_mem_vhdHeader hname m) (hbody c)
  have hblank : tokens (10 :: (vhdHeader name ((m + 1 : Nat) : Int) 4 ++ body)) =
      tokens (vhdHeader name ((m + 1 : Nat) : Int) 4 ++ body) := lex_blank rfl rfl _
  have hcontext : ∀ t ∈ tokens vhdContext, t ≠ .word (ascii "package") :=
    fun t ht h => absurd (h ▸ ht) (by decide)
  have hskip : ∀ ts : List (Token UInt8),
      (tokens (ascii "package") ++ ts).dropWhile (· ≠ .word (ascii "package")) =
        tokens (ascii "package") ++ ts := fun ts => rfl
  have hhigh : readNumber 10 (digits false 10 m) = some m :=
    readNumber_digits isBase_ten false m
  have htop : readNumber 10 (digits false 10 31) = some 31 :=
    readNumber_digits isBase_ten false 31
  unfold readVhd
  rw [stripComments_vhdComment hfirst hdashes, hblank, tokens_vhdHeader hname,
    List.dropWhile_append_of_pos (fun t ht => decide_eq_true (hcontext t ht)), hskip]
  simp only [skip_tokens, skipName, number_word hhigh, number_word htop, Option.bind_eq_bind,
    Option.bind_some]

end Package

/-! ## The program -/

/-- The characters of a package name. -/
theorem letter_of_packageName {program filename name : List UInt8} {package : Option (List UInt8)}
    (h : packageName program filename package = .ok name) : ∀ c ∈ name, letter c = true := by
  have hletter : ∀ c, myIsok c = true → letter c = true := by
    intro c hok
    unfold myIsok myIsalpha at hok
    unfold letter
    simp only [decide_eq_true_eq] at hok ⊢
    tauto
  cases package with
  | none =>
      unfold packageName at h
      dsimp only at h
      split_ifs at h
      · obtain rfl := Except.ok.inj h
        intro c hc
        obtain ⟨d, -, rfl⟩ := List.mem_map.mp hc
        split_ifs with hok
        · exact hletter d hok
        · rfl
  | some package =>
      unfold packageName at h
      dsimp only at h
      split_ifs at h with hbad
      · obtain rfl := Except.ok.inj h
        obtain ⟨hhead, htail⟩ := not_or.mp hbad
        cases package with
        | nil => exact absurd rfl hhead
        | cons c package =>
            have hc : myIsalpha c = true := by simpa using hhead
            have hrest : ∀ d ∈ package, myIsok d = true := by simpa using htail
            refine List.forall_mem_cons.mpr ⟨hletter c ?_, fun d hd => hletter d (hrest d hd)⟩
            exact decide_eq_true (Or.inr (Or.inl hc))

/-- The number of digits of a size that is not too large. -/
theorem widthLoop_some (fuel : Nat) {i size : Int} (h : size < i * 10 ^ fuel) (w : Nat) :
    ∃ v, widthLoop (fuel + 1) i size w = some v ∧ v ≤ w + fuel := by
  induction fuel generalizing i w with
  | zero => exact ⟨w, if_neg (by omega), Nat.le_refl w⟩
  | succ fuel ih =>
      by_cases hle : i ≤ size
      · obtain ⟨v, hv, hbound⟩ := ih (i := i * 10) (by rw [Int.mul_assoc, ← Int.pow_succ']; exact h) (w + 1)
        exact ⟨v, (if_pos hle).trans hv, by omega⟩
      · exact ⟨w, if_neg hle, Nat.le_add_right _ _⟩

/-- `genramvhd -w 4 -s SIZE FILE` for a memory of `n` words, with `-p PACKAGE` or without it. -/
def vhdCommand (program file : List UInt8) (package : Option (List UInt8)) (n : Nat) :
    CommandLine :=
  { program := program
    first := ascii "-w"
    opts := .w (ascii "4") :: .s (decimal (4 * n)) :: (package.map .p).toList
    operands := [file] }

theorem ne_dash_of_mem_end {name : List UInt8} (hname : ∀ c ∈ name, letter c = true) {c : UInt8}
    (h : c ∈ printf "end %s_pkg;\n" [.str name]) : c ≠ 45 := by
  have hend : printf "end %s_pkg;\n" [.str name] = ascii "end " ++ (name ++ ascii "_pkg;\n") := rfl
  rw [hend] at h
  simp only [List.mem_append] at h
  rintro rfl
  rcases h with h | h | h
  · exact absurd h (by decide)
  · exact ne_dash_of_letter (hname _ h) rfl
  · exact absurd h (by decide)

section Vhd

variable {program file name : List UInt8} {package : Option (List UInt8)} {n : Nat}

theorem getOptions_vhdCommand (hpos : 1 ≤ n) (hn : 4 * n < 2 ^ 63) :
    getOptions program {} (vhdCommand program file package n).opts =
      ({ package := package, size := ((4 * n : Nat) : Int) }, false) := by
  have hwidth : strtol (ascii "4") 0 = (4, []) := by decide
  have hlong : clampLong ((4 * n : Nat) : Int) = ((4 * n : Nat) : Int) := by
    unfold clampLong
    omega
  have hsize : strtol (decimal (4 * n)) 0 = (((4 * n : Nat) : Int), []) := by
    rw [decimal, strtol_decimal (Or.inr ⟨rfl, by omega⟩), hlong]
  have hoptions : getOptions program { size := ((4 * n : Nat) : Int) } (package.map .p).toList =
      ({ package := package, size := ((4 * n : Nat) : Int) }, false) := by
    cases package with
    | none => rfl
    | some package => rfl
  have hw : applyOpt program {} (.w (ascii "4")) = {} := by
    rw [applyOpt, hwidth]
    rfl
  have hs : applyOpt program {} (.s (decimal (4 * n))) = { size := ((4 * n : Nat) : Int) } := by
    rw [applyOpt, hsize]
    rfl
  show getOptions program (applyOpt program (applyOpt program {} (.w (ascii "4")))
    (.s (decimal (4 * n)))) (package.map .p).toList = _
  rw [hw, hs, hoptions]

theorem countWords_eq {s : Settings} {k : Nat} (hwidth : s.width = 4)
    (hsize : s.size = ((4 * n : Nat) : Int)) (hn : k ≤ n) :
    countWords program file s ((4 * k : Nat) : Int) = .ok ((k : Int), (n : Int)) := by
  have hgiven : ¬ s.size = -1 := by omega
  have hroom : ¬ ((4 * n : Nat) : Int) < ((4 * k : Nat) : Int) := by omega
  have hwhole : ∀ m : Nat, ¬ ((4 * m : Nat) : Int).tmod 4 ≠ 0 := by
    intro m
    rw [Nat.cast_mul, not_not]
    exact Int.mul_tmod_right _ _
  have hquotient : ∀ m : Nat, ((4 * m : Nat) : Int).tdiv 4 = m := by
    intro m
    rw [Nat.cast_mul]
    exact Int.mul_tdiv_cancel_left _ (by decide)
  unfold countWords
  dsimp only
  rw [if_neg hgiven, hsize, if_neg hroom, hwidth, if_neg (by decide), if_neg (hwhole k),
    if_neg (hwhole n), hquotient, hquotient]

variable {host : Host} {ws : List (List UInt8)} (hws : ∀ w ∈ ws, w.length = 4)

include hws

/-- The output of `genramvhd`: the words of the file, and zeros up to the size of the memory. -/
theorem printPackage_eq (host : Host) (x : Vector UInt8 16) (first name : List UInt8) {s : Settings}
    (hwidth : s.width = 4) (hbig : s.bigendian = true) (hlen : ws.length ≤ n)
    (hn : n < 10 ^ 18) :
    ∃ (t : Table) (o : Outcome), printPackage host x first name ws.flatten s ws.length n = some o ∧
      t.width = 4 ∧ t.bigendian = true ∧ t.size = n ∧
      o.stdout = vhdComment first ++ (vhdHeader name n 4 ++
        (lines t.line 0 (ws ++ List.replicate (n - ws.length) zeroWord) ++
          printf "end %s_pkg;\n" [.str name])) := by
  obtain ⟨iWidth, hdigits, hbound⟩ := widthLoop_some 17 (show (n : Int) < 10 * 10 ^ 17 by omega) 1
  have hentry : ¬ (s.entryWidth iWidth = 0 ∨ (0 < (n : Int) ∧ 16 < s.width)) := by
    unfold Settings.entryWidth
    omega
  have hcount : (n : Int).toNat = ws.length + (n - ws.length) := by omega
  have htext : (s.table iWidth ws.length n).width = 4 := by
    show s.width.toNat = 4
    rw [hwidth]
    rfl
  have hloop := (s.table iWidth ws.length n).loop_words htext hbig hws (n - ws.length) 0
    (by rw [Nat.cast_zero, Int.zero_add]; rfl) x.toList
  rw [← hcount] at hloop
  refine ⟨s.table iWidth ws.length n,
    { status := 0, stdout := _, stderr := s.stderr }, ?_, htext, hbig, rfl, rfl⟩
  rw [printPackage, hdigits]
  dsimp only
  rw [if_neg hentry, ← Nat.cast_zero, hloop, hwidth, if_pos rfl]
  simp only [List.append_assoc]

/-- The options, the sizes and the name are in order. -/
theorem genramvhd_eq (hfile : host.fopen file = some ws.flatten)
    (hname : packageName program file package = .ok name) (x : Vector UInt8 16)
    (hpos : 0 < ws.length) (hlen : ws.length ≤ n) (hn : n < 10 ^ 18) :
    genramvhd host x (vhdCommand program file package n) =
      printPackage host x (ascii "-w") name ws.flatten
        { package := package, size := ((4 * n : Nat) : Int) } ws.length n := by
  have hoptions : getOptions (vhdCommand program file package n).program {}
      (vhdCommand program file package n).opts =
      ({ package := package, size := ((4 * n : Nat) : Int) }, false) :=
    getOptions_vhdCommand (by omega) (by omega)
  have hoperands : (vhdCommand program file package n).operands = [file] := rfl
  unfold genramvhd
  rw [hoptions]
  dsimp only
  rw [if_neg Bool.false_ne_true, hoperands]
  dsimp only
  rw [hfile]
  dsimp only
  rw [length_flatten_words hws, countWords_eq rfl rfl hlen]
  dsimp only
  have hprogram : (vhdCommand program file package n).program = program := rfl
  rw [hprogram, hname]
  rfl

/-- `genramvhd` describes the memory of the image. -/
theorem readVhd_genramvhd (hfile : host.fopen file = some ws.flatten)
    (hname : packageName program file package = .ok name) (x : Vector UInt8 16) (hne : ws ≠ [])
    (hlen : ws.length ≤ n) (hn : n < 10 ^ 18) :
    ((genramvhd host x (vhdCommand program file package n)).bind fun o => readVhd o.stdout) =
      some (memoryOf ws.flatten n) := by
  have hpos := List.length_pos_iff.mpr hne
  have hletters := letter_of_packageName hname
  obtain ⟨t, o, hprinted, hwidth, hbig, hsize, hstdout⟩ :=
    printPackage_eq hws host x (ascii "-w") name
      (s := { package := package, size := ((4 * n : Nat) : Int) }) rfl rfl hlen hn
  have hrun := genramvhd_eq hws hfile hname x hpos hlen hn
  rw [hprinted] at hrun
  have hall : ∀ w ∈ ws ++ List.replicate (n - ws.length) zeroWord, w.length = 4 := by
    intro w hw
    rcases List.mem_append.mp hw with hw | hw
    · exact hws w hw
    · rw [List.eq_of_mem_replicate hw]
      rfl
  have hcount : (ws ++ List.replicate (n - ws.length) zeroWord).length = n := by
    rw [List.length_append, List.length_replicate]
    omega
  have hentries := t.vhdEntries_lines hwidth hbig (i := 0) (List.append_ne_nil_of_left_ne_nil hne _)
    hall (by rw [hcount, hsize, Nat.cast_zero, Int.zero_add])
    (printf "end %s_pkg;\n" [.str name])
  have htable := tabulate_numbered hall
  rw [hcount] at htable
  have hdash : ∀ c ∈ lines t.line 0 (ws ++ List.replicate (n - ws.length) zeroWord) ++
      printf "end %s_pkg;\n" [.str name], c ≠ 45 := by
    intro c hc
    exact (List.mem_append.mp hc).elim (t.ne_dash_of_mem_lines hwidth hbig hall)
      (ne_dash_of_mem_end hletters)
  rw [hrun, Option.bind_some, hstdout, readVhd_header hletters (by decide) (by omega) hdash, hentries,
    Option.bind_some, htable, memoryOf_flatten hws hlen, List.map_append, List.map_replicate]
  rfl

end Vhd

end Tools
end WrpcSw
