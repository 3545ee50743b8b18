import WrpcSw.Tools.MemoryImage

/-!
# What `genraminit` and `genrammif` describe

Both programs print the words of the image, and then zeros.  They print one word too many: the read
that notices the end of the file gets nothing, and the word before it is printed again.

* `readLoop_words`, `padLoop_zeros` — what the two loops print.
* `printed` — the words of both together.
* `readInit_genraminit`, `readMif_genrammif` — what is read back.
-/

namespace WrpcSw
namespace Tools

open Lexer Numeral
open PpPrintf (ascii)

/-! ## The loops of `genraminit` and `genrammif` -/

section Loops

variable (line : Int → List UInt8 → List UInt8)

theorem readLoop_eof (x : List UInt8) (i : Int) (rest : List UInt8) :
    readLoop line x i { rest := rest, eof := true } = ([], i) := by
  rw [readLoop]
  rfl

theorem i32_succ {i : Nat} (h : i + 1 < 2 ^ 31) : CInt.i32 ((i : Int) + 1) = ((i + 1 : Nat) : Int) :=
  CInt.i32_eq_self ⟨by omega, by omega⟩

/-- The words of the file, and the last one of them again: the end of the file is noticed by the
read behind it. -/
theorem readLoop_words {ws : List (List UInt8)} (hws : ∀ w ∈ ws, w.length = 4) {x : List UInt8}
    (hx : x.length = 4) {i : Nat} (hi : i + ws.length + 1 < 2 ^ 31) :
    readLoop line x i { rest := ws.flatten } =
      (lines line i (ws ++ [ws.getLastD x]), ((i + ws.length + 1 : Nat) : Int)) := by
  have hopen : ∀ rest : List UInt8, ¬ feof { rest := rest } = true :=
    fun _ => Bool.false_ne_true
  induction ws generalizing i x with
  | nil =>
      rw [readLoop, if_neg (hopen _), List.flatten_nil, fread_end x (by decide)]
      dsimp only
      rw [readLoop_eof, i32_succ (by omega)]
      rfl
  | cons w ws ih =>
      rw [List.length_cons] at hi
      have hw : w.length = 4 := hws w List.mem_cons_self
      have hread := fread_full x w ws.flatten
      rw [hw, ← hx, List.drop_length, List.append_nil, hx] at hread
      have hrest := ih (fun v hv => hws v (List.mem_cons_of_mem w hv)) hw (i := i + 1) (by omega)
      rw [readLoop, if_neg (hopen _), List.flatten_cons, hread]
      dsimp only
      rw [i32_succ (by omega), hrest, List.length_cons, List.cons_append, List.getLastD_cons, lines,
        Nat.add_right_comm i 1, Nat.add_assoc i]

theorem padLoop_of_le {n i : Int} (h : n ≤ i) : padLoop line n i = [] := by
  rw [padLoop, if_neg (by omega)]

theorem padLoop_zeros (i m : Nat) :
    padLoop line ((i + m : Nat) : Int) i = lines line i (List.replicate m [0, 0, 0, 0]) := by
  induction m generalizing i with
  | zero => exact padLoop_of_le line (Int.le_refl _)
  | succ m ih =>
      have hrest := ih (i + 1)
      rw [Nat.add_right_comm, Nat.add_assoc] at hrest
      rw [padLoop, if_pos (by omega), List.replicate_succ, lines, ← hrest]
      rfl

end Loops

/-! ## The words that are printed -/

/-- A number on the command line. -/
def decimal (n : Nat) : List UInt8 := digits false 10 n

theorem atoi_decimal {n : Nat} (h : n < 2 ^ 31) : atoi (decimal n) = n := by
  have hlong : clampLong n = n := by
    unfold clampLong
    omega
  rw [atoi, decimal, strtol_decimal (Or.inl rfl), hlong]
  exact CInt.i32_eq_self ⟨by omega, by omega⟩

theorem atoi_lt (nptr : List UInt8) : atoi nptr < 2 ^ 31 := (CInt.i32_inI32 _).2

/-- A word of zeros. -/
def zeroWord : List UInt8 := [0, 0, 0, 0]

/-- The words that `genraminit` and `genrammif` print for a memory of `n` words. -/
def printed (ws : List (List UInt8)) (n : Nat) : List (List UInt8) :=
  ws ++ [ws.getLastD zeroWord] ++ List.replicate (n - (ws.length + 1)) zeroWord

section Printed

variable {ws : List (List UInt8)} (hne : ws ≠ [])

include hne in
theorem getLastD_eq (x y : List UInt8) : ws.getLastD x = ws.getLastD y := by
  rw [List.getLastD_eq_getLast?, List.getLastD_eq_getLast?, List.getLast?_eq_some_getLast hne]
  rfl

theorem length_printed (ws : List (List UInt8)) (n : Nat) : (printed ws n).length = max (ws.length + 1) n := by
  rw [printed, List.length_append, List.length_append, List.length_singleton,
    List.length_replicate]
  omega

variable (hws : ∀ w ∈ ws, w.length = 4)

include hne hws

theorem length_getLastD (x : List UInt8) : (ws.getLastD x).length = 4 := by
  rw [List.getLastD_eq_getLast?, List.getLast?_eq_some_getLast hne]
  exact hws _ (List.getLast_mem hne)

theorem length_of_mem_printed {n : Nat} {w : List UInt8} (hw : w ∈ printed ws n) :
    w.length = 4 := by
  rcases List.mem_append.mp hw with hw | hw
  · rcases List.mem_append.mp hw with hw | hw
    · exact hws w hw
    · rw [List.mem_singleton.mp hw]
      exact length_getLastD hne hws _
  · rw [List.eq_of_mem_replicate hw]
    rfl

/-- The lines of both programs for a file of whole words. -/
theorem loops_eq (line : Int → List UInt8 → List UInt8) {x : List UInt8} (hx : x.length = 4)
    {n : Nat} (hlen : ws.length + 1 < 2 ^ 31) :
    (readLoop line x 0 { rest := ws.flatten }).1 ++
        padLoop line n (readLoop line x 0 { rest := ws.flatten }).2 =
      lines line 0 (printed ws n) := by
  have hread := readLoop_words line hws hx (i := 0) (by omega)
  rw [Nat.zero_add] at hread
  have hpad : padLoop line n ((ws.length + 1 : Nat) : Int) =
      lines line (ws.length + 1) (List.replicate (n - (ws.length + 1)) zeroWord) := by
    by_cases hroom : ws.length + 1 ≤ n
    · obtain ⟨m, rfl⟩ := Nat.exists_eq_add_of_le hroom
      rw [padLoop_zeros, Nat.add_sub_cancel_left]
      rfl
    · rw [padLoop_of_le line (by omega), Nat.sub_eq_zero_of_le (by omega)]
      rfl
  have hzero : (0 : Int) = ((0 : Nat) : Int) := rfl
  rw [hzero, hread, hpad, printed, getLastD_eq hne x zeroWord,
    lines_append line 0 (ws ++ [ws.getLastD zeroWord]), List.length_append, List.length_singleton,
    Nat.zero_add]

end Printed

/-! ## `genraminit` -/

/-- `genraminit FILE N` -/
def initArgs (program file : List UInt8) (n : Nat) : List (List UInt8) :=
  [program, file, decimal n]

/-- `genrammif FILE SIZE` for a memory of `n` words. -/
def mifArgs (program file : List UInt8) (n : Nat) : List (List UInt8) :=
  [program, file, decimal (4 * n)]

section Words

variable {host : Host} {program file : List UInt8} {ws : List (List UInt8)} {n : Nat}
  (hfile : host.fopen file = some ws.flatten) (hne : ws ≠ []) (hws : ∀ w ∈ ws, w.length = 4)
  (hroom : ws.length + 1 < 2 ^ 31)

include hfile hne hws hroom

/-- What `genraminit` prints is read back as the printed words, all of them. -/
theorem readInit_genraminit (x : Vector UInt8 4) (hn : n < 2 ^ 31) :
    readInit (genraminit host x (initArgs program file n)).stdout =
      some ⟨32, (printed ws n).map wordOf⟩ := by
  have hprinted : ∀ w ∈ printed ws n, w.length = 4 :=
    fun w hw => length_of_mem_printed hne hws hw
  have hlen := length_printed ws n
  have hstdout : (genraminit host x (initArgs program file n)).stdout =
      lines initLine 0 (printed ws n) := by
    unfold genraminit initArgs
    dsimp only
    rw [hfile, atoi_decimal hn]
    exact loops_eq hne hws initLine x.length_toList hroom
  rw [hstdout, readInit, initEntries_lines hprinted (by omega), Option.bind_eq_bind,
    Option.bind_some, length_numbered, tabulate_numbered hprinted]

end Words

/-! ## `genrammif` -/

theorem mifHeader_eq (n : Int) :
    mifHeader n = ascii "DEPTH = " ++ (signed {} n ++
      ascii ";\nWIDTH = 32;\nADDRESS_RADIX = HEX;\nDATA_RADIX = HEX;\nCONTENT\nBEGIN\n") := by
  have hdepth : printf "DEPTH = %d;\n" [.num n] =
      ascii "DEPTH = " ++ (signed {} n ++ ascii ";\n") := rfl
  unfold mifHeader
  rw [hdepth]
  simp only [List.append_assoc]
  rfl

/-- The depth of a header is read back. -/
theorem readMif_header (n : Nat) (rest : List UInt8) :
    readMif (mifHeader n ++ rest) = (mifEntries (tokens rest)).bind (tabulate 32 n) := by
  have hdepth : tokens (ascii "DEPTH = ") = tokens (ascii "DEPTH =") := by decide
  have hrest :
      tokens (ascii ";\nWIDTH = 32;\nADDRESS_RADIX = HEX;\nDATA_RADIX = HEX;\nCONTENT\nBEGIN\n") =
        tokens (ascii "; WIDTH =") ++ (.word (ascii "32") ::
          tokens (ascii "; ADDRESS_RADIX = HEX; DATA_RADIX = HEX; CONTENT BEGIN")) := rfl
  have hstop : Stops letter
      (ascii ";\nWIDTH = 32;\nADDRESS_RADIX = HEX;\nDATA_RADIX = HEX;\nCONTENT\nBEGIN\n" ++
        rest) := stops_text (by decide) (by decide) rest
  have htokens : tokens (mifHeader n ++ rest) =
      tokens (ascii "DEPTH =") ++ (.word (digits false 10 n) :: (tokens (ascii "; WIDTH =") ++
        (.word (ascii "32") ::
          (tokens (ascii "; ADDRESS_RADIX = HEX; DATA_RADIX = HEX; CONTENT BEGIN") ++
            tokens rest)))) := by
    rw [mifHeader_eq, signed_natCast, List.append_assoc, List.append_assoc,
      tokens_text (by decide), tokens_digits isBase_ten false n hstop,
      tokens_text (by decide), hdepth, hrest, List.append_assoc, List.cons_append]
  have hdigits : readNumber 10 (digits false 10 n) = some n :=
    readNumber_digits isBase_ten false n
  have hwidth : readNumber 10 (ascii "32") = some 32 := by decide
  unfold readMif
  rw [htokens]
  simp only [skip_tokens, number_word hdigits, number_word hwidth, Option.bind_eq_bind,
    Option.bind_some]

/-- A header with a negative depth is not read. -/
theorem readMif_negative {d : Int} (h : d < 0) (rest : List UInt8) :
    readMif (mifHeader d ++ rest) = none := by
  have hsigned : signed {} d = 45 :: digits false 10 d.natAbs := by
    rw [signed, if_pos h]
    exact fill_zero 32 _
  have hdepth : tokens (ascii "DEPTH = ") = tokens (ascii "DEPTH =") := by decide
  unfold readMif
  rw [mifHeader_eq, hsigned, List.append_assoc, List.append_assoc, tokens_text (by decide),
    hdepth, skip_tokens, Option.bind_eq_bind, Option.bind_some, List.cons_append]
  have hminus : ∀ l, tokens (45 :: l) = .symbol 45 :: tokens l := fun l => lex_symbol rfl rfl l
  have hnumber : ∀ ts, number 10 (.symbol 45 :: ts) = none := fun _ => rfl
  rw [hminus, hnumber, Option.bind_eq_bind, Option.bind_none]

section Mif

variable {host : Host} {program file : List UInt8} {ws : List (List UInt8)} {n : Nat}
  (hfile : host.fopen file = some ws.flatten) (x : Vector UInt8 4)

include hfile in
/-- The number of words is the one of the argument, if it is read at all. -/
theorem depth_genrammif {m : Memory}
    (h : readMif (genrammif host x (mifArgs program file n)).stdout = some m) :
    (m.words.length : Int) = (atoi (decimal (4 * n))).tdiv 4 := by
  unfold genrammif mifArgs at h
  dsimp only at h
  rw [hfile] at h
  dsimp only at h
  by_cases hneg : (atoi (decimal (4 * n))).tdiv 4 < 0
  · rw [readMif_negative hneg] at h
    exact absurd h nofun
  · obtain ⟨d, hd⟩ := Int.eq_ofNat_of_zero_le (Int.not_lt.mp hneg)
    rw [hd] at h ⊢
    rw [readMif_header] at h
    obtain ⟨es, -, htable⟩ := Option.bind_eq_some_iff.mp h
    rw [tabulate_depth htable]

variable (hne : ws ≠ []) (hws : ∀ w ∈ ws, w.length = 4) (hroom : ws.length + 1 < 2 ^ 31)

include hfile hne hws hroom

/-- What `genrammif` prints is read back as a table of the printed words, which has to have as
many as the header says. -/
theorem readMif_genrammif (hn : 4 * n < 2 ^ 31) :
    readMif (genrammif host x (mifArgs program file n)).stdout =
      tabulate 32 n (numbered 0 (printed ws n)) := by
  have hprinted : ∀ w ∈ printed ws n, w.length = 4 :=
    fun w hw => length_of_mem_printed hne hws hw
  have hlen := length_printed ws n
  have hsize : (atoi (decimal (4 * n))).tdiv 4 = n := by
    rw [atoi_decimal hn, Nat.cast_mul]
    exact Int.mul_tdiv_cancel_left _ (by decide)
  have hstdout : (genrammif host x (mifArgs program file n)).stdout =
      mifHeader n ++ (lines mifLine 0 (printed ws n) ++ ascii "END;\n") := by
    unfold genrammif mifArgs
    dsimp only
    rw [hfile]
    dsimp only
    rw [hsize, ← loops_eq hne hws mifLine x.length_toList hroom (n := n), List.append_assoc]
    rfl
  rw [hstdout, readMif_header, mifEntries_lines hprinted (by omega), Option.bind_some]

end Mif

end Tools
end WrpcSw
