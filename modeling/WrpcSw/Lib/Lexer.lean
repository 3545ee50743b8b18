import Mathlib.Data.List.Basic
import Mathlib.Tactic.SplitIfs

/-!
# Words and symbols

A text is read as a list of tokens.  A word is a maximal run of letters; blanks separate words and
are dropped; any other character is a token of its own.

* `lex` — the tokens of a text.
* `lex_append` — the tokens of two texts that do not meet in a word.
* `expect` — the rest of a list of tokens behind those of a given text.
-/

namespace WrpcSw
namespace Lexer

variable {α : Type*}

inductive Token (α : Type*)
  | word (w : List α)
  | symbol (c : α)
deriving DecidableEq

/-- The word that was read so far, in front of the tokens behind it. -/
def flush (w : List α) (ts : List (Token α)) : List (Token α) :=
  if w.isEmpty then ts else .word w :: ts

variable (blank letter : α → Bool)

/-- A character in front of a word and tokens. -/
def lexStep (c : α) (s : List α × List (Token α)) : List α × List (Token α) :=
  if letter c then (c :: s.1, s.2)
  else if blank c then ([], flush s.1 s.2)
  else ([], .symbol c :: flush s.1 s.2)

/-- The word at the start of a text and the tokens behind it. -/
def scan (l : List α) : List α × List (Token α) := l.foldr (lexStep blank letter) ([], [])

def lex (l : List α) : List (Token α) := flush (scan blank letter l).1 (scan blank letter l).2

/-- No word goes on at the start of the text. -/
def Stops (l : List α) : Prop := ∀ c ∈ l.head?, letter c = false

variable {blank letter}

@[simp] theorem stops_nil : Stops letter ([] : List α) := nofun

theorem stops_cons {c : α} (h : letter c = false) (l : List α) : Stops letter (c :: l) := by
  intro d hd
  obtain rfl : c = d := Option.some.inj hd
  exact h

theorem scan_fst_of_stops {l : List α} (h : Stops letter l) : (scan blank letter l).1 = [] := by
  cases l with
  | nil => rfl
  | cons c l =>
      have hc : letter c = false := h c rfl
      show (lexStep blank letter c (scan blank letter l)).1 = []
      rw [lexStep, hc, if_neg Bool.false_ne_true]
      split_ifs
      · rfl
      · rfl

theorem lex_of_stops {l : List α} (h : Stops letter l) :
    lex blank letter l = (scan blank letter l).2 := by
  rw [lex, scan_fst_of_stops h]
  rfl

@[simp] theorem lex_nil : lex blank letter ([] : List α) = [] := rfl

/-- A word in front of a text that does not go on with it. -/
theorem lex_word {w : List α} (hne : w ≠ []) (hw : ∀ c ∈ w, letter c = true) {l : List α}
    (hl : Stops letter l) : lex blank letter (w ++ l) = .word w :: lex blank letter l := by
  have hscan : scan blank letter (w ++ l) = (w, (scan blank letter l).2) := by
    clear hne
    induction w with
    | nil => exact Prod.ext (scan_fst_of_stops hl) rfl
    | cons c w ih =>
        have hc : letter c = true := hw c List.mem_cons_self
        show lexStep blank letter c (scan blank letter (w ++ l)) = _
        rw [ih fun d hd => hw d (List.mem_cons_of_mem c hd), lexStep, hc]
        rfl
  have hflag : w.isEmpty = false := by
    rw [List.isEmpty_eq_false_iff]
    exact hne
  rw [lex, hscan, lex_of_stops hl]
  unfold flush
  rw [hflag]
  rfl

theorem lex_blank {c : α} (hletter : letter c = false) (hblank : blank c = true) (l : List α) :
    lex blank letter (c :: l) = lex blank letter l := by
  rw [lex_of_stops (stops_cons hletter l)]
  show (lexStep blank letter c (scan blank letter l)).2 = _
  rw [lexStep, hletter, hblank]
  rfl

theorem lex_symbol {c : α} (hletter : letter c = false) (hblank : blank c = false) (l : List α) :
    lex blank letter (c :: l) = .symbol c :: lex blank letter l := by
  rw [lex_of_stops (stops_cons hletter l)]
  show (lexStep blank letter c (scan blank letter l)).2 = _
  rw [lexStep, hletter, hblank]
  rfl

/-- Blanks in front of a text. -/
theorem lex_blanks {bs : List α} (h : ∀ c ∈ bs, letter c = false ∧ blank c = true) (l : List α) :
    lex blank letter (bs ++ l) = lex blank letter l := by
  induction bs with
  | nil => rfl
  | cons c bs ih =>
      obtain ⟨hletter, hblank⟩ := h c List.mem_cons_self
      rw [List.cons_append, lex_blank hletter hblank, ih fun d hd => h d (List.mem_cons_of_mem c hd)]

theorem flush_append (w : List α) (ts us : List (Token α)) :
    flush w (ts ++ us) = flush w ts ++ us := by
  unfold flush
  split_ifs
  · rfl
  · rfl

theorem scan_append {c : α} (hc : letter c = false) (b l : List α) :
    scan blank letter (b ++ c :: l) =
      ((scan blank letter (b ++ [c])).1,
        (scan blank letter (b ++ [c])).2 ++ lex blank letter l) := by
  induction b with
  | nil =>
      show lexStep blank letter c (scan blank letter l) = ((lexStep blank letter c ([], [])).1,
        (lexStep blank letter c ([], [])).2 ++ lex blank letter l)
      rw [lexStep, lexStep, hc, if_neg Bool.false_ne_true, if_neg Bool.false_ne_true]
      split_ifs
      · rfl
      · rfl
  | cons d b ih =>
      show lexStep blank letter d (scan blank letter (b ++ c :: l)) =
        ((lexStep blank letter d (scan blank letter (b ++ [c]))).1,
          (lexStep blank letter d (scan blank letter (b ++ [c]))).2 ++ lex blank letter l)
      rw [ih, lexStep, lexStep]
      split_ifs
      · rfl
      · rw [flush_append]
      · rw [flush_append]
        rfl

/-- A text whose last character is no letter: the tokens of the text behind it follow. -/
theorem lex_append {a : List α} (ha : a.getLast?.any letter = false) (l : List α) :
    lex blank letter (a ++ l) = lex blank letter a ++ lex blank letter l := by
  rcases List.eq_nil_or_concat' a with rfl | ⟨b, c, rfl⟩
  · rfl
  · have hc : letter c = false := by
      rw [List.getLast?_append] at ha
      exact ha
    rw [List.append_assoc, List.singleton_append]
    unfold lex
    rw [scan_append hc b l, flush_append]
    rfl

/-! ## Expected tokens -/

section Expect

variable [DecidableEq α]

/-- The tokens behind `text`, which the list has to start with. -/
def expect (blank letter : α → Bool) (text : List α) (ts : List (Token α)) :
    Option (List (Token α)) :=
  if lex blank letter text <+: ts then some (ts.drop (lex blank letter text).length) else none

theorem expect_append (text : List α) (ts : List (Token α)) :
    expect blank letter text (lex blank letter text ++ ts) = some ts := by
  rw [expect, if_pos (List.prefix_append _ _), List.drop_left]

end Expect

end Lexer
end WrpcSw
