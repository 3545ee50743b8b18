import Mathlib.Data.List.TakeWhile
import Mathlib.Tactic.SplitIfs

/-!
# Words

The words of a text are its maximal parts without blanks.  A text is read word by word: the
blanks before a word are passed over, then the word itself.

* `words`, `behind` — the words of a text, and what stands behind the first of them.
* `cut` — the text cut into at most `n` parts, where the last part keeps all the rest.
* `cut_eq_iff` — the parts are words exactly if nothing stands behind the last one.
-/

namespace WrpcSw
namespace Words

variable {α : Type*} [DecidableEq α] (blank : α)

/-- The maximal parts without blanks. -/
def words (l : List α) : List (List α) := (l.splitOn blank).filter (· ≠ [])

def blanks (l : List α) : List α := l.takeWhile (· = blank)

def skipBlanks (l : List α) : List α := l.dropWhile (· = blank)

def firstWord (l : List α) : List α := l.takeWhile (· ≠ blank)

def skipWord (l : List α) : List α := l.dropWhile (· ≠ blank)

/-- What stands behind the first `n` words. -/
def behind : Nat → List α → List α
  | 0, l => l
  | n + 1, l => behind n (skipWord blank (skipBlanks blank l))

/-- The first `n` words, but the `n`-th one with all that stands behind it. -/
def cut : Nat → List α → List (List α)
  | 0, _ => []
  | n + 1, l =>
      if skipBlanks blank l = [] then []
      else if n = 0 then [skipBlanks blank l]
      else firstWord blank (skipBlanks blank l) ::
        cut n (skipWord blank (skipBlanks blank l))

variable {blank}

theorem words_nil : words blank ([] : List α) = [] := rfl

theorem words_blank (l : List α) : words blank (blank :: l) = words blank l := by
  have hnil : blank ∉ ([] : List α) := List.not_mem_nil
  have hsplit : (blank :: l).splitOn blank = [] :: l.splitOn blank :=
    List.splitOn_append_cons_self_of_not_mem hnil l
  rw [words, hsplit]
  rfl

theorem words_skipBlanks (l : List α) : words blank (skipBlanks blank l) = words blank l := by
  induction l with
  | nil => rfl
  | cons c l ih =>
      by_cases hc : c = blank
      · rw [hc, words_blank, ← ih]
        exact congrArg _ (List.dropWhile_cons_of_pos (decide_eq_true rfl))
      · exact congrArg _ (List.dropWhile_cons_of_neg (by simpa using hc))

/-- A word at the start of a text. -/
theorem words_append {w : List α} (hne : w ≠ []) (hw : blank ∉ w) {l : List α}
    (hl : l.head? = none ∨ l.head? = some blank) :
    words blank (w ++ l) = w :: words blank l := by
  cases l with
  | nil =>
      rw [List.append_nil, words, List.splitOn_eq_singleton hw]
      exact List.filter_cons_of_pos (decide_eq_true hne)
  | cons c l =>
      obtain rfl : c = blank := by
        rcases hl with hl | hl
        · exact absurd hl nofun
        · exact Option.some.inj hl
      rw [words_blank, words, List.splitOn_append_cons_self_of_not_mem hw]
      exact List.filter_cons_of_pos (decide_eq_true hne)

variable (blank) in
theorem firstWord_append_skipWord (l : List α) : firstWord blank l ++ skipWord blank l = l :=
  List.takeWhile_append_dropWhile

variable (blank) in
theorem blanks_append_skipBlanks (l : List α) : blanks blank l ++ skipBlanks blank l = l :=
  List.takeWhile_append_dropWhile

theorem eq_blank_of_mem_blanks {l : List α} {c : α} (h : c ∈ blanks blank l) : c = blank := by
  have hc := List.mem_takeWhile_imp h
  exact of_decide_eq_true hc

variable (blank) in
theorem notMem_firstWord (l : List α) : blank ∉ firstWord blank l := by
  intro hmem
  have hne := List.mem_takeWhile_imp hmem
  exact of_decide_eq_true hne rfl

/-- A text that does not start with a blank starts with a word. -/
theorem firstWord_ne_nil {l : List α} (hne : l ≠ []) (hl : l.head? ≠ some blank) :
    firstWord blank l ≠ [] := by
  cases l with
  | nil => exact absurd rfl hne
  | cons c l =>
      have hc : c ≠ blank := fun h => hl (congrArg some h)
      have hword : firstWord blank (c :: l) = c :: firstWord blank l :=
        List.takeWhile_cons_of_pos (decide_eq_true hc)
      rw [hword]
      exact List.cons_ne_nil _ _

variable (blank) in
theorem head_skipWord (l : List α) :
    (skipWord blank l).head? = none ∨ (skipWord blank l).head? = some blank := by
  have hstop := List.head?_dropWhile_not (fun c => decide (c ≠ blank)) l
  unfold skipWord
  cases hhead : (l.dropWhile fun c => decide (c ≠ blank)).head? with
  | none => exact Or.inl rfl
  | some c =>
      rw [hhead] at hstop
      have hc : c = blank := by simpa using hstop
      exact Or.inr (congrArg some hc)

variable (blank) in
theorem head_skipBlanks (l : List α) : (skipBlanks blank l).head? ≠ some blank := by
  have hstop := List.head?_dropWhile_not (fun c => decide (c = blank)) l
  intro hhead
  unfold skipBlanks at hhead
  rw [hhead] at hstop
  simp at hstop

/-- The first word of a text and the words behind it. -/
theorem words_eq_cons {l : List α} (hne : skipBlanks blank l ≠ []) :
    words blank l = firstWord blank (skipBlanks blank l) ::
      words blank (skipWord blank (skipBlanks blank l)) := by
  have hword := firstWord_ne_nil hne (head_skipBlanks blank l)
  calc words blank l = words blank (skipBlanks blank l) := (words_skipBlanks l).symm
    _ = words blank (firstWord blank (skipBlanks blank l) ++
          skipWord blank (skipBlanks blank l)) := by rw [firstWord_append_skipWord]
    _ = _ := words_append hword (notMem_firstWord blank _) (head_skipWord blank _)

theorem words_eq_nil {l : List α} (h : skipBlanks blank l = []) : words blank l = [] := by
  rw [← words_skipBlanks, h, words_nil]

theorem cut_nil (n : Nat) : cut blank n ([] : List α) = [] := by
  cases n with
  | zero => rfl
  | succ n => rfl

@[simp] theorem behind_nil (n : Nat) : behind blank n ([] : List α) = [] := by
  induction n with
  | zero => rfl
  | succ n ih => exact ih

theorem behind_of_blanks {n : Nat} {l : List α} (h : skipBlanks blank l = []) :
    behind blank (n + 1) l = [] := by
  rw [behind, h]
  exact behind_nil n

variable (blank) in
/-- The parts are words exactly if nothing stands behind the last one. -/
theorem cut_eq_iff (n : Nat) (l : List α) :
    cut blank (n + 1) l = (words blank l).take (n + 1) ↔ behind blank (n + 1) l = [] := by
  induction n generalizing l with
  | zero =>
      by_cases hne : skipBlanks blank l = []
      · simp only [cut, words_eq_nil hne, behind_of_blanks hne, if_pos hne, List.take_nil]
      · have hsplit := firstWord_append_skipWord blank (skipBlanks blank l)
        rw [cut, if_neg hne, if_pos rfl, words_eq_cons hne, behind, behind, List.take_succ_cons,
          List.take_zero, List.cons.injEq]
        constructor
        · rintro ⟨hwhole, -⟩
          exact List.append_right_eq_self.mp (hsplit.trans hwhole)
        · intro hrest
          rw [hrest, List.append_nil] at hsplit
          exact ⟨hsplit.symm, rfl⟩
  | succ n ih =>
      by_cases hne : skipBlanks blank l = []
      · simp only [cut, words_eq_nil hne, behind_of_blanks hne, if_pos hne, List.take_nil]
      · rw [cut, if_neg hne, if_neg (Nat.succ_ne_zero n), words_eq_cons hne, behind,
          List.take_succ_cons, List.cons.injEq]
        exact (and_iff_right rfl).trans (ih _)

end Words
end WrpcSw
