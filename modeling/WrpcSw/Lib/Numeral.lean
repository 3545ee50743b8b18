import Mathlib.Data.Nat.Digits.Lemmas

/-!
# Numerals

The digits of a number in a base, the most significant one first and without leading zeros, as
they are printed and read.  The digits of Mathlib start with the least significant one, and
zero has none.

* `numeral_append` — two numerals are one when the second is as long as its place allows.
* `horner_numeral` — reading a numeral from the left gives the number back.
* `digitsBefore` — the loop that writes a numeral from its end.
-/

namespace WrpcSw
namespace Numeral

/-- The digits of `n` in base `b`. -/
def numeral (b n : Nat) : List Nat := if n = 0 then [0] else (Nat.digits b n).reverse

@[simp] theorem numeral_zero (b : Nat) : numeral b 0 = [0] := rfl

theorem numeral_of_pos (b : Nat) {n : Nat} (h : 0 < n) :
    numeral b n = (Nat.digits b n).reverse :=
  if_neg (Nat.ne_of_gt h)

/-- Reading from the left: each digit is added to `b` times what was read. -/
def horner (b v : Nat) (ds : List Nat) : Nat := ds.foldl (fun v d => b * v + d) v

variable {b : Nat}

theorem numeral_of_lt {n : Nat} (h : n < b) : numeral b n = [n] := by
  by_cases hn : n = 0
  · rw [hn, numeral_zero]
  · rw [numeral_of_pos b (by omega), Nat.digits_of_lt b n hn h]
    rfl

/-- The last digit. -/
theorem numeral_step (hb : 1 < b) {n : Nat} (h : b ≤ n) :
    numeral b n = numeral b (n / b) ++ [n % b] := by
  have hquotient : 0 < n / b := Nat.div_pos h (by omega)
  rw [numeral_of_pos b (by omega), numeral_of_pos b hquotient,
    Nat.digits_def' hb (by omega), List.reverse_cons]

theorem numeral_ne_nil (n : Nat) : numeral b n ≠ [] := by
  unfold numeral
  split_ifs with hn
  · exact List.cons_ne_nil 0 []
  · intro hnil
    exact Nat.digits_ne_nil_iff_ne_zero.mpr hn (List.reverse_eq_nil_iff.mp hnil)

theorem lt_of_mem_numeral (hb : 1 < b) {n d : Nat} (h : d ∈ numeral b n) : d < b := by
  by_cases hn : n = 0
  · rw [hn, numeral_zero, List.mem_singleton] at h
    omega
  · rw [numeral_of_pos b (by omega), List.mem_reverse] at h
    exact Nat.digits_lt_base hb h

/-- There are no leading zeros. -/
theorem ne_zero_of_head_numeral {n d : Nat} (hn : 0 < n) (h : (numeral b n).head? = some d) :
    d ≠ 0 := by
  have hne : Nat.digits b n ≠ [] := Nat.digits_ne_nil_iff_ne_zero.mpr (by omega)
  rw [numeral_of_pos b hn, List.head?_reverse, List.getLast?_eq_some_getLast hne] at h
  rw [← Option.some.inj h]
  exact Nat.getLast_digit_ne_zero b (by omega)

theorem length_numeral_le_iff (hb : 1 < b) {k : Nat} (hk : 0 < k) (n : Nat) :
    (numeral b n).length ≤ k ↔ n < b ^ k := by
  by_cases hn : n = 0
  · have hpow : 0 < b ^ k := Nat.pow_pos (by omega)
    rw [hn, numeral_zero]
    exact ⟨fun _ => hpow, fun _ => hk⟩
  · rw [numeral_of_pos b (by omega), List.length_reverse]
    exact Nat.digits_length_le_iff hb n

theorem numeral_append (hb : 1 < b) {m : Nat} (hm : 0 < m) (n : Nat) :
    numeral b m ++ numeral b n = numeral b (m * b ^ (numeral b n).length + n) := by
  have hb' : 0 < b := by omega
  by_cases hn : n = 0
  · have hdiv : m * b / b = m := Nat.mul_div_cancel m hb'
    have hstep := numeral_step hb (Nat.le_mul_of_pos_left b hm)
    rw [hdiv, Nat.mul_mod_left] at hstep
    rw [hn, numeral_zero, List.length_singleton, Nat.pow_one, Nat.add_zero, hstep]
  · have hpos : 0 < m * b ^ (numeral b n).length + n := by omega
    rw [numeral_of_pos b hpos, numeral_of_pos b hm, numeral_of_pos b (Nat.pos_of_ne_zero hn),
      List.length_reverse, ← List.reverse_append, Nat.digits_append_digits hb', Nat.add_comm n,
      Nat.mul_comm m]

theorem horner_append (v : Nat) (ds es : List Nat) :
    horner b v (ds ++ es) = horner b (horner b v ds) es := List.foldl_append

theorem horner_eq_ofDigits (ds : List Nat) : horner b 0 ds = Nat.ofDigits b ds.reverse := by
  induction ds using List.reverseRecOn with
  | nil => rfl
  | append_singleton ds d ih =>
      rw [horner_append, ih, List.reverse_append]
      exact (Nat.add_comm _ _).trans Nat.ofDigits_cons.symm

theorem horner_numeral (n : Nat) : horner b 0 (numeral b n) = n := by
  rw [horner_eq_ofDigits]
  by_cases hn : n = 0
  · rw [hn]
    exact Nat.ofDigits_singleton
  · rw [numeral_of_pos b (by omega), List.reverse_reverse, Nat.ofDigits_digits]

/-- Different numbers have different numerals. -/
theorem numeral_injective : Function.Injective (numeral b) := by
  intro m n h
  rw [← horner_numeral (b := b) m, ← horner_numeral (b := b) n, h]

/-- What is read never exceeds the value of the whole numeral. -/
theorem horner_prefix_le (hb : 0 < b) (v : Nat) (ds es : List Nat) :
    horner b v ds ≤ horner b v (ds ++ es) := by
  induction es using List.reverseRecOn with
  | nil => rw [List.append_nil]
  | append_singleton es e ih =>
      rw [← List.append_assoc, horner_append _ _ [e]]
      have hstep : horner b v (ds ++ es) ≤ b * horner b v (ds ++ es) + e :=
        Nat.le_add_right_of_le (Nat.le_mul_of_pos_left _ hb)
      exact Nat.le_trans ih hstep

/-- The digits of `n` before `ds`, written from the end in at most `k` steps. -/
def digitsBefore {α : Type*} (f : Nat → α) (b : Nat) : Nat → Nat → List α → List α
  | 0, _, ds => ds
  | k + 1, n, ds => if n = 0 then ds else digitsBefore f b k (n / b) (f (n % b) :: ds)

theorem digitsBefore_eq {α : Type*} (f : Nat → α) (hb : 1 < b) {k n : Nat} (h : n < b ^ k)
    (ds : List α) : digitsBefore f b k n ds = (Nat.digits b n).reverse.map f ++ ds := by
  induction k generalizing n ds with
  | zero =>
      obtain rfl : n = 0 := by
        rw [Nat.pow_zero] at h
        omega
      rw [Nat.digits_zero]
      rfl
  | succ k ih =>
      rw [digitsBefore]
      split_ifs with hn
      · rw [hn, Nat.digits_zero]
        rfl
      · have hquotient : n / b < b ^ k := Nat.div_lt_of_lt_mul (by rwa [Nat.pow_succ'] at h)
        have hdigits : Nat.digits b n = n % b :: Nat.digits b (n / b) :=
          Nat.digits_def' hb (Nat.pos_of_ne_zero hn)
        rw [ih hquotient, hdigits, List.reverse_cons, List.map_append, List.append_assoc]
        rfl

end Numeral
end WrpcSw
