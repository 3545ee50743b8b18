import Mathlib.Data.Finset.Basic
import Mathlib.Order.PiLex

/-!
# Search in a binary trie

A finite set of codes is a trie over their bits, bit 0 at the root.  This module
has the descent that follows given choices where codes of the set branch, and the
step from the leaf of one descent to the next leaf.

* `key` orders the codes by their bits, bit 0 first.
* `Follows D c a` says that the descent with the choices `c` ends at `a`.
* `OpenAt D a i` says that on the way to `a` the upper branch at bit `i` was left for
  later.
* `Follows.succ` — from the last open branch of a leaf, the descent ends at the next
  larger leaf.
-/

namespace WrpcSw
namespace BitTrie

variable {α : Type*} (bit : α → Nat → Bool)

/-- The order of the leaves. -/
def key (a : α) : Lex (Nat → Bool) := toLex (bit a)

/-- The codes have the same bits below `i`. -/
def Agree (i : Nat) (a b : α) : Prop := ∀ j, j < i → bit a j = bit b j

/-- On the way to `a`, the set has both branches at bit `i`. -/
def Branches (D : Finset α) (a : α) (i : Nat) : Prop :=
  ∃ d ∈ D, Agree bit i d a ∧ bit d i ≠ bit a i

/-- On the way to `a`, the lower branch is taken at bit `i` and the upper one is there. -/
def OpenAt (D : Finset α) (a : α) (i : Nat) : Prop :=
  bit a i = false ∧ ∃ d ∈ D, Agree bit i d a ∧ bit d i = true

/-- The descent with the choices `c` ends at `a`. -/
def Follows (D : Finset α) (c : Nat → Bool) (a : α) : Prop :=
  a ∈ D ∧ ∀ i, Branches bit D a i → bit a i = c i

/-- The choices that lead to the upper branch at bit `i` of the way to `a`, and to the
smallest leaf there. -/
def upper (a : α) (i j : Nat) : Bool := if j < i then bit a j else decide (j = i)

variable {bit} {D : Finset α} {a b d : α}

theorem Agree.symm {i : Nat} (h : Agree bit i a b) : Agree bit i b a := fun j hj => (h j hj).symm

theorem Agree.trans {i : Nat} (h : Agree bit i a b) (h' : Agree bit i b d) : Agree bit i a d :=
  fun j hj => (h j hj).trans (h' j hj)

theorem Agree.mono {i k : Nat} (h : Agree bit i a b) (hk : k ≤ i) : Agree bit k a b :=
  fun j hj => h j (lt_of_lt_of_le hj hk)

/-- The order is decided at the first bit that differs. -/
theorem key_lt_iff : key bit a < key bit b ↔
    ∃ i, Agree bit i a b ∧ bit a i = false ∧ bit b i = true := by
  have hlt : ∀ x y : Bool, x < y ↔ x = false ∧ y = true := by decide
  constructor
  · rintro ⟨i, hagree, hbit⟩
    exact ⟨i, hagree, (hlt _ _).mp hbit⟩
  · rintro ⟨i, hagree, hbit⟩
    exact ⟨i, hagree, (hlt _ _).mpr hbit⟩

/-- What lies between two codes agrees with both as far as they agree. -/
theorem Agree.between {n : Nat} (h : Agree bit n a b) (hle : key bit a ≤ key bit d)
    (hge : key bit d ≤ key bit b) : Agree bit n a d := by
  rcases hle.eq_or_lt with heq | hlt
  · have hbit : bit a = bit d := toLex.injective heq
    exact fun j _ => congrFun hbit j
  · obtain ⟨i, hagree, hlow, hhigh⟩ := key_lt_iff.mp hlt
    by_cases hi : i < n
    · have hblow : bit b i = false := (h i hi).symm.trans hlow
      have hbd : Agree bit i b d := fun j hj => (h j (by omega)).symm.trans (hagree j hj)
      exact absurd hge (not_le.mpr (key_lt_iff.mpr ⟨i, hbd, hblow, hhigh⟩))
    · exact hagree.mono (Nat.not_lt.mp hi)

theorem OpenAt.key_lt {i : Nat} (h : OpenAt bit D a i) :
    ∃ d ∈ D, Agree bit i d a ∧ bit d i = true ∧ key bit a < key bit d := by
  obtain ⟨hlow, d, hd, hagree, hhigh⟩ := h
  exact ⟨d, hd, hagree, hhigh, key_lt_iff.mpr ⟨i, hagree.symm, hlow, hhigh⟩⟩

/-- A larger code of the set lies behind an open branch. -/
theorem openAt_of_key_lt (hd : d ∈ D) (h : key bit a < key bit d) :
    ∃ i, OpenAt bit D a i ∧ Agree bit i d a ∧ bit d i = true := by
  obtain ⟨i, hagree, hlow, hhigh⟩ := key_lt_iff.mp h
  exact ⟨i, ⟨hlow, d, hd, hagree.symm, hhigh⟩, hagree.symm, hhigh⟩

/-- With no open branch, the leaf is the last one. -/
theorem key_le_of_closed (hclosed : ∀ i, ¬ OpenAt bit D a i) (hd : d ∈ D) :
    key bit d ≤ key bit a := by
  apply not_lt.mp
  intro hlt
  obtain ⟨i, hopen, -⟩ := openAt_of_key_lt hd hlt
  exact hclosed i hopen

/-- The lower branch everywhere leads to the first leaf. -/
theorem Follows.le {c : Nat → Bool} (hc : ∀ i, c i = false) (h : Follows bit D c a)
    (hd : d ∈ D) : key bit a ≤ key bit d := by
  apply not_lt.mp
  intro hlt
  obtain ⟨i, hagree, hlow, hhigh⟩ := key_lt_iff.mp hlt
  have hchoice := h.2 i ⟨d, hd, hagree, by rw [hlow, hhigh]; decide⟩
  rw [hhigh, hc i] at hchoice
  exact Bool.noConfusion hchoice

/-- A descent ends at one leaf. -/
theorem Follows.unique (hbit : Function.Injective bit) {c : Nat → Bool}
    (ha : Follows bit D c a) (hb : Follows bit D c b) : a = b := by
  by_contra hne
  have hkey : key bit a ≠ key bit b := fun h => hne (hbit (toLex.injective h))
  have hfirst : ∃ i, Agree bit i a b ∧ bit a i ≠ bit b i := by
    rcases lt_or_gt_of_ne hkey with hlt | hlt
    · obtain ⟨i, hagree, hlow, hhigh⟩ := key_lt_iff.mp hlt
      exact ⟨i, hagree, by rw [hlow, hhigh]; decide⟩
    · obtain ⟨i, hagree, hlow, hhigh⟩ := key_lt_iff.mp hlt
      exact ⟨i, hagree.symm, by rw [hlow, hhigh]; decide⟩
  obtain ⟨i, hagree, hdiff⟩ := hfirst
  have hchoiceA := ha.2 i ⟨b, hb.1, hagree.symm, hdiff.symm⟩
  have hchoiceB := hb.2 i ⟨a, ha.1, hagree, hdiff⟩
  exact hdiff (hchoiceA.trans hchoiceB.symm)

section Succ

variable {i : Nat} (ha : a ∈ D) (hb : Follows bit D (upper bit a i) b)

include ha hb

/-- Below the bit, the new leaf is on the way to the old one. -/
theorem Follows.agree : Agree bit i b a := by
  intro j
  induction j using Nat.strong_induction_on with
  | _ j ih =>
      intro hj
      by_contra hdiff
      have hagree : Agree bit j a b := fun k hk => (ih k hk (by omega)).symm
      have hchoice := hb.2 j ⟨a, ha, hagree, fun h => hdiff h.symm⟩
      rw [upper, if_pos hj] at hchoice
      exact hdiff hchoice

/-- At the bit, the new leaf is in the upper branch. -/
theorem Follows.high (hopen : OpenAt bit D a i) : bit b i = true := by
  obtain ⟨-, d, hd, hagree, hhigh⟩ := hopen
  by_contra hlow
  have hdiff : bit d i ≠ bit b i := fun h => hlow (h.symm.trans hhigh)
  have hchoice := hb.2 i ⟨d, hd, hagree.trans (hb.agree ha).symm, hdiff⟩
  rw [upper, if_neg (Nat.lt_irrefl _), decide_eq_true rfl] at hchoice
  exact hlow hchoice

/-- From the last open branch of a leaf, the descent ends at the next larger leaf. -/
theorem Follows.succ (hopen : OpenAt bit D a i) (hlast : ∀ j, i < j → ¬ OpenAt bit D a j) :
    key bit a < key bit b ∧ ∀ d ∈ D, key bit a < key bit d → key bit b ≤ key bit d := by
  have hagree := hb.agree ha
  have hhigh := hb.high ha hopen
  refine ⟨key_lt_iff.mpr ⟨i, hagree.symm, hopen.1, hhigh⟩, fun d hd hlt => ?_⟩
  apply not_lt.mp
  intro hbefore
  -- `d` is strictly between: look at the bit where it leaves the way to `b`
  obtain ⟨k, hkagree, hdlow, hbhigh⟩ := key_lt_iff.mp hbefore
  obtain ⟨m, hmopen, hmagree, hdhigh⟩ := openAt_of_key_lt hd hlt
  rcases Nat.lt_trichotomy k i with hk | rfl | hk
  · have hakhigh : bit a k = true := (hagree k hk).symm.trans hbhigh
    have hkm : ¬ k < m := fun h => by
      rw [hmagree k h, hakhigh] at hdlow
      exact Bool.noConfusion hdlow
    have hmk : m ≠ k := fun h => by
      rw [h, hdlow] at hdhigh
      exact Bool.noConfusion hdhigh
    have hmlow : bit b m = false := (hagree m (by omega)).trans hmopen.1
    rw [hkagree m (by omega), hmlow] at hdhigh
    exact Bool.noConfusion hdhigh
  · have hkm : k < m := by
      rcases Nat.lt_trichotomy m k with h | rfl | h
      · rw [hkagree m h, hagree m h, hmopen.1] at hdhigh
        exact Bool.noConfusion hdhigh
      · rw [hdlow] at hdhigh
        exact Bool.noConfusion hdhigh
      · exact h
    exact hlast m hkm hmopen
  · have hchoice := hb.2 k ⟨d, hd, hkagree, by rw [hdlow, hbhigh]; decide⟩
    rw [upper, if_neg (by omega), decide_eq_false (by omega), hbhigh] at hchoice
    exact Bool.noConfusion hchoice

end Succ

end BitTrie
end WrpcSw
