import Mathlib.Algebra.BigOperators.Group.List.Basic
import Mathlib.Data.List.Induction
import Mathlib.Data.Nat.ModEq
import Mathlib.Tactic.Linarith
import Mathlib.Tactic.Ring

/-!
# One's complement sums

Words of a radix `m` are added with end-around carry.  Modulo `m - 1` this is the
plain sum, and the two representations of zero, `0` and `m - 1`, are told apart by
whether the plain sum is zero.  The relation `Represents` says just that, and it has
one solution for each sum, which is how two ways of folding a sum are compared.

* `onesSum_represents` — the sum with a carry after every addition; `onesSum_perm` — in
  any order.
* `foldTwice_represents` — the plain sum, its carries added in two rounds at the end.
* `Valid` — what a receiver checks: the sum of all words is all ones.
* `valid_of_complement` — filling a gap with the complement of the sum makes it
  valid.
-/

namespace WrpcSw
namespace OnesComplement

variable {m : Nat}

/-- Addition with end-around carry. -/
def endAround (m a b : Nat) : Nat := (a + b) % m + (a + b) / m

/-- The one's complement sum of a list of words. -/
def onesSum (m : Nat) (ws : List Nat) : Nat := ws.foldl (endAround m) 0

/-- The sum of the words, with the carries added at the end, in two rounds. -/
def foldTwice (m s : Nat) : Nat := endAround m (s / m) (s % m)

/-- The words add up to all ones. -/
def Valid (m : Nat) (ws : List Nat) : Prop := onesSum m ws = m - 1

instance (m : Nat) (ws : List Nat) : Decidable (Valid m ws) :=
  inferInstanceAs (Decidable (_ = _))

/-- The word `r` stands for the sum `s`: it has the residue of `s`, and is zero only if `s`
is. -/
structure Represents (m r s : Nat) : Prop where
  lt : r < m
  modEq : r ≡ s [MOD m - 1]
  eq_zero_iff : r = 0 ↔ s = 0

/-- A sum has one representation. -/
theorem Represents.unique {r r' s s' : Nat} (h : Represents m r s) (h' : Represents m r' s')
    (hmod : s ≡ s' [MOD m - 1]) (hzero : s = 0 ↔ s' = 0) : r = r' := by
  by_cases hr : r = 0
  · have hr' : r' = 0 := h'.eq_zero_iff.mpr (hzero.mp (h.eq_zero_iff.mp hr))
    rw [hr, hr']
  · have hr' : r' ≠ 0 := fun hr' => hr (h.eq_zero_iff.mpr (hzero.mpr (h'.eq_zero_iff.mp hr')))
    have hcongr : r ≡ r' [MOD m - 1] := (h.modEq.trans hmod).trans h'.modEq.symm
    have hlt := h.lt
    have hlt' := h'.lt
    -- both are in `1 .. m - 1`, where residues are distinct
    have hshift : r - 1 ≡ r' - 1 [MOD m - 1] := by
      apply Nat.ModEq.add_right_cancel' 1
      rwa [Nat.sub_add_cancel (Nat.pos_of_ne_zero hr), Nat.sub_add_cancel (Nat.pos_of_ne_zero hr')]
    have hpred := Nat.ModEq.eq_of_lt_of_lt hshift (by omega) (by omega)
    omega

/-! ## Carries -/

/-- A carry moved to the end does not change the residue. -/
theorem carry_modEq (hm : 0 < m) (s : Nat) : s % m + s / m ≡ s [MOD m - 1] := by
  have hsplit : (m - 1) * (s / m) + (s % m + s / m) = s := by
    have hdiv := Nat.div_add_mod s m
    have hone : (m - 1) * (s / m) + s / m = m * (s / m) := by
      obtain ⟨k, rfl⟩ : ∃ k, m = k + 1 := ⟨m - 1, by omega⟩
      rw [Nat.add_sub_cancel]
      ring
    omega
  calc s % m + s / m ≡ (m - 1) * (s / m) + (s % m + s / m) [MOD m - 1] := by
        rw [Nat.ModEq, Nat.mul_add_mod]
    _ = s := hsplit

theorem endAround_represents (hm : 2 ≤ m) {a b : Nat} (ha : a < m) (hb : b < m) :
    Represents m (endAround m a b) (a + b) := by
  unfold endAround
  rcases Nat.lt_or_ge (a + b) m with hlt | hge
  · rw [Nat.mod_eq_of_lt hlt, Nat.div_eq_of_lt hlt, Nat.add_zero]
    exact ⟨hlt, Nat.ModEq.refl _, Iff.rfl⟩
  · have hdiv : (a + b) / m = 1 := Nat.div_eq_of_lt_le (by omega) (by omega)
    have hmod : (a + b) % m = a + b - m := by
      rw [Nat.mod_eq_sub_mod hge, Nat.mod_eq_of_lt (by omega)]
    refine ⟨by omega, carry_modEq (by omega) _, by omega⟩

/-- The representation of a sum of representations. -/
theorem Represents.add (hm : 2 ≤ m) {a b s t : Nat} (ha : Represents m a s)
    (hb : Represents m b t) : Represents m (endAround m a b) (s + t) := by
  have hsum := endAround_represents hm ha.lt hb.lt
  refine ⟨hsum.lt, hsum.modEq.trans (ha.modEq.add hb.modEq), ?_⟩
  have hzero := ha.eq_zero_iff
  have hzero' := hb.eq_zero_iff
  have htotal := hsum.eq_zero_iff
  omega

theorem represents_word {w : Nat} (hw : w < m) : Represents m w w :=
  ⟨hw, Nat.ModEq.refl _, Iff.rfl⟩

/-! ## Sums -/

theorem onesSum_append (ws : List Nat) (w : Nat) :
    onesSum m (ws ++ [w]) = endAround m (onesSum m ws) w := by
  simp [onesSum]

/-- The sum with a carry after every addition represents the plain sum. -/
theorem onesSum_represents (hm : 2 ≤ m) {ws : List Nat} (hws : ∀ w ∈ ws, w < m) :
    Represents m (onesSum m ws) ws.sum := by
  induction ws using List.reverseRecOn with
  | nil => exact represents_word (by omega : 0 < m)
  | append_singleton ws w ih =>
      rw [onesSum_append, List.sum_append, List.sum_singleton]
      have hprefix := ih (fun v hv => hws v (List.mem_append_left _ hv))
      have hlast := hws w (List.mem_append_right _ (List.mem_singleton.mpr rfl))
      exact hprefix.add hm (represents_word hlast)

/-- So does the plain sum folded twice, up to two words. -/
theorem foldTwice_represents (hm : 2 ≤ m) {s : Nat} (hs : s < m * m) :
    Represents m (foldTwice m s) s := by
  have hhigh : s / m < m := Nat.div_lt_of_lt_mul hs
  have hlow : s % m < m := Nat.mod_lt _ (by omega)
  obtain ⟨hlt, hmod, hzero⟩ := endAround_represents hm hhigh hlow
  have hcarry := carry_modEq (by omega : 0 < m) s
  rw [Nat.add_comm] at hcarry
  refine ⟨hlt, hmod.trans hcarry, ?_⟩
  have hsplit := Nat.div_add_mod s m
  unfold foldTwice
  rw [hzero]
  constructor
  · intro h
    obtain ⟨hquotient, hrest⟩ := Nat.add_eq_zero_iff.mp h
    rw [hquotient, hrest, Nat.mul_zero] at hsplit
    exact hsplit.symm
  · rintro rfl
    simp

/-- Both ways of adding carries give the same word. -/
theorem foldTwice_eq_onesSum (hm : 2 ≤ m) {ws : List Nat} (hws : ∀ w ∈ ws, w < m)
    (hsum : ws.sum < m * m) : foldTwice m ws.sum = onesSum m ws :=
  (foldTwice_represents hm hsum).unique (onesSum_represents hm hws) (Nat.ModEq.refl _) Iff.rfl

/-- The order of the words does not matter. -/
theorem onesSum_perm (hm : 2 ≤ m) {ws vs : List Nat} (hws : ∀ w ∈ ws, w < m)
    (hperm : vs.Perm ws) : onesSum m vs = onesSum m ws := by
  have hvs : ∀ v ∈ vs, v < m := fun v hv => hws v (hperm.mem_iff.mp hv)
  have hsum : vs.sum = ws.sum := hperm.sum_eq
  refine (onesSum_represents hm hvs).unique (onesSum_represents hm hws) ?_ ?_
  · rw [hsum]
  · rw [hsum]

/-! ## Validity -/

/-- The words are valid exactly when their plain sum is a positive multiple of `m - 1`. -/
theorem valid_iff (hm : 2 ≤ m) {ws : List Nat} (hws : ∀ w ∈ ws, w < m) :
    Valid m ws ↔ m - 1 ∣ ws.sum ∧ 0 < ws.sum := by
  obtain ⟨hlt, hmod, hzero⟩ := onesSum_represents hm hws
  unfold Valid
  rw [← Nat.modEq_zero_iff_dvd]
  constructor
  · intro h
    rw [h] at hmod hzero
    refine ⟨?_, by omega⟩
    exact hmod.symm.trans (Nat.modEq_zero_iff_dvd.mpr (dvd_refl _))
  · rintro ⟨hdvd, hpos⟩
    obtain ⟨k, hk⟩ := Nat.modEq_zero_iff_dvd.mp (hmod.trans hdvd)
    have hr : onesSum m ws ≠ 0 := fun h => by omega
    rcases Nat.lt_or_ge k 1 with hk' | hk'
    · rw [show k = 0 by omega, Nat.mul_zero] at hk
      exact absurd hk hr
    · have hle : m - 1 ≤ onesSum m ws := by
        rw [hk]
        exact Nat.le_mul_of_pos_right _ hk'
      omega

/-- A list whose plain sum exceeds that of `ws` by the complement of `ws` is valid. -/
theorem valid_of_complement (hm : 2 ≤ m) {ws vs : List Nat} (hws : ∀ w ∈ ws, w < m)
    (hvs : ∀ v ∈ vs, v < m) (hsum : vs.sum = ws.sum + (m - 1 - onesSum m ws)) : Valid m vs := by
  obtain ⟨hlt, hmod, hzero⟩ := onesSum_represents hm hws
  rw [valid_iff hm hvs, hsum]
  constructor
  · rw [← Nat.modEq_zero_iff_dvd]
    calc ws.sum + (m - 1 - onesSum m ws)
        ≡ onesSum m ws + (m - 1 - onesSum m ws) [MOD m - 1] := hmod.symm.add_right _
      _ = m - 1 := by omega
      _ ≡ 0 [MOD m - 1] := Nat.modEq_zero_iff_dvd.mpr (dvd_refl _)
  · omega

end OnesComplement
end WrpcSw
