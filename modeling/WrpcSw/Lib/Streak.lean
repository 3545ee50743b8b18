import Mathlib.Data.Nat.Basic
import Mathlib.Order.Basic

/-!
# Runs of consecutive points

A counter that goes up at the points of a predicate and is reset at the others measures
how long the predicate has held.  This module relates it to the windows of a given length
on which the predicate holds.

* `WindowEnds p n start k` says that the `n` points that end with `k` lie at or after
  `start` and all satisfy `p`; `FirstWindow` adds that no window ended before `k`.
* `streak p start m` is the counter in front of the point `m`.
* `windowEnds_iff` — a window ends where the counter reaches its length.
* `not_windowEnds_succ`, `firstWindow_succ` — the two rules for a scan that stops at the
  first window.
-/

namespace WrpcSw
namespace Streak

variable (p : Nat → Prop)

/-- `p` holds at the `n` points that end with `k`, none of which is before `start`. -/
def WindowEnds (n start k : Nat) : Prop :=
  start + n ≤ k + 1 ∧ ∀ j, k < j + n → j ≤ k → p j

/-- The first window of `n` points at or after `start` ends with `k`. -/
structure FirstWindow (n start k : Nat) : Prop where
  ends : WindowEnds p n start k
  first : ∀ l, l < k → ¬ WindowEnds p n start l

theorem FirstWindow.unique {p : Nat → Prop} {n start k l : Nat} (hk : FirstWindow p n start k)
    (hl : FirstWindow p n start l) : k = l := by
  rcases Nat.lt_trichotomy k l with hlt | heq | hgt
  · exact absurd hk.ends (hl.first k hlt)
  · exact heq
  · exact absurd hl.ends (hk.first l hgt)

theorem FirstWindow.start_le {p : Nat → Prop} {n start k : Nat} (h : FirstWindow p n start k)
    (hn : 0 < n) : start ≤ k := by
  have := h.ends.1
  omega

variable [DecidablePred p]

/-- The number of points with `p` that lie directly in front of `m`, none of them before
`start`. -/
def streak (start : Nat) : Nat → Nat
  | 0 => 0
  | m + 1 => if start ≤ m ∧ p m then streak start m + 1 else 0

variable {p} {n start : Nat}

/-- Nothing is counted before `start`. -/
theorem streak_start {m : Nat} (h : m ≤ start) : streak p start m = 0 := by
  cases m with
  | zero => rfl
  | succ m =>
      rw [streak, if_neg]
      rintro ⟨hstart, -⟩
      omega

theorem streak_hit {m : Nat} (hstart : start ≤ m) (h : p m) :
    streak p start (m + 1) = streak p start m + 1 := by
  rw [streak, if_pos ⟨hstart, h⟩]

theorem streak_miss {m : Nat} (h : ¬ p m) : streak p start (m + 1) = 0 := by
  rw [streak, if_neg fun hboth => h hboth.2]

/-- The counter has reached `n` when the `n` points before all have `p`. -/
theorem le_streak_iff (hn : 0 < n) (m : Nat) :
    n ≤ streak p start m ↔ start + n ≤ m ∧ ∀ j, m ≤ j + n → j < m → p j := by
  induction m generalizing n with
  | zero =>
      rw [streak]
      constructor
      · intro h
        omega
      · rintro ⟨h, -⟩
        omega
  | succ m ih =>
      by_cases hhit : start ≤ m ∧ p m
      · rw [streak_hit hhit.1 hhit.2]
        constructor
        · intro h
          rcases Nat.eq_or_lt_of_le hn with hone | hmore
          · refine ⟨by omega, fun j hj hj' => ?_⟩
            obtain rfl : j = m := by omega
            exact hhit.2
          · obtain ⟨hin, hall⟩ := (ih (n := n - 1) (by omega)).mp (by omega)
            refine ⟨by omega, fun j hj hj' => ?_⟩
            rcases Nat.lt_succ_iff_lt_or_eq.mp hj' with hbefore | rfl
            · exact hall j (by omega) hbefore
            · exact hhit.2
        · rintro ⟨hin, hall⟩
          rcases Nat.eq_or_lt_of_le hn with hone | hmore
          · omega
          · have hrest := (ih (n := n - 1) (by omega)).mpr
              ⟨by omega, fun j hj hj' => hall j (by omega) (by omega)⟩
            omega
      · rw [streak, if_neg hhit]
        constructor
        · intro h
          omega
        · rintro ⟨hin, hall⟩
          exact absurd ⟨by omega, hall m (by omega) (by omega)⟩ hhit

/-- A window ends where the counter reaches its length. -/
theorem windowEnds_iff (hn : 0 < n) (k : Nat) :
    WindowEnds p n start k ↔ n ≤ streak p start (k + 1) := by
  rw [le_streak_iff hn, WindowEnds]
  constructor
  · rintro ⟨hin, hall⟩
    exact ⟨hin, fun j hj hj' => hall j (by omega) (by omega)⟩
  · rintro ⟨hin, hall⟩
    exact ⟨hin, fun j hj hj' => hall j (by omega) (by omega)⟩

/-- No window has ended yet, and the counter of the next point stays below its length. -/
theorem not_windowEnds_succ (hn : 0 < n) {m : Nat} (h : ∀ l, l < m → ¬ WindowEnds p n start l)
    (hbelow : streak p start (m + 1) < n) : ∀ l, l < m + 1 → ¬ WindowEnds p n start l := by
  intro l hl
  rcases Nat.lt_succ_iff_lt_or_eq.mp hl with hbefore | rfl
  · exact h l hbefore
  · rw [windowEnds_iff hn]
    omega

/-- No window has ended yet, and the counter of the next point reaches its length. -/
theorem firstWindow_succ (hn : 0 < n) {m : Nat} (h : ∀ l, l < m → ¬ WindowEnds p n start l)
    (hfull : n ≤ streak p start (m + 1)) : FirstWindow p n start m :=
  ⟨(windowEnds_iff hn m).mpr hfull, h⟩

end Streak
end WrpcSw
