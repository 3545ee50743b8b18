import WrpcSw.Softpll.Common

/-!
# Delays by the tick counter (`include/syscon.h`, `dev/timer-wrs.c`, `dev/syscon.c`)

`timer_delay` waits until a counter of 32 bits has passed a deadline; the comparison goes by the
sign of a difference.  `timer_delay_ms` turns milliseconds into ticks, of which the switch has
100000 a second.  The product with the milliseconds has 32 bits with a sign.

* `timeBefore_iff` — the test of the loop, by the ticks that have elapsed.
* `ticsOf_exact`, `ticsOf_wrapped` — the number of ticks of a delay.
* `timerDelayMs_returns` — a delay of which the product does not overflow ends.
* `neverEarly_iff` — a delay that has ended was long enough.
-/

namespace WrpcSw
namespace Dev
namespace Timer

open CInt Softpll

/-- `board-wrs.h`. -/
def TICS_PER_SECOND : Int := 100000

/-- The ticks that have passed at each reading of the counter. -/
structure Ticks where
  count : Nat → Nat
  mono : ∀ i, count i ≤ count (i + 1)
  gap : ∀ i, count (i + 1) - count i < 2 ^ 31

namespace Ticks

variable (t : Ticks)

/-- `timer_get_tics`. -/
def timerGetTics (i : Nat) : Int := (t.count i % 2 ^ 32 : Nat)

/-- The ticks since the first reading. -/
def elapsed (i : Nat) : Nat := t.count i - t.count 0

end Ticks

def timeBefore (a b : Int) : Bool := timeAfter b a

/-- The loop of `timer_delay`, from reading `i` on: the reading with which it ends.  `none` is a
loop that is still going on after `fuel` readings. -/
def waitLoop (t : Ticks) (tEnd : Int) : Nat → Nat → Option Nat
  | 0, _ => none
  | fuel + 1, i =>
      if timeBefore (t.timerGetTics i) tEnd then waitLoop t tEnd fuel (i + 1) else some i

/-- `timer_delay`. -/
def timerDelay (t : Ticks) (fuel : Nat) (tics : Int) : Option Nat :=
  waitLoop t ((t.timerGetTics 0 + tics) % 2 ^ 32) fuel 1

/-- The argument of `timer_delay` in `timer_delay_ms`. -/
def ticsOf (ms : Int) : Int := Int.tdiv (i32 (ms * TICS_PER_SECOND)) 1000 % 2 ^ 32

/-- `timer_delay_ms`. -/
def timerDelayMs (t : Ticks) (fuel : Nat) (ms : Int) : Option Nat := timerDelay t fuel (ticsOf ms)

/-- When a delay has ended, the ticks of its milliseconds have elapsed. -/
def NeverEarly (t : Ticks) (ms : Nat) : Prop :=
  ∀ fuel n, timerDelayMs t fuel ms = some n → ms * 100000 / 1000 ≤ t.elapsed n

/-! ## The number of ticks -/

/-- Up to 21474 ms the product fits into an `int`. -/
theorem ticsOf_exact {ms : Nat} (h : ms ≤ 21474) : ticsOf ms = 100 * ms := by
  have hproduct : i32 ((ms : Int) * TICS_PER_SECOND) = 100 * ms * 1000 := by
    unfold i32 TICS_PER_SECOND
    omega
  rw [ticsOf, hproduct, Int.mul_tdiv_cancel _ (by decide)]
  omega

/-- From there to 42 s the product is negative, and the number of ticks a little below 2^32. -/
theorem ticsOf_wrapped {ms : Nat} (hlow : 21474 < ms) (hhigh : ms ≤ 42000) :
    ∃ d : Nat, ticsOf ms = 2 ^ 32 - d ∧ 0 < d ∧ d ≤ 2147467 := by
  have hproduct : i32 ((ms : Int) * TICS_PER_SECOND) = -((4294967296 - 100000 * ms : Nat) : Int) := by
    unfold i32 TICS_PER_SECOND
    omega
  refine ⟨(4294967296 - 100000 * ms) / 1000, ?_, by omega, by omega⟩
  rw [ticsOf, hproduct, Int.neg_tdiv, Int.tdiv_eq_ediv_of_nonneg (by omega)]
  omega

/-! ## The loop -/

section Loop

variable {t : Ticks}

theorem count_zero_le (i : Nat) : t.count 0 ≤ t.count i := by
  induction i with
  | zero => exact Nat.le_refl _
  | succ i ih => exact Nat.le_trans ih (t.mono i)

theorem elapsed_mono {i k : Nat} (h : i ≤ k) : t.elapsed i ≤ t.elapsed k := by
  have hcount : t.count i ≤ t.count k := by
    induction h with
    | refl => exact Nat.le_refl _
    | step _ ih => exact Nat.le_trans ih (t.mono _)
  exact Nat.sub_le_sub_right hcount _

/-- The deadline is ahead, by less than half of the range of the counter. -/
theorem timeBefore_iff (i : Nat) (tics : Int) :
    timeBefore (t.timerGetTics i) ((t.timerGetTics 0 + tics) % 2 ^ 32) = true ↔
      2 ^ 31 ≤ ((t.elapsed i : Int) - tics) % 2 ^ 32 := by
  have hstart := count_zero_le (t := t) i
  unfold timeBefore timeAfter Ticks.timerGetTics Ticks.elapsed i32
  rw [decide_eq_true_iff]
  omega

/-- The loop ends with the first reading that is not before the deadline. -/
theorem waitLoop_spec {tEnd : Int} {fuel i n : Nat} (h : waitLoop t tEnd fuel i = some n) :
    i ≤ n ∧ timeBefore (t.timerGetTics n) tEnd = false ∧
      ∀ k, i ≤ k → k < n → timeBefore (t.timerGetTics k) tEnd = true := by
  induction fuel generalizing i with
  | zero => exact absurd h nofun
  | succ fuel ih =>
      rw [waitLoop] at h
      cases hbefore : timeBefore (t.timerGetTics i) tEnd with
      | false =>
          rw [if_neg (by rw [hbefore]; exact nofun)] at h
          cases h
          exact ⟨Nat.le_refl _, hbefore, fun k hk hlt => absurd hk (Nat.not_le.mpr hlt)⟩
      | true =>
          rw [if_pos hbefore] at h
          obtain ⟨hle, hend, hall⟩ := ih h
          refine ⟨by omega, hend, fun k hk hlt => ?_⟩
          rcases Nat.eq_or_lt_of_le hk with rfl | hik
          · exact hbefore
          · exact hall k hik hlt

/-- A reading that is not before the deadline ends the loop. -/
theorem waitLoop_ends {tEnd : Int} {i n : Nat} (hle : i ≤ n)
    (h : timeBefore (t.timerGetTics n) tEnd = false) :
    ∃ k, waitLoop t tEnd (n - i + 1) i = some k := by
  obtain ⟨d, rfl⟩ := Nat.exists_eq_add_of_le hle
  rw [Nat.add_sub_cancel_left]
  induction d generalizing i with
  | zero =>
      rw [Nat.add_zero] at h
      rw [waitLoop, if_neg (by rw [h]; exact nofun)]
      exact ⟨i, rfl⟩
  | succ d ih =>
      rw [waitLoop]
      by_cases hbefore : timeBefore (t.timerGetTics i) tEnd = true
      · rw [if_pos hbefore]
        refine ih (Nat.le_add_right _ _) ?_
        rw [Nat.add_assoc, Nat.add_comm 1]
        exact h
      · rw [if_neg hbefore]
        exact ⟨i, rfl⟩

end Loop

/-! ## Delays -/

section Delays

variable {t : Ticks} {ms : Nat}

/-- The last reading of a delay. -/
theorem timerDelayMs_spec {fuel n : Nat} (h : timerDelayMs t fuel ms = some n) :
    1 ≤ n ∧ ((t.elapsed n : Int) - ticsOf ms) % 2 ^ 32 < 2 ^ 31 := by
  obtain ⟨hone, hend, -⟩ := waitLoop_spec h
  refine ⟨hone, Int.not_le.mp fun hle => ?_⟩
  exact absurd (((timeBefore_iff n (ticsOf ms)).mpr hle).symm.trans hend) nofun

/-- The counter does not jump over the half of its range behind a deadline. -/
theorem exists_reading {tics : Nat} (hpass : ∃ k, tics ≤ t.elapsed k) :
    ∃ n, 1 ≤ n ∧ tics ≤ t.elapsed n ∧ t.elapsed n < tics + 2 ^ 31 := by
  classical
  have hfound := Nat.find_spec hpass
  have hleast : ∀ j < Nat.find hpass, t.elapsed j < tics := fun j hj =>
    Nat.not_le.mp (Nat.find_min hpass hj)
  have hgap : ∀ j, t.elapsed (j + 1) < t.elapsed j + 2 ^ 31 := by
    intro j
    have hstep := t.gap j
    have hstart := count_zero_le (t := t) j
    unfold Ticks.elapsed
    omega
  cases hk : Nat.find hpass with
  | zero =>
      rw [hk] at hfound
      have hfirst := elapsed_mono (t := t) (Nat.zero_le 1)
      have hzero : t.elapsed 0 = 0 := Nat.sub_self _
      have hnext : t.elapsed 1 < t.elapsed 0 + 2 ^ 31 := hgap 0
      exact ⟨1, Nat.le_refl _, by omega, by omega⟩
  | succ j =>
      rw [hk] at hfound
      have hbelow := hleast j (by omega)
      have hnext := hgap j
      exact ⟨j + 1, by omega, hfound, by omega⟩

/-- A delay of at most 21474 ms ends once its ticks have elapsed. -/
theorem timerDelayMs_returns (hms : ms ≤ 21474) (hpass : ∃ k, 100 * ms ≤ t.elapsed k) :
    ∃ fuel n, timerDelayMs t fuel ms = some n := by
  obtain ⟨n, hone, hlow, hhigh⟩ := exists_reading hpass
  have hend : timeBefore (t.timerGetTics n) ((t.timerGetTics 0 + ticsOf ms) % 2 ^ 32) = false := by
    rw [← Bool.not_eq_true, timeBefore_iff, ticsOf_exact hms]
    omega
  obtain ⟨k, hloop⟩ := waitLoop_ends hone hend
  refine ⟨n - 1 + 1, k, ?_⟩
  rw [timerDelayMs, timerDelay]
  exact hloop

/-- A delay of at most 21474 ms does not end before. -/
theorem neverEarly_of_le (hms : ms ≤ 21474) : NeverEarly t ms := by
  intro fuel n hdelay
  obtain ⟨-, hend⟩ := timerDelayMs_spec hdelay
  rw [ticsOf_exact hms] at hend
  omega

/-- The delays up to the limit of the comment: one that has ended was long enough exactly if its
product does not overflow, or the first reading of the loop is late enough already. -/
theorem neverEarly_iff (t : Ticks) {ms : Nat} (hms : ms ≤ 42000) :
    NeverEarly t ms ↔ ms ≤ 21474 ∨ 100 * ms ≤ t.elapsed 1 := by
  constructor
  · intro hnever
    by_contra hnot
    obtain ⟨hlow, hsoon⟩ := not_or.mp hnot
    obtain ⟨d, htics, hpos, hd⟩ := ticsOf_wrapped (Nat.not_le.mp hlow) hms
    have hend : timeBefore (t.timerGetTics 1) ((t.timerGetTics 0 + ticsOf ms) % 2 ^ 32) =
        false := by
      rw [← Bool.not_eq_true, timeBefore_iff, htics]
      omega
    have hreturns : timerDelayMs t 1 ms = some 1 := by
      rw [timerDelayMs, timerDelay, waitLoop, if_neg (by rw [hend]; exact nofun)]
    have helapsed := hnever 1 1 hreturns
    omega
  · rintro (hlow | hlate)
    · exact neverEarly_of_le hlow
    · intro fuel n hdelay
      have hlater := elapsed_mono (t := t) (timerDelayMs_spec hdelay).1
      omega

end Delays

/-- A counter that is read at each of its ticks. -/
def everyTick : Ticks where
  count i := i
  mono i := Nat.le_succ i
  gap i := by omega

theorem neverEarly_second : NeverEarly everyTick 1000 :=
  (neverEarly_iff everyTick (by decide)).mpr (Or.inl (by decide))

/-- 42 s, of which the comment speaks, end at once. -/
theorem neverEarly_42s : ¬ NeverEarly everyTick 42000 := by
  intro hnever
  have hreturns : timerDelayMs everyTick 1 42000 = some 1 := by decide
  exact absurd (hnever 1 1 hreturns) (by decide)

end Timer
end Dev
end WrpcSw
