import Mathlib.Algebra.BigOperators.Group.Finset.Basic
import Mathlib.Algebra.Order.BigOperators.Group.Finset
import Mathlib.Data.Nat.ModEq
import Mathlib.Logic.Function.Iterate
import Mathlib.Tactic.SplitIfs

/-!
# The Gregorian calendar

Years and months are blocks of days that follow each other, and a date is a place in a block of a
block.  Dates and times are built with their bounds, so there are only valid ones.

* `start`, `locate` — blocks that follow each other, and the search for the block of a place.
* `Date`, `Date.next`, `Date.dayNumber` — dates, the next day, and the days before a date.
* `DateTime`, `DateTime.tick`, `DateTime.seconds` — the same with the time of the day.
-/

namespace WrpcSw
namespace Calendar

/-! ## Blocks -/

section Blocks

variable (len : Nat → Nat)

/-- The place where block `n` starts. -/
def start (n : Nat) : Nat := ∑ i ∈ Finset.range n, len i

/-- The block of the place `x` behind the start of block `n`, and the place in it. -/
def locate : Nat → Nat → Nat → Option (Nat × Nat)
  | 0, _, _ => none
  | fuel + 1, n, x => if len n ≤ x then locate fuel (n + 1) (x - len n) else some (n, x)

theorem start_zero : start len 0 = 0 := rfl

theorem start_succ (n : Nat) : start len (n + 1) = start len n + len n :=
  Finset.sum_range_succ len n

theorem start_mono {m n : Nat} (h : m ≤ n) : start len m ≤ start len n := by
  induction n, h using Nat.le_induction with
  | base => exact Nat.le_refl _
  | succ n _ ih =>
      rw [start_succ]
      omega

variable {len}

/-- A place of a block is before the start of every later block. -/
theorem lt_start {m n r : Nat} (hr : r < len m) (h : m < n) : start len m + r < start len n := by
  have hmono := start_mono len (Nat.succ_le_of_lt h)
  rw [start_succ] at hmono
  omega

/-- A place is in one block only. -/
theorem place_unique {m n r q : Nat} (hr : r < len m) (hq : q < len n)
    (h : start len m + r = start len n + q) : m = n ∧ r = q := by
  rcases Nat.lt_trichotomy m n with hlt | rfl | hgt
  · have hbefore := lt_start hr hlt
    omega
  · exact ⟨rfl, by omega⟩
  · have hbefore := lt_start hq hgt
    omega

theorem locate_spec {fuel n x : Nat} (h : start len n + x < start len (n + fuel)) :
    ∃ m r, locate len fuel n x = some (m, r) ∧ start len m + r = start len n + x ∧ r < len m ∧
      m < n + fuel := by
  induction fuel generalizing n x with
  | zero => exact absurd h (by rw [Nat.add_zero]; omega)
  | succ fuel ih =>
      rw [locate]
      by_cases hin : len n ≤ x
      · have hsucc := start_succ len n
        have hfuel : n + (fuel + 1) = n + 1 + fuel := by omega
        rw [if_pos hin]
        rw [hfuel] at h ⊢
        obtain ⟨m, r, hfound, hplace, hr, hm⟩ := ih (n := n + 1) (x := x - len n) (by omega)
        exact ⟨m, r, hfound, by omega, hr, hm⟩
      · exact ⟨n, x, if_neg hin, rfl, by omega, by omega⟩

end Blocks

/-! ## Years and months -/

/-- Every fourth year has a leap day, but not the centuries that 400 does not divide. -/
def IsLeap (y : Nat) : Prop := y % 4 = 0 ∧ (y % 100 ≠ 0 ∨ y % 400 = 0)

instance (y : Nat) : Decidable (IsLeap y) := inferInstanceAs (Decidable (_ ∧ _))

def yearLength (y : Nat) : Nat := if IsLeap y then 366 else 365

/-- The length of a month; January is the month 1. -/
def monthLength (y m : Nat) : Nat :=
  if m = 2 then if IsLeap y then 29 else 28
  else if m = 4 ∨ m = 6 ∨ m = 9 ∨ m = 11 then 30 else 31

/-- The lengths of the months of a year, counted from 0. -/
def monthLengths (y i : Nat) : Nat := monthLength y (i + 1)

/-- The day of the year with which a month starts, from 0 on. -/
def monthStart (y m : Nat) : Nat := start (monthLengths y) (m - 1)

theorem yearLength_eq (y : Nat) : start (monthLengths y) 12 = yearLength y := by
  by_cases hleap : IsLeap y
  · simp [start, Finset.sum_range_succ, monthLengths, monthLength, yearLength, hleap]
  · simp [start, Finset.sum_range_succ, monthLengths, monthLength, yearLength, hleap]

/-- A place in a year is in one of its months. -/
theorem month_lt {y m d : Nat}
    (h : start (monthLengths y) m + d < yearLength y) : m < 12 := by
  apply Nat.lt_of_not_le
  intro hle
  have hmono := start_mono (monthLengths y) hle
  rw [yearLength_eq] at hmono
  omega

/-- The multiples of `k` below `y + 1`. -/
theorem multiples_succ (k y : Nat) : (y + 1 + k) / (k + 1) =
    (y + k) / (k + 1) + if y % (k + 1) = 0 then 1 else 0 := by
  have hdvd : k + 1 ∣ y + k + 1 ↔ y % (k + 1) = 0 := by
    rw [Nat.add_assoc, Nat.dvd_add_left (Nat.dvd_refl (k + 1)), Nat.dvd_iff_mod_eq_zero]
  rw [Nat.add_right_comm, Nat.succ_div, if_congr hdvd rfl rfl]

/-- The days of the years before `y`. -/
theorem start_yearLength (y : Nat) :
    start yearLength y + (y + 99) / 100 = 365 * y + (y + 3) / 4 + (y + 399) / 400 := by
  induction y with
  | zero => rfl
  | succ y ih =>
      have hlen : yearLength y = if IsLeap y then 366 else 365 := rfl
      have h4 := multiples_succ 3 y
      have h100 := multiples_succ 99 y
      have h400 := multiples_succ 399 y
      rw [start_succ, h4, h100, h400]
      by_cases hleap : IsLeap y
      · rw [if_pos hleap] at hlen
        rw [hlen]
        obtain ⟨hfour, hcentury | hfull⟩ := hleap
        · rw [if_pos hfour, if_neg hcentury, if_neg (show ¬ y % 400 = 0 by omega)]
          omega
        · rw [if_pos hfour, if_pos (show y % 100 = 0 by omega), if_pos hfull]
          omega
      · rw [if_neg hleap] at hlen
        rw [hlen]
        unfold IsLeap at hleap
        by_cases hfour : y % 4 = 0
        · rw [if_pos hfour, if_pos (show y % 100 = 0 by omega),
            if_neg (show ¬ y % 400 = 0 by omega)]
          omega
        · rw [if_neg hfour, if_neg (show ¬ y % 100 = 0 by omega),
            if_neg (show ¬ y % 400 = 0 by omega)]
          omega

/-! ## Dates -/

@[ext] structure Date where
  year : Nat
  month : Nat
  day : Nat
  month_pos : 1 ≤ month
  month_le : month ≤ 12
  day_pos : 1 ≤ day
  day_le : day ≤ monthLength year month

theorem monthLength_pos (y m : Nat) : 1 ≤ monthLength y m := by
  unfold monthLength
  split_ifs <;> omega

namespace Date

/-- The first of January 1970. -/
def epoch : Date := ⟨1970, 1, 1, Nat.le_refl 1, by omega, Nat.le_refl 1, monthLength_pos 1970 1⟩

def next (d : Date) : Date :=
  if hday : d.day < monthLength d.year d.month then
    { d with day := d.day + 1, day_pos := by omega, day_le := hday }
  else if hmonth : d.month < 12 then
    { year := d.year
      month := d.month + 1
      day := 1
      month_pos := by omega
      month_le := hmonth
      day_pos := Nat.le_refl 1
      day_le := monthLength_pos _ _ }
  else
    { year := d.year + 1
      month := 1
      day := 1
      month_pos := Nat.le_refl 1
      month_le := by omega
      day_pos := Nat.le_refl 1
      day_le := monthLength_pos _ _ }

/-- The days of the year before a date. -/
def dayOfYear (d : Date) : Nat := monthStart d.year d.month + (d.day - 1)

/-- The days before a date, from the first of January of the year 0 on. -/
def dayNumber (d : Date) : Nat := start yearLength d.year + d.dayOfYear

/-- The day of the week, from Sunday on.  The calendar starts with a Saturday. -/
def weekday (d : Date) : Nat := (d.dayNumber + 6) % 7

theorem day_lt (d : Date) : d.day - 1 < monthLengths d.year (d.month - 1) := by
  have hpos := d.day_pos
  have hle := d.day_le
  rw [monthLengths, Nat.sub_add_cancel d.month_pos]
  omega

theorem dayOfYear_lt (d : Date) : d.dayOfYear < yearLength d.year := by
  have hmonth : d.month - 1 < 12 := by
    have hle := d.month_le
    omega
  have hlt := lt_start d.day_lt hmonth
  rwa [yearLength_eq] at hlt

theorem dayNumber_next (d : Date) : d.next.dayNumber = d.dayNumber + 1 := by
  have hday := d.day_pos
  have hday' := d.day_le
  have hmonth := d.month_pos
  have hmonth' := d.month_le
  obtain ⟨m, hm⟩ : ∃ m, d.month = m + 1 := ⟨d.month - 1, by omega⟩
  have hstep := start_succ (monthLengths d.year) m
  unfold next
  split_ifs with hlast hyear
  · simp only [dayNumber, dayOfYear]
    omega
  · -- the first day of the next month
    have hlen : d.day = monthLengths d.year m := by
      rw [hm] at hlast hday'
      exact Nat.le_antisymm hday' (Nat.le_of_not_lt hlast)
    simp only [dayNumber, dayOfYear, monthStart, hm, Nat.add_sub_cancel]
    omega
  · -- the first day of the next year
    have hm11 : m = 11 := by omega
    have hlen : d.day = monthLengths d.year m := by
      rw [hm] at hlast hday'
      exact Nat.le_antisymm hday' (Nat.le_of_not_lt hlast)
    have hyear : start (monthLengths d.year) (11 + 1) = yearLength d.year :=
      yearLength_eq d.year
    have hnext := start_succ yearLength d.year
    rw [hm11] at hstep hlen
    simp only [dayNumber, dayOfYear, monthStart, hm, hm11, Nat.add_sub_cancel, Nat.sub_self,
      start_zero]
    omega

theorem dayNumber_injective : Function.Injective dayNumber := by
  intro d e h
  obtain ⟨hyear, hday⟩ := place_unique d.dayOfYear_lt e.dayOfYear_lt h
  have hlt := d.day_lt
  rw [hyear] at hlt
  unfold dayOfYear monthStart at hday
  rw [hyear] at hday
  obtain ⟨hmonth, hday⟩ := place_unique hlt e.day_lt hday
  have hd := d.month_pos
  have he := e.month_pos
  have hd' := d.day_pos
  have he' := e.day_pos
  exact Date.ext hyear (by omega) (by omega)

theorem weekday_next (d : Date) : d.next.weekday = (d.weekday + 1) % 7 := by
  unfold weekday
  rw [dayNumber_next]
  omega

theorem dayNumber_epoch : epoch.dayNumber = 719528 := by
  have hstart := start_yearLength 1970
  have hday : epoch.dayOfYear = 0 := rfl
  have hyear : epoch.year = 1970 := rfl
  rw [dayNumber, hday, hyear]
  omega

/-- It was a Thursday. -/
theorem weekday_epoch : epoch.weekday = 4 := by
  rw [weekday, dayNumber_epoch]

end Date

/-! ## Dates with the time of the day -/

@[ext] structure DateTime where
  date : Date
  hour : Nat
  minute : Nat
  second : Nat
  hour_lt : hour < 24
  minute_lt : minute < 60
  second_lt : second < 60

namespace DateTime

/-- Midnight at the start of a date. -/
def midnight (d : Date) : DateTime := ⟨d, 0, 0, 0, by omega, by omega, by omega⟩

/-- One second later. -/
def tick (t : DateTime) : DateTime :=
  if hs : t.second < 59 then { t with second := t.second + 1, second_lt := by omega }
  else if hm : t.minute < 59 then
    { t with minute := t.minute + 1, second := 0, minute_lt := by omega, second_lt := by omega }
  else if hh : t.hour < 23 then
    { t with
      hour := t.hour + 1
      minute := 0
      second := 0
      hour_lt := by omega
      minute_lt := by omega
      second_lt := by omega }
  else midnight t.date.next

/-- The seconds before a time, from the first of January of the year 0 on. -/
def seconds (t : DateTime) : Nat :=
  86400 * t.date.dayNumber + 3600 * t.hour + 60 * t.minute + t.second

theorem seconds_midnight (d : Date) : (midnight d).seconds = 86400 * d.dayNumber := rfl

theorem seconds_tick (t : DateTime) : t.tick.seconds = t.seconds + 1 := by
  have hhour := t.hour_lt
  have hminute := t.minute_lt
  have hsecond := t.second_lt
  unfold tick
  split_ifs with hs hm hh
  · rfl
  · simp only [seconds]
    omega
  · simp only [seconds]
    omega
  · have hnext := t.date.dayNumber_next
    simp only [seconds, midnight]
    omega

theorem seconds_tick_iterate (t : DateTime) (n : Nat) : (tick^[n] t).seconds = t.seconds + n := by
  induction n with
  | zero => rfl
  | succ n ih =>
      rw [Function.iterate_succ_apply', seconds_tick, ih]
      rfl

theorem seconds_injective : Function.Injective seconds := by
  intro t u h
  have hh := t.hour_lt
  have hm := t.minute_lt
  have hs := t.second_lt
  have hh' := u.hour_lt
  have hm' := u.minute_lt
  have hs' := u.second_lt
  unfold seconds at h
  have hdate : t.date = u.date := Date.dayNumber_injective (by omega)
  exact DateTime.ext hdate (by omega) (by omega) (by omega)

end DateTime

end Calendar
end WrpcSw
