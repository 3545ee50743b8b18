import WrpcSw.Lib.Calendar
import WrpcSw.PpPrintf.VsprintfXint

/-!
# Time of the day and date (`lib/util.c`)

`format_time` makes a text of a number of seconds since 1970.  One loop subtracts the lengths of
the years, another one those of the months, which it reads from a table.
-/

namespace WrpcSw
namespace Util

open Calendar PpPrintf

/-! ## The code -/

def EPOCH_YR : Nat := 1970

def SECS_DAY : Nat := 24 * 60 * 60

def LEAPYEAR (year : Nat) : Bool := year % 4 = 0 ∧ (year % 100 ≠ 0 ∨ year % 400 = 0)

def YEARSIZE (year : Nat) : Nat := if LEAPYEAR year then 366 else 365

/-- `_ytab`. -/
def ytab (leap : Bool) : List Nat :=
  if leap then [31, 29, 31, 30, 31, 30, 31, 31, 30, 31, 30, 31]
  else [31, 28, 31, 30, 31, 30, 31, 31, 30, 31, 30, 31]

/-- `_days`. -/
def days : List (List UInt8) := ["Sun", "Mon", "Tue", "Wed", "Thu", "Fri", "Sat"].map ascii

/-- `_months`. -/
def months : List (List UInt8) :=
  ["Jan", "Feb", "Mar", "Apr", "May", "Jun", "Jul", "Aug", "Sep", "Oct", "Nov", "Dec"].map ascii

/-- `struct tm`. -/
structure Tm where
  sec : Nat
  min : Nat
  hour : Nat
  mday : Nat
  mon : Nat
  year : Int
  wday : Nat
  yday : Nat
  isdst : Nat

/-- The loop over the years, for at most `fuel` tests: `dayno` and `year` at its end. -/
def yearLoop : Nat → Nat → Nat → Option (Nat × Nat)
  | 0, _, _ => none
  | fuel + 1, dayno, year =>
      if dayno ≥ YEARSIZE year then yearLoop fuel (dayno - YEARSIZE year) (year + 1)
      else some (dayno, year)

/-- The loop over the months, for at most `fuel` tests: `dayno` and `tm_mon` at its end.  A read
outside of the table has no result. -/
def monthLoop (leap : Bool) : Nat → Nat → Nat → Option (Nat × Nat)
  | 0, _, _ => none
  | fuel + 1, dayno, mon =>
      match (ytab leap)[mon]? with
      | none => none
      | some len => if dayno ≥ len then monthLoop leap fuel (dayno - len) (mon + 1)
          else some (dayno, mon)

def int (n : Nat) : Arg := .int (UInt32.ofNat n)

/-- The text that `format_time` makes of the fields. -/
def timeText (t : Tm) : List UInt8 :=
  Xint.vsprintf (ascii "%s, %s %d, %d, %02d:%02d:%02d")
    [.str (days.getD t.wday []), .str (months.getD t.mon []), int t.mday,
      int (t.year + 1900).toNat, int t.hour, int t.min, int t.sec]

/-- `format_time`: the fields of `t`, and the text. -/
def formatTime (fuel : Nat) (sec : UInt64) : Option (Tm × List UInt8) :=
  let dayclock := sec.toUInt32.toNat % SECS_DAY
  let dayno := sec.toUInt32.toNat / SECS_DAY
  let wday := (dayno + 4) % 7
  match yearLoop fuel dayno EPOCH_YR with
  | none => none
  | some (yday, year) =>
      match monthLoop (LEAPYEAR year) fuel yday 0 with
      | none => none
      | some (dayno, mon) =>
          let t : Tm :=
            { sec := dayclock % 60
              min := dayclock % 3600 / 60
              hour := dayclock / 3600
              mday := dayno + 1
              mon := mon
              year := (year : Int) - 1900
              wday := wday
              yday := yday
              isdst := 0 }
          some (t, timeText t)

/-! ## Years and months -/

theorem LEAPYEAR_eq (year : Nat) : LEAPYEAR year = decide (IsLeap year) := rfl

theorem YEARSIZE_eq (year : Nat) : YEARSIZE year = yearLength year := by
  unfold YEARSIZE yearLength
  rw [LEAPYEAR_eq]
  exact if_congr decide_eq_true_iff rfl rfl

/-- The table has the lengths of the twelve months. -/
theorem ytab_getElem? (year : Nat) {mon : Nat} (h : mon < 12) :
    (ytab (LEAPYEAR year))[mon]? = some (monthLengths year mon) := by
  have hall : ∀ m : Fin 12,
      (ytab true)[m.val]? = some (if m.val + 1 = 2 then 29 else
        if m.val + 1 = 4 ∨ m.val + 1 = 6 ∨ m.val + 1 = 9 ∨ m.val + 1 = 11 then 30 else 31) ∧
      (ytab false)[m.val]? = some (if m.val + 1 = 2 then 28 else
        if m.val + 1 = 4 ∨ m.val + 1 = 6 ∨ m.val + 1 = 9 ∨ m.val + 1 = 11 then 30 else 31) := by
    decide
  obtain ⟨hleap, hcommon⟩ := hall ⟨mon, h⟩
  unfold monthLengths monthLength
  by_cases hyear : IsLeap year
  · rw [LEAPYEAR_eq, decide_eq_true hyear, if_pos hyear]
    exact hleap
  · rw [LEAPYEAR_eq, decide_eq_false hyear, if_neg hyear]
    exact hcommon

theorem yearLoop_eq (fuel dayno year : Nat) :
    yearLoop fuel dayno year = (locate yearLength fuel year dayno).map Prod.swap := by
  induction fuel generalizing dayno year with
  | zero => rfl
  | succ fuel ih =>
      rw [yearLoop, locate, YEARSIZE_eq]
      split_ifs with hin
      · exact ih _ _
      · rfl

/-- The loop over the months stays inside the table when the day is in the year. -/
theorem monthLoop_spec (year : Nat) {fuel dayno mon : Nat} (hfuel : 12 ≤ mon + fuel)
    (h : start (monthLengths year) mon + dayno < yearLength year) :
    ∃ d m, monthLoop (LEAPYEAR year) fuel dayno mon = some (d, m) ∧ m < 12 ∧
      start (monthLengths year) m + d =
        start (monthLengths year) mon + dayno ∧ d < monthLengths year m := by
  induction fuel generalizing dayno mon with
  | zero =>
      have hmon := month_lt h
      omega
  | succ fuel ih =>
      have hmon := month_lt h
      rw [monthLoop, ytab_getElem? year hmon]
      by_cases hin : monthLengths year mon ≤ dayno
      · have hsucc := start_succ (monthLengths year) mon
        have hrest : start (monthLengths year) (mon + 1) +
            (dayno - monthLengths year mon) < yearLength year := by omega
        obtain ⟨d, m, hrun, hm, hplace, hd⟩ := ih (by omega) hrest
        exact ⟨d, m, (if_pos hin).trans hrun, hm, by omega, hd⟩
      · exact ⟨dayno, mon, if_neg hin, hmon, rfl, by omega⟩

/-! ## The date and the time -/

/-- The fields of `struct tm` for a date with the time of the day. -/
def tmOf (t : DateTime) : Tm where
  sec := t.second
  min := t.minute
  hour := t.hour
  mday := t.date.day
  mon := t.date.month - 1
  year := (t.date.year : Int) - 1900
  wday := t.date.weekday
  yday := t.date.dayOfYear
  isdst := 0

/-- The start of 1970. -/
def epoch : DateTime := .midnight .epoch

/-- The seconds from the start of 1970 to a time, negative for a time before it. -/
def sinceEpoch (t : DateTime) : Int := (t.seconds : Int) - epoch.seconds

theorem seconds_epoch : epoch.seconds = 86400 * 719528 := by
  rw [epoch, DateTime.seconds_midnight, Date.dayNumber_epoch]

theorem sinceEpoch_injective : Function.Injective sinceEpoch := by
  intro t u h
  unfold sinceEpoch at h
  exact DateTime.seconds_injective (by omega)

/-- The first day of the year that the loop starts with. -/
theorem start_epochYear : start yearLength EPOCH_YR = 719528 := by
  have hstart := start_yearLength 1970
  unfold EPOCH_YR
  omega

/-- There are enough years for the days of 2^32 seconds. -/
theorem yearLoop_spec {dayno fuel : Nat} (h : dayno < 49711) (hfuel : 137 ≤ fuel) :
    ∃ yday year, yearLoop fuel dayno EPOCH_YR = some (yday, year) ∧
      start yearLength year + yday = 719528 + dayno ∧ yday < yearLength year := by
  have hstart := start_epochYear
  have hend := start_yearLength (EPOCH_YR + 137)
  have hmono := start_mono yearLength (Nat.add_le_add_left hfuel EPOCH_YR)
  have hepoch : EPOCH_YR = 1970 := rfl
  obtain ⟨year, yday, hrun, hplace, hday, -⟩ :=
    locate_spec (show start yearLength EPOCH_YR + dayno <
      start yearLength (EPOCH_YR + fuel) by omega)
  refine ⟨yday, year, ?_, by omega, hday⟩
  rw [yearLoop_eq, hrun]
  rfl

/-- The date and time of a number of seconds: the fields are those of the time that so many
seconds after the start of 1970 show, and no other time is as late. -/
theorem formatTime_spec (sec : UInt64) (hsec : sec.toNat < 4294967296) (fuel : Nat)
    (hfuel : 137 ≤ fuel) :
    ∃ tm, formatTime fuel sec = some (tm, timeText tm) ∧ tm.mon < 12 ∧
      ∃ t : DateTime, tm = tmOf t ∧ t = DateTime.tick^[sec.toNat] epoch ∧
        ∀ u, sinceEpoch u = sec.toNat → u = t := by
  have hlow : sec.toUInt32.toNat = sec.toNat := by
    rw [UInt64.toNat_toUInt32]
    exact Nat.mod_eq_of_lt hsec
  have hsplit : 86400 * (sec.toNat / SECS_DAY) + sec.toNat % SECS_DAY = sec.toNat :=
    Nat.div_add_mod sec.toNat 86400
  have hclock : sec.toNat % SECS_DAY < 86400 := Nat.mod_lt sec.toNat (by decide)
  obtain ⟨yday, year, hyears, hplace, hyday⟩ :=
    yearLoop_spec (show sec.toNat / SECS_DAY < 49711 by omega) hfuel
  have hzero := start_zero (monthLengths year)
  obtain ⟨d, m, hmonths, hm, hmonth, hd⟩ :=
    monthLoop_spec year (show 12 ≤ 0 + fuel by omega)
      (show start (monthLengths year) 0 + yday < yearLength year by omega)
  -- the time with these fields
  let date : Date := ⟨year, m + 1, d + 1, by omega, by omega, by omega, hd⟩
  let t : DateTime := ⟨date, sec.toNat % SECS_DAY / 3600, sec.toNat % SECS_DAY % 3600 / 60,
    sec.toNat % SECS_DAY % 60, by omega, by omega, by omega⟩
  have hyear : date.dayOfYear = yday := by
    show start (monthLengths year) (m + 1 - 1) + (d + 1 - 1) = yday
    rw [Nat.add_sub_cancel, Nat.add_sub_cancel, hmonth, hzero, Nat.zero_add]
  have hnumber : date.dayNumber = 719528 + sec.toNat / SECS_DAY := by
    rw [Date.dayNumber, hyear]
    exact hplace
  have hseconds : t.seconds = epoch.seconds + sec.toNat := by
    rw [seconds_epoch]
    show 86400 * date.dayNumber + 3600 * (sec.toNat % SECS_DAY / 3600) +
      60 * (sec.toNat % SECS_DAY % 3600 / 60) + sec.toNat % SECS_DAY % 60 = _
    omega
  have hweekday : date.weekday = (sec.toNat / SECS_DAY + 4) % 7 := by
    rw [Date.weekday, hnumber]
    omega
  refine ⟨tmOf t, ?_, hm, t, rfl, ?_, ?_⟩
  · simp only [formatTime, hlow, hyears, hmonths]
    have hfields : tmOf t =
        { sec := sec.toNat % SECS_DAY % 60
          min := sec.toNat % SECS_DAY % 3600 / 60
          hour := sec.toNat % SECS_DAY / 3600
          mday := d + 1
          mon := m
          year := (year : Int) - 1900
          wday := (sec.toNat / SECS_DAY + 4) % 7
          yday := yday
          isdst := 0 } := by
      rw [← hweekday, ← hyear]
      rfl
    rw [hfields]
  · apply DateTime.seconds_injective
    rw [DateTime.seconds_tick_iterate, hseconds]
  · intro u hu
    apply DateTime.seconds_injective
    unfold sinceEpoch at hu
    omega

/-- The last of February 2000. -/
theorem formatTime_leapDay :
    ∃ tm, formatTime 137 951782400 = some (tm, timeText tm) ∧ tm.mon < 12 ∧
      ∃ t : DateTime, tm = tmOf t ∧ t = DateTime.tick^[(951782400 : UInt64).toNat] epoch ∧
        ∀ u, sinceEpoch u = (951782400 : UInt64).toNat → u = t :=
  formatTime_spec 951782400 (by decide) 137 (Nat.le_refl 137)

end Util
end WrpcSw
