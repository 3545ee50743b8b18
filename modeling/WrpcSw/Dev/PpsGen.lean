import Mathlib.Order.Monotone.Basic
import Mathlib.Tactic.Positivity
import WrpcSw.Lib.BitField

/-!
# The time of the PPS generator (`dev/pps_gen.c`)

The seconds are in two registers and the cycles of the reference clock in a third,
and the clock runs on while the processor reads them.  `shw_pps_gen_get_time` reads
the seconds before and after the cycles and starts again if they differ.

The registers answer one access after the other, and the log of the accesses is the
state that the reads pass on: the access after a log `log` happens at the instant
`log.length`.

* `shwPpsGenGetTime_pass` — a call that returns has read all of its last pass at one
  value of the seconds.
* `shwPpsGenGetTime_untorn` — what it returns is the time at its last read of the
  cycle register.
* `shwPpsGenGetTime_returns` — it returns after the first pass without a carry.
-/

namespace WrpcSw
namespace PpsGen

/-- `REF_CLOCK_FREQ_HZ`: the cycles of a second. -/
def REF_CLOCK_FREQ_HZ : Nat := 125000000

/-- `REF_CLOCK_PERIOD_PS`. -/
def REF_CLOCK_PERIOD_PS : Int := 8000

/-- The registers of the time. -/
inductive PpsgReg
  | cntrNsec
  | cntrUtclo
  | cntrUtchi
deriving DecidableEq, Repr

/-- The answer of each register at each instant. -/
abbrev PpsgRegs := Nat → PpsgReg → UInt32

/-! ## The driver -/

def ppsgRead (regs : PpsgRegs) (reg : PpsgReg) (log : List PpsgReg) : UInt32 × List PpsgReg :=
  (regs log.length reg, log ++ [reg])

def ppsGetUtc (regs : PpsgRegs) (log : List PpsgReg) : UInt64 × List PpsgReg :=
  let (low, log) := ppsgRead regs .cntrUtclo log
  let (high, log) := ppsgRead regs .cntrUtchi log
  let high := high &&& 0xFF
  (low.toUInt64 ||| high.toUInt64 <<< 32, log)

/-- The nanoseconds of a cycle count; the product of two `int64_t` does not overflow. -/
def nanosecondsOf (nsCnt : UInt32) : UInt32 :=
  UInt32.ofInt (((nsCnt.toNat : Int) * REF_CLOCK_PERIOD_PS).tdiv 1000)

/-- The loop ends when both reads of the seconds agree; `none` is a call that has not
returned after `fuel` passes. -/
def shwPpsGenGetTime (regs : PpsgRegs) : Nat → List PpsgReg →
    Option ((UInt64 × UInt32) × List PpsgReg)
  | 0, _ => none
  | fuel + 1, log =>
      let (sec1, log) := ppsGetUtc regs log
      let (nsCnt, log) := ppsgRead regs .cntrNsec log
      let nsCnt := nsCnt &&& 0xFFFFFFF
      let (sec2, log) := ppsGetUtc regs log
      if sec2 ≠ sec1 then shwPpsGenGetTime regs fuel log
      else some ((sec2, nanosecondsOf nsCnt), log)

/-! ## The hardware time -/

/-- The time of the hardware: seconds and cycles. -/
structure HwTime where
  sec : Nat
  cycle : Nat
  cycle_lt : cycle < REF_CLOCK_FREQ_HZ

/-- The cycles since second zero. -/
def HwTime.ticks (t : HwTime) : Nat := REF_CLOCK_FREQ_HZ * t.sec + t.cycle

theorem HwTime.sec_eq_div (t : HwTime) : t.sec = t.ticks / REF_CLOCK_FREQ_HZ := by
  have hlt := t.cycle_lt
  unfold ticks REF_CLOCK_FREQ_HZ at *
  omega

theorem HwTime.sec_mono {s t : HwTime} (h : s.ticks ≤ t.ticks) : s.sec ≤ t.sec := by
  rw [s.sec_eq_div, t.sec_eq_div]
  exact Nat.div_le_div_right h

/-- The seconds of a clock that does not go back. -/
theorem HwTime.sec_le {clock : Nat → HwTime} (hmono : Monotone fun k => (clock k).ticks)
    {i j : Nat} (h : i ≤ j) : (clock i).sec ≤ (clock j).sec :=
  HwTime.sec_mono (hmono h)

/-- The registers show the time `clock` of each instant.  The unused bits of the cycle
register and of the high word of the seconds are arbitrary. -/
structure Shows (regs : PpsgRegs) (clock : Nat → HwTime) : Prop where
  nsec : ∀ k, (regs k .cntrNsec).toNat % 2 ^ 28 = (clock k).cycle
  utclo : ∀ k, (regs k .cntrUtclo).toNat = (clock k).sec % 2 ^ 32
  utchi : ∀ k, (regs k .cntrUtchi).toNat % 2 ^ 8 = (clock k).sec / 2 ^ 32 % 2 ^ 8

/-- The last access to `reg` in `log` is the one at the instant `k`. -/
def LastRead (reg : PpsgReg) (log : List PpsgReg) (k : Nat) : Prop :=
  log[k]? = some reg ∧ ∀ j, k < j → log[j]? ≠ some reg

/-! ## One pass -/

/-- The accesses of a pass before its second read of the seconds. -/
def firstReads : List PpsgReg := [.cntrUtclo, .cntrUtchi, .cntrNsec]

/-- The accesses of one pass of the loop. -/
def passReads : List PpsgReg := firstReads ++ [.cntrUtclo, .cntrUtchi]

/-- The seconds put together from the low word at one time and the high word at another. -/
def joinedSec (low high : HwTime) : Nat := low.sec % 2 ^ 32 + 2 ^ 32 * (high.sec / 2 ^ 32 % 2 ^ 8)

theorem ppsGetUtc_log (regs : PpsgRegs) (log : List PpsgReg) :
    (ppsGetUtc regs log).2 = log ++ [.cntrUtclo, .cntrUtchi] := by
  simp [ppsGetUtc, ppsgRead]

/-- One pass of the loop. -/
theorem shwPpsGenGetTime_succ (regs : PpsgRegs) (fuel : Nat) (log : List PpsgReg) :
    shwPpsGenGetTime regs (fuel + 1) log =
      if (ppsGetUtc regs (log ++ firstReads)).1 ≠ (ppsGetUtc regs log).1 then
        shwPpsGenGetTime regs fuel (log ++ passReads)
      else some (((ppsGetUtc regs (log ++ firstReads)).1,
        nanosecondsOf (regs (log.length + 2) .cntrNsec &&& 0xFFFFFFF)), log ++ passReads) := by
  have hfirst : (ppsGetUtc regs log).2 ++ [.cntrNsec] = log ++ firstReads := by
    simp [ppsGetUtc_log, firstReads]
  have hpass : (ppsGetUtc regs (log ++ firstReads)).2 = log ++ passReads := by
    rw [ppsGetUtc_log, List.append_assoc, passReads]
  have hlength : (ppsGetUtc regs log).2.length = log.length + 2 := by
    simp [ppsGetUtc_log]
  simp only [shwPpsGenGetTime, ppsgRead, hfirst, hpass, hlength]

/-- A carry between two reads of the seconds shows, as long as the seconds between the
first and the last of the four accesses advance by less than the range of the low word. -/
theorem joinedSec_untorn {t₁ t₂ t₃ t₄ : HwTime} (h₁₂ : t₁.sec ≤ t₂.sec) (h₂₃ : t₂.sec ≤ t₃.sec)
    (h₃₄ : t₃.sec ≤ t₄.sec) (hadvance : t₄.sec < t₁.sec + 2 ^ 32)
    (hequal : joinedSec t₃ t₄ = joinedSec t₁ t₂) : t₁.sec = t₃.sec := by
  unfold joinedSec at hequal
  omega

theorem joinedSec_same {t₁ t₂ : HwTime} (h : t₁.sec = t₂.sec) :
    joinedSec t₁ t₂ = t₁.sec % 2 ^ 40 := by
  unfold joinedSec
  rw [← h]
  omega

section Pass

variable {regs : PpsgRegs} {clock : Nat → HwTime} (hshows : Shows regs clock)

include hshows

theorem toNat_ppsGetUtc (log : List PpsgReg) :
    (ppsGetUtc regs log).1.toNat = joinedSec (clock log.length) (clock (log.length + 1)) := by
  have hlow := hshows.utclo log.length
  have hhigh := hshows.utchi (log.length + 1)
  have hmask : (regs (log.length + 1) .cntrUtchi &&& 0xFF).toNat =
      (clock (log.length + 1)).sec / 2 ^ 32 % 2 ^ 8 := by
    rw [← hhigh]
    exact BitField.toNat_and_mask _ rfl
  simp only [ppsGetUtc, ppsgRead, List.length_append, List.length_singleton]
  rw [BitField.toNat_joinWords, hlow, hmask, joinedSec]

theorem toNat_nanosecondsOf (k : Nat) :
    (nanosecondsOf (regs k .cntrNsec &&& 0xFFFFFFF)).toNat = 8 * (clock k).cycle := by
  have hcycle : (regs k .cntrNsec &&& 0xFFFFFFF).toNat = (clock k).cycle := by
    rw [← hshows.nsec k]
    exact BitField.toNat_and_mask _ rfl
  have hlt := (clock k).cycle_lt
  have hdiv : ((clock k).cycle * 8000 : Int).tdiv 1000 = (8 * (clock k).cycle : Nat) := by
    rw [Int.tdiv_eq_ediv_of_nonneg (by positivity)]
    omega
  unfold REF_CLOCK_FREQ_HZ at hlt
  rw [nanosecondsOf, hcycle, REF_CLOCK_PERIOD_PS, hdiv, UInt32.ofInt, UInt32.toNat_ofNat']
  omega

end Pass

/-- The cycle register is read third in a pass. -/
theorem lastRead_passReads (log : List PpsgReg) :
    LastRead .cntrNsec (log ++ passReads) (log.length + 2) := by
  constructor
  · rw [List.getElem?_append_right (by omega), Nat.add_sub_cancel_left]
    rfl
  · intro j hj
    rw [List.getElem?_append_right (by omega)]
    obtain ⟨d, hd⟩ := Nat.exists_eq_add_of_le (show 3 ≤ j - log.length by omega)
    rw [hd]
    rcases d with _ | _ | d
    · exact nofun
    · exact nofun
    · rw [List.getElem?_eq_none (by simp [passReads, firstReads]; omega)]
      exact nofun

/-! ## A call -/

/-- The seconds and nanoseconds `time` are those of `t`; the registers have 40 bits for the
seconds. -/
structure Represents (time : UInt64 × UInt32) (t : HwTime) : Prop where
  sec : time.1.toNat = t.sec % 2 ^ 40
  nsec : time.2.toNat = 8 * t.cycle

/-- In a call that starts after `n` accesses, the seconds advance by less than the range of
their low word over each pass of the loop. -/
def PassesShort (clock : Nat → HwTime) (n : Nat) : Prop :=
  ∀ pass, (clock (n + 5 * pass + 4)).sec < (clock (n + 5 * pass)).sec + 2 ^ 32

section Call

variable {regs : PpsgRegs} {clock : Nat → HwTime} (hshows : Shows regs clock)
  (hmono : Monotone fun k => (clock k).ticks)

include hshows hmono

/-- What a call returns is the time at the third access of one of its passes, the last. -/
theorem shwPpsGenGetTime_pass {fuel : Nat} {log log' : List PpsgReg} {time : UInt64 × UInt32}
    (hshort : PassesShort clock log.length)
    (hreturn : shwPpsGenGetTime regs fuel log = some (time, log')) :
    ∃ pass, LastRead .cntrNsec log' (log.length + 5 * pass + 2) ∧
      Represents time (clock (log.length + 5 * pass + 2)) := by
  induction fuel generalizing log with
  | zero => exact absurd hreturn nofun
  | succ fuel ih =>
      rw [shwPpsGenGetTime_succ] at hreturn
      by_cases hagain : (ppsGetUtc regs (log ++ firstReads)).1 ≠ (ppsGetUtc regs log).1
      · rw [if_pos hagain] at hreturn
        have hlength : (log ++ passReads).length = log.length + 5 := List.length_append
        have hnext (pass : Nat) :
            log.length + 5 + 5 * pass = log.length + 5 * (pass + 1) := by ring
        obtain ⟨pass, hlast, hrepresents⟩ := @ih (log ++ passReads)
          (fun pass => by rw [hlength, hnext]; exact hshort (pass + 1)) hreturn
        rw [hlength, hnext] at hlast hrepresents
        exact ⟨pass + 1, hlast, hrepresents⟩
      · rw [if_neg hagain] at hreturn
        obtain ⟨htime, hlog⟩ := Prod.mk.inj (Option.some.inj hreturn)
        have hlength : (log ++ firstReads).length = log.length + 3 := List.length_append
        have hequal := congrArg UInt64.toNat (not_not.mp hagain)
        rw [toNat_ppsGetUtc hshows, toNat_ppsGetUtc hshows, hlength] at hequal
        -- the seconds are those of the first access at all of the first four
        have hsame : (clock log.length).sec = (clock (log.length + 3)).sec :=
          joinedSec_untorn (HwTime.sec_le hmono (Nat.le_succ _)) (HwTime.sec_le hmono (by omega))
            (HwTime.sec_le hmono (Nat.le_succ _)) (hshort 0) hequal
        have hhigh := HwTime.sec_le hmono (show log.length ≤ log.length + 1 by omega)
        have hcarry := HwTime.sec_le hmono (show log.length + 1 ≤ log.length + 2 by omega)
        have hsecond := HwTime.sec_le hmono (show log.length + 2 ≤ log.length + 3 by omega)
        refine ⟨0, hlog ▸ lastRead_passReads log, ?_, ?_⟩
        · rw [← htime, toNat_ppsGetUtc hshows, hlength, hequal, joinedSec_same (by omega)]
          show (clock log.length).sec % 2 ^ 40 = (clock (log.length + 2)).sec % 2 ^ 40
          rw [show (clock log.length).sec = (clock (log.length + 2)).sec by omega]
        · rw [← htime, toNat_nanosecondsOf hshows]

/-- A call returns, at the latest, after the first pass over which the seconds stay. -/
theorem shwPpsGenGetTime_returns {fuel pass : Nat} {log : List PpsgReg} (hpass : pass < fuel)
    (hstays : (clock (log.length + 5 * pass)).sec = (clock (log.length + 5 * pass + 4)).sec) :
    (shwPpsGenGetTime regs fuel log).isSome := by
  induction fuel generalizing log pass with
  | zero => exact absurd hpass (Nat.not_lt_zero _)
  | succ fuel ih =>
      rw [shwPpsGenGetTime_succ]
      by_cases hagain : (ppsGetUtc regs (log ++ firstReads)).1 ≠ (ppsGetUtc regs log).1
      · rw [if_pos hagain]
        have hlength : (log ++ passReads).length = log.length + 5 := List.length_append
        cases pass with
        | zero =>
            have hfirst : (log ++ firstReads).length = log.length + 3 := List.length_append
            have hhigh := HwTime.sec_le hmono (show log.length ≤ log.length + 1 by omega)
            have hcarry := HwTime.sec_le hmono (show log.length + 1 ≤ log.length + 3 by omega)
            have hsecond := HwTime.sec_le hmono (show log.length + 3 ≤ log.length + 4 by omega)
            have hend : (clock log.length).sec = (clock (log.length + 4)).sec := hstays
            have hbefore : (clock log.length).sec = (clock (log.length + 1)).sec := by omega
            have hafter : (clock (log.length + 3)).sec = (clock (log.length + 4)).sec := by omega
            refine absurd (UInt64.toNat_inj.mp ?_) hagain
            rw [toNat_ppsGetUtc hshows, toNat_ppsGetUtc hshows, hfirst, joinedSec_same hafter,
              joinedSec_same hbefore, hafter, ← hend]
        | succ pass =>
            refine @ih pass (log ++ passReads) (Nat.lt_of_succ_lt_succ hpass) ?_
            rwa [hlength, show log.length + 5 + 5 * pass = log.length + 5 * (pass + 1) by ring]
      · rw [if_neg hagain]
        rfl

/-- One repetition is enough when two passes take less than a second. -/
theorem shwPpsGenGetTime_repeats_once {log : List PpsgReg}
    (hfast : (clock (log.length + 9)).ticks < (clock log.length).ticks + REF_CLOCK_FREQ_HZ) :
    (shwPpsGenGetTime regs 2 log).isSome := by
  have hfirst := HwTime.sec_le hmono (show log.length ≤ log.length + 4 by omega)
  have hbetween := HwTime.sec_le hmono (show log.length + 4 ≤ log.length + 5 by omega)
  have hsecond := HwTime.sec_le hmono (show log.length + 5 ≤ log.length + 9 by omega)
  have hone : (clock (log.length + 9)).sec ≤ (clock log.length).sec + 1 := by
    have hlow := (clock log.length).cycle_lt
    unfold HwTime.ticks REF_CLOCK_FREQ_HZ at *
    omega
  by_cases hstays : (clock log.length).sec = (clock (log.length + 4)).sec
  · exact shwPpsGenGetTime_returns hshows hmono Nat.zero_lt_two hstays
  · have hlater : (clock (log.length + 5)).sec = (clock (log.length + 9)).sec := by omega
    exact shwPpsGenGetTime_returns hshows hmono Nat.one_lt_two hlater

end Call

/-- Reading the time is never torn: whenever a call returns, its seconds and nanoseconds are
those of the hardware at the last access to the cycle register, wherever carries fell between
the accesses. -/
theorem shwPpsGenGetTime_untorn {regs : PpsgRegs} {clock : Nat → HwTime}
    (hshows : Shows regs clock) (hmono : Monotone fun k => (clock k).ticks) {fuel : Nat}
    {log log' : List PpsgReg} {sec : UInt64} {nsec : UInt32}
    (hshort : PassesShort clock log.length)
    (hreturn : shwPpsGenGetTime regs fuel log = some ((sec, nsec), log')) :
    ∃ k, LastRead .cntrNsec log' k ∧ sec.toNat = (clock k).sec % 2 ^ 40 ∧
      nsec.toNat = 8 * (clock k).cycle := by
  obtain ⟨pass, hlast, hrepresents⟩ := shwPpsGenGetTime_pass hshows hmono hshort hreturn
  exact ⟨_, hlast, hrepresents.sec, hrepresents.nsec⟩

/-- The registers of a clock. -/
def regsOf (clock : Nat → HwTime) : PpsgRegs := fun k reg =>
  match reg with
  | .cntrNsec => UInt32.ofNat (clock k).cycle
  | .cntrUtclo => UInt32.ofNat ((clock k).sec % 2 ^ 32)
  | .cntrUtchi => UInt32.ofNat ((clock k).sec / 2 ^ 32 % 2 ^ 8)

theorem shows_regsOf (clock : Nat → HwTime) : Shows (regsOf clock) clock where
  nsec k := by
    have hlt := (clock k).cycle_lt
    unfold REF_CLOCK_FREQ_HZ at hlt
    simp only [regsOf, UInt32.toNat_ofNat']
    omega
  utclo k := by
    simp only [regsOf, UInt32.toNat_ofNat']
    omega
  utchi k := by
    simp only [regsOf, UInt32.toNat_ofNat']
    omega

/-- A clock whose low word of the seconds turns over between the second and the third access. -/
def carryClock (k : Nat) : HwTime :=
  if k < 2 then ⟨2 ^ 32 - 1, 124999999, by decide⟩ else ⟨2 ^ 32, 7, by decide⟩

theorem monotone_carryClock : Monotone fun k => (carryClock k).ticks := by
  intro i j h
  simp only [carryClock]
  split_ifs with hi hj hj
  · exact le_rfl
  · decide
  · exact absurd hj (by omega)
  · exact le_rfl

theorem shwPpsGenGetTime_untorn_carry :
    ∃ k, LastRead .cntrNsec (passReads ++ passReads) k ∧
      (4294967296 : UInt64).toNat = (carryClock k).sec % 2 ^ 40 ∧
      (56 : UInt32).toNat = 8 * (carryClock k).cycle :=
  have hreturn : shwPpsGenGetTime (regsOf carryClock) 2 [] =
      some ((4294967296, 56), passReads ++ passReads) := by decide
  have hshort : PassesShort carryClock (List.length ([] : List PpsgReg)) := fun pass => by
    simp only [carryClock]
    split_ifs <;> simp
  shwPpsGenGetTime_untorn (shows_regsOf carryClock) monotone_carryClock hshort hreturn

end PpsGen
end WrpcSw
