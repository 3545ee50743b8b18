import WrpcSw.Lib.CInt
import WrpcSw.PpPrintf.VsprintfXint

/-!
# Calibrating the delay loop (`lib/usleep.c`)

`usleep_init` counts how many turns of an empty loop go into one tick.  `verify_lpj` tells whether a
number of turns is over within a tick.  The search doubles the number until it is not, and then
adds smaller and smaller steps to the half of it.

* `grow_spec` — the first loop stops at the first power of two that is too large.
* `search_spec` — the second loop closes the gap below it.
* `usleepInit_exact` — the result is the largest number that still fits.
* `idealBoard_verify` — a machine on which the loop takes its time.
-/

namespace WrpcSw
namespace Util
namespace Usleep

open CInt PpPrintf

/-- The tick counter, which may advance with each reading, and the empty loop `__delay`. -/
structure Board (σ : Type) where
  timerGetTics : σ → σ × UInt32
  delay : σ → Int → σ

section Source

variable {σ : Type} (b : Board σ)

/-- The loop of `verify_lpj`; `none` if the tick has not begun after `fuel` readings. -/
def waitTick : Nat → σ → UInt32 → Option σ
  | 0, _, _ => none
  | fuel + 1, s, j =>
      let (s, now) := b.timerGetTics s
      if now ≠ j then waitTick fuel s j else some s

/-- `verify_lpj`. -/
def verifyLpj (fuel : Nat) (s : σ) (lpj : Int) : Option (σ × Int32) :=
  let (s, now) := b.timerGetTics s
  let j := now + 1
  match waitTick b fuel s j with
  | none => none
  | some s =>
      let (s, now) := b.timerGetTics (b.delay s lpj)
      some (s, (now - j).toInt32)

/-- The variables of `usleep_init`, and all values that they have had. -/
structure Lpj (σ : Type) where
  state : σ
  lpj : Int
  step : Int
  values : List Int

/-- The first loop. -/
def grow (fuel : Nat) : Nat → Lpj σ → Option (Lpj σ)
  | 0, _ => none
  | rounds + 1, v =>
      match verifyLpj b fuel v.state v.lpj with
      | none => none
      | some (s, j) =>
          if j = 0 then
            grow fuel rounds
              ⟨s, v.lpj + v.step, v.step * 2, v.values ++ [v.lpj + v.step, v.step * 2]⟩
          else some { v with state := s }

/-- The second loop. -/
def search (fuel : Nat) : Nat → Lpj σ → Option (Lpj σ)
  | 0, _ => none
  | rounds + 1, v =>
      if v.step = 0 then some v
      else
        let testLpj := v.lpj + v.step
        match verifyLpj b fuel v.state testLpj with
        | none => none
        | some (s, j) =>
            let step := v.step.tdiv 2
            search fuel rounds
              ⟨s, if j = 0 then testLpj else v.lpj, step, v.values ++ [testLpj, step]⟩

/-- What is printed of the result. -/
def report (lpj : Int) : List UInt8 :=
  Xint.vsprintf (ascii "Loops per jiffy: %i\n") [.int (UInt32.ofNat lpj.toNat)]

/-- What `usleep_init` leaves: `usleep_lpj`, what it prints, and the values of its variables. -/
structure Calibration (σ : Type) where
  state : σ
  usleepLpj : Int
  console : List UInt8
  values : List Int

/-- `usleep_init`.  Each of its loops makes at most `rounds` tests. -/
def usleepInit (fuel rounds : Nat) (s : σ) : Option (Calibration σ) := do
  let v ← grow b fuel rounds ⟨s, 1024, 1024, [1024, 1024]⟩
  let lpj := v.lpj.tdiv 2
  let step := v.step.tdiv 4
  let v ← search b fuel rounds ⟨v.state, lpj, step, v.values ++ [lpj, step]⟩
  some ⟨v.state, v.lpj, report v.lpj, v.values⟩

end Source

/-! ## The search for the threshold -/

section Threshold

variable {σ : Type} {b : Board σ} {fuel : Nat} {L : Int}

/-- `verify_lpj` returns, and gives zero exactly for the numbers up to `L`. -/
def HasThreshold (b : Board σ) (fuel : Nat) (L : Int) : Prop :=
  ∀ s l, InI32 l → ∃ s' j, verifyLpj b fuel s l = some (s', j) ∧ (j = 0 ↔ l ≤ L)

theorem two_pow_succ (k : Nat) : (2 : Int) ^ (k + 1) = 2 * 2 ^ k := by
  rw [pow_succ, Int.mul_comm]

theorem two_pow_pos (k : Nat) : (0 : Int) < 2 ^ k := Int.pow_pos (by decide)

/-- A round of the first loop that is over the threshold ends it. -/
theorem grow_over (hverify : HasThreshold b fuel L) (n : Nat) {v : Lpj σ} (hrange : InI32 v.lpj)
    (hover : L < v.lpj) : ∃ s, grow b fuel (n + 1) v = some { v with state := s } := by
  obtain ⟨s, j, hreturns, hzero⟩ := hverify v.state v.lpj hrange
  have hj : j ≠ 0 := fun hj => absurd (hzero.mp hj) (Int.not_le.mpr hover)
  refine ⟨s, ?_⟩
  rw [grow, hreturns]
  exact if_neg hj

/-- Any other round doubles the step. -/
theorem grow_under (hverify : HasThreshold b fuel L) (n : Nat) {v : Lpj σ} (hrange : InI32 v.lpj)
    (hunder : v.lpj ≤ L) : ∃ s, grow b fuel (n + 1) v =
      grow b fuel n
        ⟨s, v.lpj + v.step, v.step * 2, v.values ++ [v.lpj + v.step, v.step * 2]⟩ := by
  obtain ⟨s, j, hreturns, hzero⟩ := hverify v.state v.lpj hrange
  refine ⟨s, ?_⟩
  rw [grow, hreturns]
  exact if_pos (hzero.mpr hunder)

/-- A round of the second loop. -/
theorem search_round (hverify : HasThreshold b fuel L) (n : Nat) {v : Lpj σ}
    (hstep : v.step ≠ 0) (hrange : InI32 (v.lpj + v.step)) : ∃ s, search b fuel (n + 1) v =
      search b fuel n
        ⟨s, if v.lpj + v.step ≤ L then v.lpj + v.step else v.lpj, v.step.tdiv 2,
          v.values ++ [v.lpj + v.step, v.step.tdiv 2]⟩ := by
  obtain ⟨s, j, hreturns, hzero⟩ := hverify v.state (v.lpj + v.step) hrange
  refine ⟨s, ?_⟩
  rw [search, if_neg hstep]
  dsimp only
  rw [hreturns]
  dsimp only
  rw [if_congr hzero rfl rfl]

/-- Values that are in range, with two more. -/
theorem mem_append_pair {values : List Int} {x y : Int} (hvalues : ∀ w ∈ values, InI32 w)
    (hx : InI32 x) (hy : InI32 y) : ∀ w ∈ values ++ [x, y], InI32 w := by
  intro w hw
  rcases List.mem_append.mp hw with hold | hnew
  · exact hvalues w hold
  · rcases List.mem_pair.mp hnew with rfl | rfl
    · exact hx
    · exact hy

/-- Twice a number up to the threshold is in range. -/
theorem doubled_inI32 (hL : L < 2 ^ 30) {k : Nat} (hlow : 512 * 2 ^ k ≤ L) :
    InI32 (1024 * 2 ^ k) := by
  have hpos := two_pow_pos k
  unfold InI32
  omega

/-- The doubling stops at the first power of two above the threshold. -/
theorem grow_spec (hverify : HasThreshold b fuel L) (hL : L < 2 ^ 30) {n k : Nat} {s : σ}
    {values : List Int} (hlow : 512 * 2 ^ k ≤ L) (hhigh : L < 1024 * 2 ^ (k + n))
    (hvalues : ∀ w ∈ values, InI32 w) :
    ∃ v k', grow b fuel (n + 1) ⟨s, 1024 * 2 ^ k, 1024 * 2 ^ k, values⟩ = some v ∧
      v.lpj = 1024 * 2 ^ k' ∧ v.step = 1024 * 2 ^ k' ∧ 512 * 2 ^ k' ≤ L ∧ L < 1024 * 2 ^ k' ∧
      ∀ w ∈ v.values, InI32 w := by
  induction n generalizing k s values with
  | zero =>
      obtain ⟨s', hend⟩ := grow_over hverify 0 (v := ⟨s, 1024 * 2 ^ k, 1024 * 2 ^ k, values⟩)
        (doubled_inI32 hL hlow) hhigh
      exact ⟨_, k, hend, rfl, rfl, hlow, hhigh, hvalues⟩
  | succ n ih =>
      by_cases hover : L < 1024 * 2 ^ k
      · obtain ⟨s', hend⟩ := grow_over hverify (n + 1)
          (v := ⟨s, 1024 * 2 ^ k, 1024 * 2 ^ k, values⟩) (doubled_inI32 hL hlow) hover
        exact ⟨_, k, hend, rfl, rfl, hlow, hover, hvalues⟩
      · have hunder : 1024 * 2 ^ k ≤ L := Int.not_lt.mp hover
        obtain ⟨s', hround⟩ := grow_under hverify (n + 1)
          (v := ⟨s, 1024 * 2 ^ k, 1024 * 2 ^ k, values⟩) (doubled_inI32 hL hlow) hunder
        have hsum : (1024 : Int) * 2 ^ k + 1024 * 2 ^ k = 1024 * 2 ^ (k + 1) := by
          rw [two_pow_succ]
          omega
        have htwice : (1024 : Int) * 2 ^ k * 2 = 1024 * 2 ^ (k + 1) := by
          rw [two_pow_succ]
          omega
        have hlowNext : 512 * 2 ^ (k + 1) ≤ L := by
          rw [two_pow_succ]
          omega
        have hnext := doubled_inI32 hL hlowNext
        have hpower : k + 1 + n = k + (n + 1) := by omega
        dsimp only at hround
        rw [hsum, htwice] at hround
        rw [hround]
        exact ih hlowNext (hpower ▸ hhigh) (mem_append_pair hvalues hnext hnext)

/-- The step of the second loop with `m` rounds left. -/
def stepOf : Nat → Int
  | 0 => 0
  | m + 1 => 2 ^ m

theorem stepOf_half (m : Nat) : Int.tdiv (2 ^ m) 2 = stepOf m := by
  cases m with
  | zero => rfl
  | succ m => rw [two_pow_succ, stepOf, Int.mul_tdiv_cancel_left _ (by decide)]

theorem stepOf_inI32 {m : Nat} (hpow : (2 : Int) ^ m < 2 ^ 31) : InI32 (stepOf m) := by
  cases m with
  | zero =>
      unfold stepOf
      decide
  | succ m =>
      have hpos := two_pow_pos m
      rw [two_pow_succ] at hpow
      rw [stepOf]
      unfold InI32
      omega

/-- The second loop halves the gap in which the threshold is. -/
theorem search_spec (hverify : HasThreshold b fuel L) (more : Nat) {m : Nat} (s : σ) {lpj : Int}
    {values : List Int} (hzero : 0 ≤ lpj) (hlow : lpj ≤ L) (hhigh : L < lpj + 2 ^ m)
    (hbound : lpj + 2 ^ m < 2 ^ 31) (hvalues : ∀ w ∈ values, InI32 w) :
    ∃ v, search b fuel (more + m + 1) ⟨s, lpj, stepOf m, values⟩ = some v ∧ v.lpj = L ∧
      ∀ w ∈ v.values, InI32 w := by
  induction m generalizing s lpj values with
  | zero =>
      refine ⟨_, if_pos rfl, ?_, hvalues⟩
      dsimp only
      omega
  | succ m ih =>
      have hpos := two_pow_pos m
      rw [two_pow_succ] at hhigh hbound
      have htest : InI32 (lpj + 2 ^ m) := by
        unfold InI32
        omega
      obtain ⟨s', hround⟩ := search_round hverify (more + m + 1)
        (v := ⟨s, lpj, 2 ^ m, values⟩) (Int.ne_of_gt hpos) htest
      dsimp only at hround
      rw [stepOf_half] at hround
      rw [stepOf, ← Nat.add_assoc, hround]
      have hnext := mem_append_pair hvalues htest (stepOf_inI32 (m := m) (by omega))
      by_cases hfits : lpj + 2 ^ m ≤ L
      · rw [if_pos hfits]
        exact ih s' (by omega) hfits (by omega) (by omega) hnext
      · rw [if_neg hfits]
        exact ih s' hzero hlow (by omega) (by omega) hnext

/-- Between the loops `lpj` is halved, and `step` is left at half of it. -/
theorem tdiv_two (k : Nat) : Int.tdiv (1024 * 2 ^ k) 2 = 512 * 2 ^ k := by
  have hdouble : (1024 : Int) * 2 ^ k = 512 * 2 ^ k * 2 := by omega
  rw [hdouble, Int.mul_tdiv_cancel _ (by decide)]

theorem tdiv_four (k : Nat) : Int.tdiv (1024 * 2 ^ k) 4 = stepOf (k + 9) := by
  have hsplit : (2 : Int) ^ (k + 8) = 256 * 2 ^ k := by
    rw [pow_add, Int.mul_comm]
    rfl
  have hquadruple : (1024 : Int) * 2 ^ k = 256 * 2 ^ k * 4 := by omega
  rw [stepOf, hsplit, hquadruple, Int.mul_tdiv_cancel _ (by decide)]

/-- A threshold from 512 on and below 2^30 is found, and no variable leaves the range of an
`int`. -/
theorem usleepInit_exact (hverify : HasThreshold b fuel L) (hlow : 512 ≤ L) (hhigh : L < 2 ^ 30)
    (s : σ) {rounds : Nat} (hrounds : 31 ≤ rounds) :
    ∃ c, usleepInit b fuel rounds s = some c ∧ c.usleepLpj = L ∧ ∀ w ∈ c.values, InI32 w := by
  obtain ⟨n, rfl⟩ := Nat.exists_eq_add_of_le' (Nat.one_le_of_lt hrounds)
  have hpower : (2 : Int) ^ 20 ≤ 2 ^ (0 + n) := pow_le_pow_right₀ (by decide) (by omega)
  have hstart : ∀ w ∈ [(1024 : Int), 1024], InI32 w := by decide
  obtain ⟨v, k, hgrow, hlpj, hstep, hbelow, habove, hvalues⟩ :=
    grow_spec hverify hhigh (n := n) (k := 0) (s := s) hlow (by omega) hstart
  have hpos := two_pow_pos k
  have hk : k < 21 := by
    have hlt : (2 : Int) ^ k < 2 ^ 21 := by omega
    exact (pow_lt_pow_iff_right₀ (by decide)).mp hlt
  have hsplit : (2 : Int) ^ (k + 9) = 512 * 2 ^ k := by
    rw [pow_add, Int.mul_comm]
    rfl
  have hhalf : v.lpj.tdiv 2 = 512 * 2 ^ k := by rw [hlpj, tdiv_two]
  have hquarter : v.step.tdiv 4 = stepOf (k + 9) := by rw [hstep, tdiv_four]
  have hmiddle := mem_append_pair hvalues (x := v.lpj.tdiv 2) (y := v.step.tdiv 4)
    (by rw [hhalf]; unfold InI32; omega)
    (by rw [hquarter]; exact stepOf_inI32 (by omega))
  have hgap : L < 512 * 2 ^ k + 2 ^ (k + 9) := by omega
  obtain ⟨w, hsearch, hfound, hall⟩ := search_spec hverify (n - (k + 9)) v.state (by omega) hbelow
    hgap (by omega) hmiddle
  have hcount : n - (k + 9) + (k + 9) + 1 = n + 1 := by omega
  rw [hcount, ← hhalf, ← hquarter] at hsearch
  have hinit : usleepInit b fuel (n + 1) s = some ⟨w.state, w.lpj, report w.lpj, w.values⟩ := by
    have hfirst : grow b fuel (n + 1) ⟨s, 1024, 1024, [1024, 1024]⟩ = some v := hgrow
    rw [usleepInit, hfirst]
    dsimp only [Option.bind_eq_bind, Option.bind_some]
    rw [hsearch]
    rfl
  exact ⟨_, hinit, hfound, hall⟩

end Threshold

/-! ## An ideal machine -/

/-- A turn of the loop and a reading of the counter take one unit of time each, and a tick takes
`L + 2` of them. -/
def idealBoard (L : Nat) : Board Nat where
  timerGetTics t := (t + 1, UInt32.ofNat (t / (L + 2)))
  delay t count := t + count.toNat

/-- The counter is read until tick `q + 1` begins, `d` units of time from now. -/
theorem waitTick_ideal (L q : Nat) {d t fuel : Nat} (hbegin : t + d = (L + 2) * (q + 1))
    (hd : d ≤ L + 2) (hfuel : d < fuel) :
    waitTick (idealBoard L) fuel t (UInt32.ofNat q + 1) = some ((L + 2) * (q + 1) + 1) := by
  induction d generalizing t fuel with
  | zero =>
      obtain ⟨more, rfl⟩ := Nat.exists_eq_add_of_le' hfuel
      have hnow : UInt32.ofNat (t / (L + 2)) = UInt32.ofNat q + 1 := by
        rw [← Nat.add_zero t, hbegin, Nat.mul_div_cancel_left _ (by omega), UInt32.ofNat_add]
        rfl
      rw [Nat.add_zero] at hbegin
      rw [waitTick, ← hbegin]
      exact if_neg (not_not_intro hnow)
  | succ d ih =>
      obtain ⟨more, rfl⟩ := Nat.exists_eq_add_of_le' (Nat.one_le_of_lt hfuel)
      have htick : t / (L + 2) = q := by
        rw [Nat.mul_succ] at hbegin
        exact Nat.div_eq_of_lt_le (by rw [Nat.mul_comm]; omega)
          (by rw [Nat.mul_comm, Nat.mul_succ]; omega)
      have hnow : UInt32.ofNat (t / (L + 2)) ≠ UInt32.ofNat q + 1 := by
        rw [htick]
        intro heq
        exact absurd (UInt32.left_eq_add.mp heq) (by decide)
      have hnext : waitTick (idealBoard L) more (t + 1) (UInt32.ofNat q + 1) =
          some ((L + 2) * (q + 1) + 1) := ih (by omega) (by omega) (by omega)
      rw [waitTick]
      exact (if_pos hnow).trans hnext

/-- On an ideal machine `L` turns of the loop fit into a tick. -/
theorem idealBoard_verify (L : Nat) : HasThreshold (idealBoard L) (L + 3) L := by
  intro t l hl
  have hquot := Nat.div_add_mod t (L + 2)
  have hmod := Nat.mod_lt t (show 0 < L + 2 by omega)
  obtain ⟨q, hq⟩ : ∃ q, q = t / (L + 2) := ⟨_, rfl⟩
  rw [← hq] at hquot
  obtain ⟨start, hstart⟩ : ∃ start, start = (L + 2) * (q + 1) := ⟨_, rfl⟩
  have hstart' : start = (L + 2) * q + (L + 2) := by rw [hstart, Nat.mul_succ]
  have hbegin : t + 1 + (start - (t + 1)) = (L + 2) * (q + 1) := by omega
  have hwait : waitTick (idealBoard L) (L + 3) (t + 1) (UInt32.ofNat q + 1) = some (start + 1) := by
    rw [hstart]
    exact waitTick_ideal L q hbegin (by omega) (by omega)
  have hlater : (start + 1 + l.toNat) / (L + 2) = q + 1 + (1 + l.toNat) / (L + 2) := by
    rw [hstart, Nat.add_assoc, Nat.mul_add_div (by omega)]
  have hticks : UInt32.ofNat ((start + 1 + l.toNat) / (L + 2)) - (UInt32.ofNat q + 1) =
      UInt32.ofNat ((1 + l.toNat) / (L + 2)) := by
    have hone : UInt32.ofNat (q + 1) = UInt32.ofNat q + 1 := UInt32.ofNat_add q 1
    rw [hlater, UInt32.ofNat_add, hone, UInt32.add_comm, UInt32.add_sub_cancel]
  refine ⟨start + 1 + l.toNat + 1, (UInt32.ofNat ((1 + l.toNat) / (L + 2))).toInt32, ?_, ?_⟩
  · have hnow : (idealBoard L).timerGetTics t = (t + 1, UInt32.ofNat q) := by
      rw [hq]
      rfl
    rw [verifyLpj, hnow]
    dsimp only
    rw [hwait, ← hticks]
    rfl
  · have hsmall : (1 + l.toNat) / (L + 2) < 2 ^ 32 := by
      unfold InI32 at hl
      exact Nat.lt_of_le_of_lt (Nat.div_le_self _ _) (by omega)
    constructor
    · intro hzero
      have hword := congrArg Int32.toUInt32 hzero
      rw [UInt32.toUInt32_toInt32] at hword
      have hnat := congrArg UInt32.toNat hword
      rw [UInt32.toNat_ofNat_of_lt' hsmall] at hnat
      have hfits := Nat.lt_of_div_eq_zero (by omega) hnat
      omega
    · intro hle
      have hnone : (1 + l.toNat) / (L + 2) = 0 := Nat.div_eq_of_lt (by omega)
      rw [hnone]
      rfl

theorem usleepInit_exact_ideal :
    ∃ c, usleepInit (idealBoard 20800) 20803 31 0 = some c ∧ c.usleepLpj = 20800 ∧
      ∀ w ∈ c.values, InI32 w :=
  usleepInit_exact (idealBoard_verify 20800) (by decide) (by decide) 0 (by decide)

end Usleep
end Util
end WrpcSw
