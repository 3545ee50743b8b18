import WrpcSw.Lib.Run
import WrpcSw.Softpll.ExternalPhase
import WrpcSw.Softpll.Helper
import WrpcSw.Softpll.Lowpass
import WrpcSw.Softpll.PhaseShift

/-!
# The lock detector and what the loops report of it

Three loops rest their lock decision on one saturating counter.  It locks at
`lockSamples`, drops at `delockSamples` and is reset only when it drops, so the
counts below hold for any interleaving of good and bad samples.

* `LdStep` — the four things one sample can do; every other lemma starts from it.
* `lock_hysteresis` — how many samples a lock, and the loss of a lock, takes.
* `lock_events` — where `lock_changed`, the return value and the three loops report
  what happened.  On the way up the counter passes `delockSamples`, and a bad sample
  there is reported as the loss of a lock that was not there.
-/

namespace WrpcSw
namespace Softpll

open CInt Run

/-! ## One sample -/

/-- The detector after one sample. -/
def ldStep (ld : SpllLockDet) (y : Int) : SpllLockDet := (ldUpdate ld y).1

/-- An accepted sample brings the counter to `lockSamples`, or finds it there. -/
def SpllLockDet.Fills (ld : SpllLockDet) (y : Int) : Prop :=
  ld.accepts y ∧ (ld.lockCnt + 1 = ld.lockSamples ∨ ld.lockCnt = ld.lockSamples)

/-- A rejected sample brings the counter down to `delockSamples`, or finds it there. -/
def SpllLockDet.Drops (ld : SpllLockDet) (y : Int) : Prop :=
  ¬ ld.accepts y ∧ (ld.lockCnt = ld.delockSamples ∨ ld.lockCnt = ld.delockSamples + 1)

instance (ld : SpllLockDet) (y : Int) : Decidable (ld.Fills y) :=
  inferInstanceAs (Decidable (_ ∧ _))
instance (ld : SpllLockDet) (y : Int) : Decidable (ld.Drops y) :=
  inferInstanceAs (Decidable (_ ∧ _))

/-- What one sample can do to the detector, and what is returned. -/
inductive LdStep (ld : SpllLockDet) (y : Int) : SpllLockDet × Int → Prop
  | fills (h : ld.Fills y) :
      LdStep ld y ({ ld with lockCnt := ld.lockSamples, lockChanged := true, locked := true }, 1)
  | counts (h : ld.accepts y) (hfills : ¬ ld.Fills y) :
      LdStep ld y
        ({ ld with
            lockCnt := if ld.lockCnt < ld.lockSamples then ld.lockCnt + 1 else ld.lockCnt
            lockChanged := false }, if ld.locked then 1 else 0)
  | drops (h : ld.Drops y) :
      LdStep ld y ({ ld with lockCnt := 0, lockChanged := true, locked := false }, -1)
  | lowers (h : ¬ ld.accepts y) (hdrops : ¬ ld.Drops y) :
      LdStep ld y
        ({ ld with
            lockCnt := if ld.lockCnt > ld.delockSamples then ld.lockCnt - 1 else ld.lockCnt
            lockChanged := false }, if ld.locked then 1 else 0)

theorem ldUpdate_step (ld : SpllLockDet) (y : Int) : LdStep ld y (ldUpdate ld y) := by
  unfold ldUpdate
  by_cases haccepts : ld.accepts y
  · simp only [haccepts, if_true]
    by_cases hfull : (if ld.lockCnt < ld.lockSamples then ld.lockCnt + 1 else ld.lockCnt) =
        ld.lockSamples
    · rw [if_pos hfull, hfull]
      refine LdStep.fills ⟨haccepts, ?_⟩
      split_ifs at hfull with hroom
      · exact Or.inl hfull
      · exact Or.inr hfull
    · rw [if_neg hfull]
      refine LdStep.counts haccepts fun hfills => hfull ?_
      rcases hfills.2 with hlast | hthere
      · rw [if_pos (by omega), hlast]
      · rw [if_neg (by omega), hthere]
  · simp only [haccepts, if_false]
    by_cases hlow : (if ld.lockCnt > ld.delockSamples then ld.lockCnt - 1 else ld.lockCnt) =
        ld.delockSamples
    · rw [if_pos hlow]
      refine LdStep.drops ⟨haccepts, ?_⟩
      split_ifs at hlow with habove
      · exact Or.inr (by omega)
      · exact Or.inl hlow
    · rw [if_neg hlow]
      refine LdStep.lowers haccepts fun hdrops => hlow ?_
      rcases hdrops.2 with hthere | hlast
      · rw [if_neg (by omega), hthere]
      · rw [if_pos (by omega), hlast, add_sub_cancel_right]

/-- For a sample above `INT_MIN`, `abs` does not overflow. -/
theorem accepts_iff (ld : SpllLockDet) {y : Int} (hlow : -2 ^ 31 < y) (hhigh : y < 2 ^ 31) :
    ld.accepts y ↔ |y| ≤ ld.threshold := by
  have hmag : |y| < 2 ^ 31 := abs_lt.mpr ⟨hlow, hhigh⟩
  have hnonneg := abs_nonneg y
  unfold SpllLockDet.accepts
  rw [i32_eq_self (by unfold InI32; omega)]

/-! ## The counter over a run -/

/-- The settings of a usable detector. -/
structure SpllLockDet.Configured (ld : SpllLockDet) : Prop where
  delock_pos : 0 < ld.delockSamples
  delock_lt : ld.delockSamples < ld.lockSamples

/-- The counter stays in its range, and on the side of the thresholds that the flag
`locked` says. -/
structure SpllLockDet.Counts (ld : SpllLockDet) : Prop where
  nonneg : 0 ≤ ld.lockCnt
  le : ld.lockCnt ≤ ld.lockSamples
  locked : ld.locked = true → ld.delockSamples < ld.lockCnt
  unlocked : ld.locked = false → ld.lockCnt < ld.lockSamples

/-- A detector with the settings of `init`, somewhere in a run. -/
structure SpllLockDet.Runs (init ld : SpllLockDet) : Prop where
  settings : ld.SameSettings init
  counts : ld.Counts

/-- The accepted samples of a list. -/
def SpllLockDet.inside (ld : SpllLockDet) (ys : List Int) : Nat :=
  ys.countP fun y => decide (ld.accepts y)

/-- The rejected samples of a list. -/
def SpllLockDet.outside (ld : SpllLockDet) (ys : List Int) : Nat :=
  ys.countP fun y => decide (¬ ld.accepts y)

section Hysteresis

variable {init ld : SpllLockDet}

theorem inside_singleton {y : Int} (h : ld.accepts y) : ld.inside [y] = 1 := by
  unfold SpllLockDet.inside
  rw [List.countP_singleton, decide_eq_true h, if_pos rfl]

theorem outside_singleton {y : Int} (h : ¬ ld.accepts y) : ld.outside [y] = 1 := by
  unfold SpllLockDet.outside
  rw [List.countP_singleton, decide_eq_true h, if_pos rfl]

theorem inside_cons (y : Int) (ys : List Int) :
    ld.inside (y :: ys) = ld.inside [y] + ld.inside ys := by
  unfold SpllLockDet.inside
  rw [← List.countP_append, List.singleton_append]

theorem outside_cons (y : Int) (ys : List Int) :
    ld.outside (y :: ys) = ld.outside [y] + ld.outside ys := by
  unfold SpllLockDet.outside
  rw [← List.countP_append, List.singleton_append]

theorem SpllLockDet.SameSettings.accepts (h : ld.SameSettings init) (y : Int) :
    ld.accepts y ↔ init.accepts y := by
  unfold SpllLockDet.accepts
  rw [h.2.2]

theorem runs_init (hconf : init.Configured) : init.Runs (ldInit init) := by
  have hpos := hconf.delock_pos
  have hlt := hconf.delock_lt
  refine ⟨⟨rfl, rfl, rfl⟩, ⟨le_refl _, ?_, ?_, ?_⟩⟩
  · show 0 ≤ init.lockSamples
    omega
  · intro h
    cases h
  · intro _
    show 0 < init.lockSamples
    omega

theorem counts_step (hconf : ld.Configured) (h : ld.Counts) (y : Int) :
    (ldStep ld y).Counts := by
  have hpos := hconf.delock_pos
  have hlt := hconf.delock_lt
  obtain ⟨hnonneg, hle, hlocked, hunlocked⟩ := h
  have hstep := ldUpdate_step ld y
  unfold ldStep
  generalize ldUpdate ld y = r at hstep
  cases hstep with
  | fills hfills =>
      exact ⟨by simp; omega, by simp, fun _ => hlt, fun h => by cases h⟩
  | counts haccepts hfills =>
      have hroom : ld.lockCnt + 1 ≠ ld.lockSamples ∧ ld.lockCnt ≠ ld.lockSamples :=
        ⟨fun h => hfills ⟨haccepts, Or.inl h⟩, fun h => hfills ⟨haccepts, Or.inr h⟩⟩
      have hbelow : ld.lockCnt < ld.lockSamples := by omega
      simp only [hbelow, if_true]
      refine ⟨by simp; omega, by simp; omega, ?_, ?_⟩
      · intro h
        have := hlocked h
        simp only
        omega
      · intro _
        simp only
        omega
  | drops hdrops =>
      exact ⟨by simp, by simp; omega, fun h => by simp at h, fun _ => by simp; omega⟩
  | lowers haccepts hdrops =>
      have haway : ld.lockCnt ≠ ld.delockSamples ∧ ld.lockCnt ≠ ld.delockSamples + 1 :=
        ⟨fun h => hdrops ⟨haccepts, Or.inl h⟩, fun h => hdrops ⟨haccepts, Or.inr h⟩⟩
      refine ⟨?_, ?_, ?_, ?_⟩
      · simp only
        split_ifs <;> omega
      · simp only
        split_ifs <;> omega
      · intro h
        have := hlocked h
        simp only
        split_ifs <;> omega
      · intro h
        have := hunlocked h
        simp only
        split_ifs <;> omega

theorem SpllLockDet.SameSettings.configured (h : ld.SameSettings init)
    (hconf : init.Configured) : ld.Configured := by
  obtain ⟨hlock, hdelock, -⟩ := h
  refine ⟨?_, ?_⟩
  · rw [hdelock]
    exact hconf.delock_pos
  · rw [hdelock, hlock]
    exact hconf.delock_lt

theorem runs_step (hconf : init.Configured) (h : init.Runs ld) (y : Int) :
    init.Runs (ldStep ld y) := by
  obtain ⟨hlock, hdelock, hthreshold⟩ := ldUpdate_settings ld y
  obtain ⟨hlock', hdelock', hthreshold'⟩ := h.settings
  exact ⟨⟨hlock.trans hlock', hdelock.trans hdelock', hthreshold.trans hthreshold'⟩,
    counts_step (h.settings.configured hconf) h.counts y⟩

theorem runs_run (hconf : init.Configured) (h : init.Runs ld) (ys : List Int) :
    init.Runs (run ldStep ld ys) :=
  run_invariant init.Runs (fun _ y hd => runs_step hconf hd y) h ys

/-- One sample adds at most one to the counter, and only an accepted one does. -/
theorem lockCnt_step_le (h : init.Runs ld) (y : Int) :
    (ldStep ld y).lockCnt ≤ ld.lockCnt + init.inside [y] := by
  have haccepts := h.settings.accepts y
  have hnonneg := h.counts.nonneg
  have hstep := ldUpdate_step ld y
  unfold ldStep
  generalize ldUpdate ld y = r at hstep
  cases hstep with
  | fills hfills =>
      rw [inside_singleton (haccepts.mp hfills.1)]
      rcases hfills.2 with hlast | hthere
      · simp only [hlast, Nat.cast_one, le_refl]
      · simp only [hthere]
        omega
  | counts hin hfills =>
      rw [inside_singleton (haccepts.mp hin)]
      simp only
      split_ifs <;> omega
  | drops hdrops =>
      simp only
      omega
  | lowers hout hdrops =>
      simp only
      split_ifs <;> omega

theorem lockCnt_run_le (hconf : init.Configured) (h : init.Runs ld) (ys : List Int) :
    (run ldStep ld ys).lockCnt ≤ ld.lockCnt + init.inside ys := by
  induction ys generalizing ld with
  | nil => simp [SpllLockDet.inside]
  | cons y ys ih =>
      have hfirst := lockCnt_step_le h y
      have hrest := ih (runs_step hconf h y)
      rw [run_cons, inside_cons]
      push_cast
      omega

/-- A locked detector counts down by at most one with a sample, and only with a rejected
one; it can be unlocked by none but the sample that would take it to `delockSamples`. -/
theorem locked_step (h : init.Runs ld) (hlocked : ld.locked = true) (y : Int) :
    ((ldStep ld y).locked = true ∧ ld.lockCnt ≤ (ldStep ld y).lockCnt + init.outside [y]) ∨
      ((ldStep ld y).locked = false ∧
        ld.lockCnt - init.delockSamples ≤ init.outside [y]) := by
  have haccepts := h.settings.accepts y
  have hdelock : ld.delockSamples = init.delockSamples := h.settings.2.1
  have habove := h.counts.locked hlocked
  have hle := h.counts.le
  have hstep := ldUpdate_step ld y
  unfold ldStep
  generalize ldUpdate ld y = r at hstep
  cases hstep with
  | fills hfills =>
      refine Or.inl ⟨rfl, ?_⟩
      simp only
      omega
  | counts hin hfills =>
      refine Or.inl ⟨hlocked, ?_⟩
      simp only
      split_ifs <;> omega
  | drops hdrops =>
      refine Or.inr ⟨rfl, ?_⟩
      rw [outside_singleton (fun hin => hdrops.1 (haccepts.mpr hin))]
      rcases hdrops.2 with hthere | hlast
      · omega
      · omega
  | lowers hout hdrops =>
      refine Or.inl ⟨hlocked, ?_⟩
      rw [outside_singleton (fun hin => hout (haccepts.mpr hin))]
      simp only
      split_ifs <;> omega

/-- A run that ends unlocked has rejected as many samples as the counter was above
`delockSamples`. -/
theorem unlock_takes (hconf : init.Configured) (h : init.Runs ld) (hlocked : ld.locked = true)
    (ys : List Int) (hend : (run ldStep ld ys).locked = false) :
    ld.lockCnt - init.delockSamples ≤ init.outside ys := by
  induction ys generalizing ld with
  | nil =>
      rw [run_nil, hlocked] at hend
      cases hend
  | cons y ys ih =>
      rw [outside_cons]
      push_cast
      rcases locked_step h hlocked y with ⟨hstill, hcount⟩ | ⟨-, hcount⟩
      · have hrest := ih (runs_step hconf h y) hstill hend
        omega
      · omega

end Hysteresis

/-! ## Lock and loss of lock -/

/-- The sample locks the detector. -/
def SpllLockDet.Locks (ld : SpllLockDet) (y : Int) : Prop :=
  ld.locked = false ∧ (ldStep ld y).locked = true

/-- With the sample, the detector loses its lock. -/
def SpllLockDet.Unlocks (ld : SpllLockDet) (y : Int) : Prop :=
  ld.locked = true ∧ (ldStep ld y).locked = false

instance (ld : SpllLockDet) (y : Int) : Decidable (ld.Locks y) :=
  inferInstanceAs (Decidable (_ ∧ _))
instance (ld : SpllLockDet) (y : Int) : Decidable (ld.Unlocks y) :=
  inferInstanceAs (Decidable (_ ∧ _))

/-- Each sample is an `int` above `INT_MIN`. -/
def Samples (ys : List Int) : Prop := ∀ y ∈ ys, -2 ^ 31 < y ∧ y < 2 ^ 31

instance (ys : List Int) : Decidable (Samples ys) :=
  inferInstanceAs (Decidable (∀ y ∈ ys, -2 ^ 31 < y ∧ y < 2 ^ 31))

section Hysteresis

variable {init ld : SpllLockDet}

/-- The counter is full when the detector locks. -/
theorem lockCnt_of_locks {y : Int} (h : ld.Locks y) : (ldStep ld y).lockCnt = ld.lockSamples := by
  obtain ⟨hbefore, hafter⟩ := h
  have hstep := ldUpdate_step ld y
  unfold ldStep at hafter ⊢
  generalize ldUpdate ld y = r at hstep hafter
  cases hstep with
  | fills hfills => rfl
  | counts haccepts hfills =>
      rw [hbefore] at hafter
      cases hafter
  | drops hdrops => cases hafter
  | lowers haccepts hdrops =>
      rw [hbefore] at hafter
      cases hafter

theorem inside_eq {ys : List Int} (h : Samples ys) :
    ld.inside ys = ys.countP fun y => decide (|y| ≤ ld.threshold) := by
  refine List.countP_congr fun y hy => ?_
  rw [decide_eq_true_iff, decide_eq_true_iff]
  exact accepts_iff ld (h y hy).1 (h y hy).2

theorem outside_eq {ys : List Int} (h : Samples ys) :
    ld.outside ys = ys.countP fun y => decide (ld.threshold < |y|) := by
  refine List.countP_congr fun y hy => ?_
  rw [decide_eq_true_iff, decide_eq_true_iff, ← not_le]
  exact not_congr (accepts_iff ld (h y hy).1 (h y hy).2)

/-- In every run from `ld_init`, the counter is in its range and on the right side of the
thresholds.  Once locked, the detector rejects at least `lockSamples - delockSamples`
samples up to and with the one that unlocks it; and since the counter was last zero, it
has accepted at least `lockSamples` samples up to and with the one that locks it. -/
theorem lock_hysteresis (ld : SpllLockDet) (hpos : 0 < ld.delockSamples)
    (hlt : ld.delockSamples < ld.lockSamples) :
    (∀ ys, (run ldStep (ldInit ld) ys).SameSettings ld ∧ (run ldStep (ldInit ld) ys).Counts) ∧
    (∀ pre y mid z, Samples (mid ++ [z]) → (run ldStep (ldInit ld) pre).Locks y →
      (run ldStep (ldInit ld) (pre ++ y :: mid)).Unlocks z →
      ld.lockSamples - ld.delockSamples ≤
        (mid ++ [z]).countP fun v => decide (ld.threshold < |v|)) ∧
    ∀ pre mid y, Samples (mid ++ [y]) → (run ldStep (ldInit ld) pre).lockCnt = 0 →
      (run ldStep (ldInit ld) (pre ++ mid)).Locks y →
      ld.lockSamples ≤ (mid ++ [y]).countP fun v => decide (|v| ≤ ld.threshold) := by
  have hconf : ld.Configured := ⟨hpos, hlt⟩
  have hruns : ∀ ys, ld.Runs (run ldStep (ldInit ld) ys) := runs_run hconf (runs_init hconf)
  refine ⟨fun ys => ⟨(hruns ys).settings, (hruns ys).counts⟩, ?_, ?_⟩
  · intro pre y mid z hsamples hlocks hunlocks
    have hsettings : (run ldStep (ldInit ld) pre).lockSamples = ld.lockSamples :=
      (hruns pre).settings.1
    have hfull := lockCnt_of_locks hlocks
    have hlocked := runs_step hconf (hruns pre) y
    rw [run_append, run_cons] at hunlocks
    have hend : (run ldStep (ldStep (run ldStep (ldInit ld) pre) y) (mid ++ [z])).locked =
        false := by
      rw [run_append]
      exact hunlocks.2
    have hcount := unlock_takes hconf hlocked hlocks.2 (mid ++ [z]) hend
    rw [hfull, hsettings, outside_eq hsamples] at hcount
    exact hcount
  · intro pre mid y hsamples hzero hlocks
    have hsettings : (run ldStep (ldInit ld) (pre ++ mid)).lockSamples = ld.lockSamples :=
      (hruns (pre ++ mid)).settings.1
    have hfull := lockCnt_of_locks hlocks
    have hcount := lockCnt_run_le hconf (hruns pre) (mid ++ [y])
    have hsame : run ldStep (run ldStep (ldInit ld) pre) (mid ++ [y]) =
        ldStep (run ldStep (ldInit ld) (pre ++ mid)) y := by
      rw [run_append, run_append]
      rfl
    rw [hsame, hfull, hsettings, hzero, zero_add, inside_eq hsamples] at hcount
    exact hcount

/-- Three good samples lock, two bad ones unlock. -/
def quickDetector : SpllLockDet where
  lockSamples := 3
  delockSamples := 1
  threshold := 10

theorem lock_hysteresis_quick :
    quickDetector.lockSamples - quickDetector.delockSamples ≤
        (([4, 20, -7, -20] : List Int) ++ [11]).countP
          (fun v => decide (quickDetector.threshold < |v|)) ∧
      quickDetector.lockSamples ≤
        (([9, -10] : List Int) ++ [0]).countP (fun v => decide (|v| ≤ quickDetector.threshold)) :=
  have h := lock_hysteresis quickDetector (by decide) (by decide)
  ⟨h.2.1 [9, -10] 0 [4, 20, -7, -20] 11 (by decide) (by decide) (by decide),
    h.2.2 [] [9, -10] 0 (by decide) (by decide) (by decide)⟩

end Hysteresis

/-! ## What is reported -/

/-- `lock_changed` is set when the lock has changed, and -1 is returned when it is lost. -/
def SpllLockDet.ReportsEvent (ld : SpllLockDet) (y : Int) : Prop :=
  ((ldStep ld y).lockChanged = true ↔ (ldStep ld y).locked ≠ ld.locked) ∧
    ((ldUpdate ld y).2 = -1 ↔ ld.Unlocks y)

/-- The counter reaches one of its two thresholds where it changes nothing. -/
def SpllLockDet.Repeats (ld : SpllLockDet) (y : Int) : Prop :=
  (ld.locked = true ∧ ld.Fills y) ∨ (ld.locked = false ∧ ld.Drops y)

theorem reportsEvent_iff (ld : SpllLockDet) (y : Int) : ld.ReportsEvent y ↔ ¬ ld.Repeats y := by
  have hexclusive : ¬ (ld.Fills y ∧ ld.Drops y) := fun h => h.2.1 h.1.1
  have hstep := ldUpdate_step ld y
  unfold SpllLockDet.ReportsEvent SpllLockDet.Repeats SpllLockDet.Unlocks ldStep
  generalize ldUpdate ld y = r at hstep
  cases hstep with
  | fills hfills =>
      have hnot : ¬ ld.Drops y := fun h => hexclusive ⟨hfills, h⟩
      cases hlocked : ld.locked <;> simp [hfills, hnot]
  | counts haccepts hfills =>
      have hnot : ¬ ld.Drops y := fun h => h.1 haccepts
      cases hlocked : ld.locked <;> simp [hfills, hnot]
  | drops hdrops =>
      have hnot : ¬ ld.Fills y := fun h => hexclusive ⟨h, hdrops⟩
      cases hlocked : ld.locked <;> simp [hdrops, hnot]
  | lowers haccepts hdrops =>
      have hnot : ¬ ld.Fills y := fun h => haccepts h.1
      cases hlocked : ld.locked <;> simp [hdrops, hnot]

/-- What a loop makes of the return value: -1, the loss of a lock, is not zero either. -/
theorem reportsLock_iff (ld : SpllLockDet) (y : Int) :
    ((if (ldUpdate ld y).2 ≠ 0 then spllLocked else spllLocking) = spllLocked ↔
      (ldUpdate ld y).1.locked = true) ↔ ¬ ld.Drops y := by
  have hstep := ldUpdate_step ld y
  generalize ldUpdate ld y = r at hstep
  cases hstep with
  | fills hfills =>
      have hnot : ¬ ld.Drops y := fun h => h.1 hfills.1
      simp [hnot]
  | counts haccepts hfills =>
      have hnot : ¬ ld.Drops y := fun h => h.1 haccepts
      cases hlocked : ld.locked <;> simp [hnot, spllLocked, spllLocking]
  | drops hdrops => simp [hdrops]
  | lowers haccepts hdrops =>
      cases hlocked : ld.locked <;> simp [hdrops, spllLocked, spllLocking]

/-! ## The three loops -/

/-- The detector that a call evaluates, with the sample it gets. -/
abbrev Evaluation := Option (SpllLockDet × Int)

/-- The evaluated detector drops. -/
def Evaluation.Drops (evaluated : Evaluation) : Prop := ∃ x ∈ evaluated, x.1.Drops x.2

/-- A call that evaluates its detector returns `SPLL_LOCKED` when it is locked afterwards,
and only then. -/
def Evaluation.Reports (evaluated : Evaluation) (after : SpllLockDet) (ret : Int) : Prop :=
  evaluated.isSome → (ret = spllLocked ↔ after.locked = true)

instance (evaluated : Evaluation) (after : SpllLockDet) (ret : Int) :
    Decidable (evaluated.Reports after ret) :=
  inferInstanceAs (Decidable (_ → _))

theorem evaluation_reports_iff {evaluated : Evaluation} {after : SpllLockDet} {ret : Int}
    (hdone : ∀ x ∈ evaluated, after = (ldUpdate x.1 x.2).1 ∧
      ret = if (ldUpdate x.1 x.2).2 ≠ 0 then spllLocked else spllLocking) :
    evaluated.Reports after ret ↔ ¬ evaluated.Drops := by
  cases evaluated with
  | none => simp [Evaluation.Reports, Evaluation.Drops]
  | some x =>
      obtain ⟨hafter, hret⟩ := hdone x rfl
      have hreports := reportsLock_iff x.1 x.2
      rw [← hafter, ← hret] at hreports
      simpa [Evaluation.Reports, Evaluation.Drops] using hreports

/-- One call on the helper PLL. -/
inductive HelperCall
  | update (tag source : Int)
  | start (regs : SpllWB)

def helperCall (nChanRef : Nat) (s : SpllHelperState) : HelperCall → SpllHelperState
  | .update tag source => (helperUpdate s tag source).1
  | .start regs => (helperStart nChanRef s regs).1

/-- The helper PLL evaluates its detector with every tag of its channel but the first. -/
def helperEvaluates (s : SpllHelperState) : HelperCall → Evaluation
  | .update tag source =>
      if source = s.refSrc ∧ 0 ≤ s.tagD0 then
        some (s.ld, helperClamp (helperError (helperUnwrap s tag) tag))
      else none
  | .start _ => none

/-- What `helper_update` returns; nothing else returns anything. -/
def helperReturns (s : SpllHelperState) : HelperCall → Int
  | .update tag source => (helperUpdate s tag source).2.2
  | .start _ => spllLocking

theorem helper_reports_iff (nChanRef : Nat) (s : SpllHelperState) (e : HelperCall) :
    (helperEvaluates s e).Reports (helperCall nChanRef s e).ld (helperReturns s e) ↔
      ¬ (helperEvaluates s e).Drops := by
  refine evaluation_reports_iff fun x hx => ?_
  cases e with
  | start regs => cases hx
  | update tag source =>
      unfold helperEvaluates at hx
      dsimp only at hx
      split_ifs at hx with htakes
      · obtain rfl := Option.some.inj hx
        unfold helperCall helperReturns helperUpdate
        dsimp only
        rw [if_pos htakes.1, if_neg (by omega)]
        exact ⟨rfl, rfl⟩
      · cases hx

/-- One call on a main PLL, `mpll_start` among them. -/
inductive MpllCall
  | event (e : MpllEvent)
  | start

def mpllCall (s : SpllMainState) : MpllCall → SpllMainState
  | .event (.tag tag source) => (mpllUpdate s tag.toNat source).1
  | .event (.setPhaseShift desiredShift) => mpllSetPhaseShift s desiredShift.toInt
  | .start => mpllRestart s

/-- A main PLL evaluates its detector with the tag that completes a pair. -/
def mpllEvaluates (s : SpllMainState) : MpllCall → Evaluation
  | .event (.tag tag source) =>
      if (mpllLatch s tag.toNat source).Paired then some (s.ld, s.pairError tag.toNat source)
      else none
  | .event (.setPhaseShift _) => none
  | .start => none

def mpllReturns (s : SpllMainState) : MpllCall → Int
  | .event (.tag tag source) => (mpllUpdate s tag.toNat source).2.2
  | .event (.setPhaseShift _) => spllLocking
  | .start => spllLocking

theorem mpll_reports_iff (s : SpllMainState) (e : MpllCall) :
    (mpllEvaluates s e).Reports (mpllCall s e).ld (mpllReturns s e) ↔
      ¬ (mpllEvaluates s e).Drops := by
  refine evaluation_reports_iff fun x hx => ?_
  cases e with
  | start => cases hx
  | event e =>
      cases e with
      | setPhaseShift desiredShift => cases hx
      | tag tag source =>
          unfold mpllEvaluates at hx
          dsimp only at hx
          split_ifs at hx with hpair
          · obtain rfl := Option.some.inj hx
            unfold mpllCall mpllReturns mpllUpdate
            dsimp only
            rw [if_pos hpair]
            exact ⟨rfl, rfl⟩
          · cases hx

/-- The external PLL evaluates its detector with every tag of the bang-bang detector. -/
def externalEvaluates (s : SpllExternalState) : ExternalEvent → Evaluation
  | .update call =>
      if call.source = s.refSrc then
        some (externalDetector call.hw s, externalDeviation call.hw s call.tag)
      else none
  | .start _ => none

def externalReturns (board : Board) (s : SpllExternalState) : ExternalEvent → Int
  | .update call => (externalUpdate board call.hw s call.regs call.tag call.source).2.2.2
  | .start _ => spllLocking

theorem external_reports_iff (board : Board) (s : SpllExternalState) (e : ExternalEvent) :
    (externalEvaluates s e).Reports (externalStep board s e).ld (externalReturns board s e) ↔
      ¬ (externalEvaluates s e).Drops := by
  refine evaluation_reports_iff fun x hx => ?_
  cases e with
  | start regs => cases hx
  | update call =>
      unfold externalEvaluates at hx
      dsimp only at hx
      split_ifs at hx with htakes
      · obtain rfl := Option.some.inj hx
        obtain ⟨hdone, hret⟩ := externalUpdate_done board call.hw s call.regs call.tag
        rw [← htakes] at hdone hret
        exact ⟨hdone.ld, congrArg Prod.snd hret⟩
      · cases hx

/-- A detector reports its events, in every run from `ld_init`, as long as it reaches no
threshold that changes nothing.  A loop returns `SPLL_LOCKED` exactly when its detector is
locked, in every run from any state, as long as the detector does not drop. -/
theorem lock_events (board : Board) (nChanRef : Nat) :
    (∀ ld ys, Along ldStep SpllLockDet.ReportsEvent (ldInit ld) ys ↔
      Along ldStep (fun d y => ¬ d.Repeats y) (ldInit ld) ys) ∧
    (∀ s es,
      Along (helperCall nChanRef)
        (fun t e => (helperEvaluates t e).Reports (helperCall nChanRef t e).ld
          (helperReturns t e)) s es ↔
      Along (helperCall nChanRef) (fun t e => ¬ (helperEvaluates t e).Drops) s es) ∧
    (∀ s es,
      Along mpllCall
        (fun t e => (mpllEvaluates t e).Reports (mpllCall t e).ld (mpllReturns t e)) s es ↔
      Along mpllCall (fun t e => ¬ (mpllEvaluates t e).Drops) s es) ∧
    ∀ s es,
      Along (externalStep board)
        (fun t e => (externalEvaluates t e).Reports (externalStep board t e).ld
          (externalReturns board t e)) s es ↔
      Along (externalStep board) (fun t e => ¬ (externalEvaluates t e).Drops) s es :=
  ⟨fun ld => along_congr reportsEvent_iff (ldInit ld),
    along_congr (helper_reports_iff nChanRef),
    along_congr mpll_reports_iff,
    along_congr (external_reports_iff board)⟩

/-- A reference that the helper PLL follows without error for 101 tags, until it is 1000
late. -/
def steadyThenLate : List HelperCall :=
  (List.range 101).map (fun n => .update (tagOf rampTags n) 1) ++
    [.update (tagOf rampTags 101 + 1000) 1]

/-- On its way to the first lock, the counter passes 100: one bad sample there is reported
as the loss of a lock, and the helper PLL returns `SPLL_LOCKED`. -/
theorem lock_events_before_lock :
    ¬ Along ldStep SpllLockDet.ReportsEvent (ldInit (helperInit {} 1).ld)
        (List.replicate 100 0 ++ [1000]) ∧
      ¬ Along (helperCall 1)
        (fun t e => (helperEvaluates t e).Reports (helperCall 1 t e).ld (helperReturns t e))
        (helperStart 1 (helperInit {} 1) {}).1 steadyThenLate := by
  constructor
  · intro h
    have hreports := (reportsEvent_iff _ _).mp (along_last h)
    exact hreports (Or.inr ⟨by decide +kernel, by decide +kernel⟩)
  · intro h
    have hlast := along_last h
    revert hlast
    decide +kernel

end Softpll
end WrpcSw
