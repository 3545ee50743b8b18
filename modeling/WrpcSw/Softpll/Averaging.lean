import WrpcSw.Softpll.Setpoint
import WrpcSw.Softpll.TrackerSteps

/-!
# The averages of the phase trackers

A tracker adds up the phases of a block and divides by their number.  Phases wrap, so the
first phase of the block decides where the others are read: a phase of the last quarter
counts as negative when the block began in the first one, and the other way round.  The
reader brings the average back into one period.

* `adjusted_eq` — within a quarter of the first phase, the table gives the representative
  next to it.
* `block_average` — the average of a block is the mean of the representatives, as long as
  an `int` holds their sum.
* `trackerBounded_step` — every average lies within a quarter around one period, in every
  run.
* `ptracker_average` — both, and what the reader makes of it.
-/

namespace WrpcSw
namespace Softpll

open CInt Run

/-! ## One phase -/

/-- The phase of a tag, in one period. -/
def phaseDelta (tagRef tag : Int) : Int := i32 (tagRef - tag) % 2 ^ hpllN

/-- The quarter of the period. -/
def quadrant (delta : Int) : Int := delta / 2 ^ (hpllN - 2)

/-- One phase for a tracker. -/
def ptrackerTake (s : SpllPtrackerState) (delta : Int) : SpllPtrackerState :=
  if s.avgCount = 0 then
    { s with preserveSign := 4 * quadrant delta, acc := delta, avgCount := i32 (s.avgCount + 1) }
  else
    let acc := i32 (s.acc + i32 (delta + adjTab (quadrant delta + s.preserveSign)))
    let avgCount := i32 (s.avgCount + 1)
    if avgCount = s.nAvg then
      { s with phaseVal := acc.tdiv s.nAvg, ready := true, acc := 0, avgCount := 0 }
    else
      { s with acc := acc, avgCount := avgCount }

theorem ptrackerSample_eq (s : SpllPtrackerState) (tagRef tag : Int) :
    ptrackerSample s tagRef tag = ptrackerTake s (phaseDelta tagRef tag) := rfl

/-- `u` is the phase `delta` up to whole periods, and within a quarter of `first`. -/
structure Represents (first delta u : Int) : Prop where
  turns : u ≡ delta [ZMOD 2 ^ hpllN]
  near : |u - first| ≤ 2 ^ (hpllN - 2)

/-- A phase within one period. -/
def InPeriod (delta : Int) : Prop := 0 ≤ delta ∧ delta < 2 ^ hpllN

theorem phaseDelta_inPeriod (tagRef tag : Int) : InPeriod (phaseDelta tagRef tag) := by
  unfold InPeriod phaseDelta
  exact ⟨Int.emod_nonneg _ (by decide), Int.emod_lt_of_pos _ (by decide)⟩

/-- Next to the first phase, the table moves a phase to its representative. -/
theorem adjusted_eq {first delta u : Int} (hfirst : InPeriod first) (hdelta : InPeriod delta)
    (h : Represents first delta u) :
    delta + adjTab (quadrant delta + 4 * quadrant first) = u := by
  obtain ⟨hturns, hnear⟩ := h
  obtain ⟨k, hk⟩ := hturns.symm.dvd
  have hnear' := abs_le.mp hnear
  unfold InPeriod at hfirst hdelta
  unfold adjTab quadrant
  simp only [hpllN] at *
  split_ifs <;> omega

/-- The first phase represents itself. -/
theorem represents_first {first u : Int} (h : Represents first first u) : u = first := by
  obtain ⟨k, hk⟩ := h.turns.symm.dvd
  have hnear := abs_le.mp h.near
  simp only [hpllN] at *
  omega

/-! ## One block -/

/-- A tracker in a block of `n` phases, after those whose representatives are `us`. -/
structure InBlock (first n : Int) (us : List Int) (s : SpllPtrackerState) : Prop where
  nAvg : s.nAvg = n
  preserveSign : s.preserveSign = 4 * quadrant first
  acc : s.acc = i32 us.sum
  avgCount : s.avgCount = us.length

section Block

variable {first n : Int} (hfirst : InPeriod first)

include hfirst in
/-- The first phase. -/
theorem inBlock_first {s : SpllPtrackerState} (hcount : s.avgCount = 0) (hn : s.nAvg = n) :
    InBlock first n [first] (ptrackerTake s first) := by
  unfold ptrackerTake
  rw [if_pos hcount]
  refine ⟨hn, rfl, ?_, ?_⟩
  · unfold InPeriod at hfirst
    simp only [hpllN] at hfirst
    show first = i32 [first].sum
    rw [List.sum_singleton, i32_eq_self (by unfold InI32; omega)]
  · simp only [hcount, zero_add, List.length_singleton]
    decide

/-- The sum that the next phase leads to. -/
theorem i32_add_adjusted {us : List Int} {u : Int} : i32 (i32 us.sum + i32 u) =
    i32 (us ++ [u]).sum := by
  rw [i32_eq_iff, List.sum_append, List.sum_singleton]
  exact (i32_modEq _).add (i32_modEq _)

include hfirst in
/-- A phase behind the first one: it is counted, or it completes the block. -/
theorem ptrackerTake_later {s : SpllPtrackerState} {us : List Int} {delta u : Int}
    (h : InBlock first n us s) (hus : us ≠ []) (hn : n < 2 ^ 31) (hroom : (us.length : Int) < n)
    (hdelta : InPeriod delta) (hrep : Represents first delta u) :
    ptrackerTake s delta =
      if (us.length : Int) + 1 = n then
        { s with
          phaseVal := (i32 (us ++ [u]).sum).tdiv n
          ready := true
          acc := 0
          avgCount := 0 }
      else { s with acc := i32 (us ++ [u]).sum, avgCount := us.length + 1 } := by
  have hpos : us.length ≠ 0 := fun hzero => hus (List.length_eq_zero_iff.mp hzero)
  have hcount : i32 (s.avgCount + 1) = (us.length : Int) + 1 := by
    rw [h.avgCount, i32_eq_self (by unfold InI32; omega)]
  have hsum : i32 (s.acc + i32 (delta + adjTab (quadrant delta + s.preserveSign))) =
      i32 (us ++ [u]).sum := by
    rw [h.acc, h.preserveSign, adjusted_eq hfirst hdelta hrep, i32_add_adjusted]
  unfold ptrackerTake
  rw [if_neg (by rw [h.avgCount]; omega)]
  simp only [hcount, hsum, h.nAvg]

include hfirst in
/-- A phase in the middle of the block. -/
theorem inBlock_next {s : SpllPtrackerState} {us : List Int} {delta u : Int}
    (h : InBlock first n us s) (hus : us ≠ []) (hn : n < 2 ^ 31)
    (hdelta : InPeriod delta) (hrep : Represents first delta u)
    (hroom : (us.length : Int) + 1 < n) :
    InBlock first n (us ++ [u]) (ptrackerTake s delta) := by
  rw [ptrackerTake_later hfirst h hus hn (by omega) hdelta hrep, if_neg (by omega)]
  exact ⟨h.nAvg, h.preserveSign, rfl, by simp⟩

include hfirst in
/-- The last phase of the block. -/
theorem inBlock_last {s : SpllPtrackerState} {us : List Int} {delta u : Int}
    (h : InBlock first n us s) (hus : us ≠ []) (hn : n < 2 ^ 31)
    (hdelta : InPeriod delta) (hrep : Represents first delta u)
    (hfull : (us.length : Int) + 1 = n) :
    (ptrackerTake s delta).phaseVal = (i32 (us ++ [u]).sum).tdiv n ∧
      (ptrackerTake s delta).ready = true := by
  rw [ptrackerTake_later hfirst h hus hn (by omega) hdelta hrep, if_pos hfull]
  exact ⟨rfl, rfl⟩

include hfirst in
/-- The rest of the block, phase by phase up to the last one. -/
theorem inBlock_finish {s : SpllPtrackerState} {vs : List Int} (h : InBlock first n vs s)
    (hvs : vs ≠ []) (hn : n < 2 ^ 31) {ds us : List Int} (hds : ∀ d ∈ ds, InPeriod d)
    (hrep : List.Forall₂ (Represents first) ds us) (hmore : us ≠ [])
    (hfull : (vs.length : Int) + us.length = n) :
    (ds.foldl ptrackerTake s).phaseVal = (i32 (vs ++ us).sum).tdiv n ∧
      (ds.foldl ptrackerTake s).ready = true := by
  induction hrep generalizing s vs with
  | nil => exact absurd rfl hmore
  | @cons d u ds us hd hrest ih =>
      have hin := hds d (List.mem_cons_self ..)
      rw [List.length_cons] at hfull
      push_cast at hfull
      cases hrest with
      | nil =>
          rw [List.length_nil] at hfull
          exact inBlock_last hfirst h hvs hn hin hd (by omega)
      | @cons d' u' ds us hd' hrest =>
          rw [List.length_cons] at hfull
          push_cast at hfull
          have hnext := inBlock_next hfirst h hvs hn hin hd (by omega)
          have hmove : vs ++ u :: u' :: us = (vs ++ [u]) ++ u' :: us := by simp
          rw [List.foldl_cons, hmove]
          refine ih hnext (by simp) (fun e he => hds e (List.mem_cons_of_mem _ he)) (by simp) ?_
          rw [List.length_append, List.length_singleton, List.length_cons]
          push_cast
          omega

/-- What an `int` cannot hold is not divided right: a quotient determines its dividend up to
the divisor. -/
theorem tdiv_i32_eq_iff {x n : Int} (hn : 0 < n) (hn' : n < 2 ^ 31) :
    (i32 x).tdiv n = x.tdiv n ↔ InI32 x := by
  constructor
  · intro heq
    have hx := Int.mul_tdiv_add_tmod x n
    have hy := Int.mul_tdiv_add_tmod (i32 x) n
    have hxlow := Int.lt_tmod_of_pos x hn
    have hxhigh := Int.tmod_lt_of_pos x hn
    have hylow := Int.lt_tmod_of_pos (i32 x) hn
    have hyhigh := Int.tmod_lt_of_pos (i32 x) hn
    rw [heq] at hy
    obtain ⟨k, hk⟩ := (i32_modEq x).dvd
    have hrange := i32_inI32 x
    have hsame : i32 x = x := by omega
    rw [← hsame]
    exact hrange
  · intro h
    rw [i32_eq_self h]

include hfirst in
/-- A whole block. -/
theorem block_take {s : SpllPtrackerState} (hcount : s.avgCount = 0) (hnAvg : s.nAvg = n)
    (hn : 2 ≤ n) (hn' : n < 2 ^ 31) {ds us : List Int} (hds : ∀ d ∈ ds, InPeriod d)
    (hlength : ((first :: ds).length : Int) = n)
    (hrep : List.Forall₂ (Represents first) (first :: ds) us) :
    (((first :: ds).foldl ptrackerTake s).phaseVal = us.sum.tdiv n ↔ InI32 us.sum) ∧
      ((first :: ds).foldl ptrackerTake s).ready = true := by
  cases hrep with
  | @cons _ u _ us hu hrest =>
      obtain rfl := represents_first hu
      have hin := hds
      have hlengths := hrest.length_eq
      rw [List.length_cons] at hlength
      push_cast at hlength
      have hstart := inBlock_first hfirst hcount hnAvg
      obtain ⟨hphase, hready⟩ := inBlock_finish hfirst hstart (by simp) hn' hds hrest
        (by rintro rfl; simp at hlengths; rw [hlengths] at hlength; simp at hlength; omega)
        (by rw [List.length_singleton, ← hlengths]; push_cast; omega)
      rw [List.foldl_cons, hphase, List.singleton_append]
      exact ⟨tdiv_i32_eq_iff (by omega) hn', hready⟩

end Block

/-! ## The samples of one tracker -/

/-- One tag, with its channel. -/
def trackersStep (nChanRef : Nat) (x : Trackers) (e : Int × Nat) : Trackers :=
  ptrackersUpdate nChanRef x.1 x.2 e.1 e.2

/-- The phases that the tags of channel `c` have, each with the reference tag before it. -/
def phasesOf (nChanRef c : Nat) : Trackers → List (Int × Nat) → List Int
  | _, [] => []
  | x, e :: es =>
      if e.2 = c then phaseDelta x.2 e.1 :: phasesOf nChanRef c (trackersStep nChanRef x e) es
      else phasesOf nChanRef c (trackersStep nChanRef x e) es

section Samples

variable {nChanRef c : Nat} (hc : c ≠ nChanRef)

theorem phasesOf_inPeriod (x : Trackers) (es : List (Int × Nat)) :
    ∀ d ∈ phasesOf nChanRef c x es, InPeriod d := by
  induction es generalizing x with
  | nil => exact fun d hd => absurd hd (List.not_mem_nil)
  | cons e es ih =>
      intro d hd
      unfold phasesOf at hd
      split_ifs at hd
      · rcases List.mem_cons.mp hd with rfl | hrest
        · exact phaseDelta_inPeriod _ _
        · exact ih _ d hrest
      · exact ih _ d hd

theorem ptrackerTake_enabled (s : SpllPtrackerState) (delta : Int) :
    (ptrackerTake s delta).enabled = s.enabled := by
  unfold ptrackerTake
  dsimp only
  split_ifs <;> rfl

include hc in
/-- An enabled tracker takes the phases of its own channel, and nothing else changes it. -/
theorem run_tracker {x : Trackers} (henabled : (x.1 c).enabled = true) (es : List (Int × Nat)) :
    (run (trackersStep nChanRef) x es).1 c =
      (phasesOf nChanRef c x es).foldl ptrackerTake (x.1 c) := by
  induction es generalizing x with
  | nil => rfl
  | cons e es ih =>
      obtain ⟨tag, source⟩ := e
      have hstep : (trackersStep nChanRef x (tag, source)).1 c =
          if source = c then ptrackerTake (x.1 c) (phaseDelta x.2 tag) else x.1 c := by
        unfold trackersStep ptrackersUpdate
        dsimp only
        by_cases hown : source = c
        · rw [if_pos hown, hown, if_neg hc, if_pos henabled, ← ptrackerSample_eq]
          exact Function.update_self ..
        · rw [if_neg hown]
          split_ifs
          · rfl
          · exact Function.update_of_ne (Ne.symm hown) _ _
          · rfl
      have henabled' : ((trackersStep nChanRef x (tag, source)).1 c).enabled = true := by
        rw [hstep]
        split_ifs
        · rw [ptrackerTake_enabled, henabled]
        · exact henabled
      rw [run_cons, ih henabled', hstep, phasesOf]
      split_ifs <;> rfl

end Samples

/-- The tags of a whole block of a tracker: as many phases as it averages, each with its
representative in `us`. -/
structure AverageBlock (nChanRef c : Nat) (n : Int) (x : Trackers) (es : List (Int × Nat))
    (us : List Int) : Prop where
  own : c ≠ nChanRef
  enabled : (x.1 c).enabled = true
  fresh : (x.1 c).avgCount = 0
  nAvg : (x.1 c).nAvg = n
  full : ((phasesOf nChanRef c x es).length : Int) = n
  near : ∀ first ∈ (phasesOf nChanRef c x es).head?,
    List.Forall₂ (Represents first) (phasesOf nChanRef c x es) us

section Average

variable {nChanRef c : Nat} {n : Int} {x : Trackers} {es : List (Int × Nat)} {us : List Int}

/-- The phases of a block, the first one apart. -/
theorem AverageBlock.phases (h : AverageBlock nChanRef c n x es us) (hn : 2 ≤ n) :
    ∃ first ds, phasesOf nChanRef c x es = first :: ds ∧ InPeriod first ∧
      (∀ d ∈ ds, InPeriod d) ∧ ((first :: ds).length : Int) = n ∧
      List.Forall₂ (Represents first) (first :: ds) us := by
  have hin : ∀ d ∈ phasesOf nChanRef c x es, InPeriod d := phasesOf_inPeriod x es
  have hfull := h.full
  have hnear := h.near
  cases hphases : phasesOf nChanRef c x es with
  | nil =>
      rw [hphases, List.length_nil] at hfull
      push_cast at hfull
      omega
  | cons first ds =>
      rw [hphases] at hin hfull hnear
      obtain ⟨hfirst, hds⟩ := List.forall_mem_cons.mp hin
      exact ⟨first, ds, rfl, hfirst, hds, hfull, hnear first rfl⟩

/-- The average of a block is right if and only if an `int` holds the sum. -/
theorem block_average (h : AverageBlock nChanRef c n x es us) (hn : 2 ≤ n) (hn' : n < 2 ^ 31) :
    (((run (trackersStep nChanRef) x es).1 c).phaseVal = us.sum.tdiv n ↔ InI32 us.sum) ∧
      ((run (trackersStep nChanRef) x es).1 c).ready = true := by
  obtain ⟨first, ds, hphases, hfirst, hds, hfull, hnear⟩ := h.phases hn
  rw [run_tracker h.own h.enabled, hphases]
  exact block_take hfirst h.fresh h.nAvg hn hn' hds hfull hnear

/-- The sum of representatives next to one phase. -/
theorem sum_represents {first : Int} (hfirst : InPeriod first) {ds us : List Int}
    (h : List.Forall₂ (Represents first) ds us) :
    -4096 * (ds.length : Int) ≤ us.sum ∧ us.sum ≤ 20479 * (ds.length : Int) := by
  induction h with
  | nil => exact ⟨le_refl _, le_refl _⟩
  | @cons d u ds us hu _ ih =>
      have hnear := abs_le.mp hu.near
      unfold InPeriod at hfirst
      simp only [hpllN] at hnear hfirst
      rw [List.sum_cons, List.length_cons]
      push_cast
      omega

/-- Up to that length, an `int` holds the sum of every block. -/
theorem block_fits (h : AverageBlock nChanRef c n x es us) (hn : 2 ≤ n) (hn' : n ≤ 104862) :
    InI32 us.sum := by
  obtain ⟨first, ds, -, hfirst, -, hfull, hnear⟩ := h.phases hn
  obtain ⟨hlow, hhigh⟩ := sum_represents hfirst hnear
  unfold InI32
  omega

end Average

/-! ## The trackers in every run -/

/-- The averages lie within a quarter around one period, also while they are summed up. -/
structure TrackerBounded (s : SpllPtrackerState) : Prop where
  phaseVal : -4096 ≤ s.phaseVal ∧ s.phaseVal ≤ 20479
  preserveSign : s.preserveSign = 0 ∨ s.preserveSign = 4 ∨ s.preserveSign = 8 ∨
    s.preserveSign = 12
  sum : s.nAvg = 0 ∨ (s.nAvg = ptrackerAverageSamples ∧ 0 ≤ s.avgCount ∧ s.avgCount < 512 ∧
    -4096 * s.avgCount ≤ s.acc ∧ s.acc ≤ 20479 * s.avgCount)

/-- What the table makes of any phase. -/
theorem adjusted_bounded {delta sign : Int} (h : InPeriod delta)
    (hsign : sign = 0 ∨ sign = 4 ∨ sign = 8 ∨ sign = 12) :
    -4096 ≤ delta + adjTab (quadrant delta + sign) ∧
      delta + adjTab (quadrant delta + sign) ≤ 20479 := by
  unfold InPeriod at h
  unfold adjTab quadrant
  simp only [hpllN] at *
  split_ifs <;> omega

theorem quadrant_sign {delta : Int} (h : InPeriod delta) :
    4 * quadrant delta = 0 ∨ 4 * quadrant delta = 4 ∨ 4 * quadrant delta = 8 ∨
      4 * quadrant delta = 12 := by
  unfold InPeriod at h
  unfold quadrant
  simp only [hpllN] at *
  omega

/-- A quotient lies between those of two multiples. -/
theorem tdiv_between {x lo hi n : Int} (hn : 0 < n) (hlow : lo * n ≤ x) (hhigh : x ≤ hi * n) :
    lo ≤ x.tdiv n ∧ x.tdiv n ≤ hi := by
  have hdown := Int.tdiv_le_tdiv hn hlow
  have hup := Int.tdiv_le_tdiv hn hhigh
  rw [Int.mul_tdiv_cancel _ (by omega)] at hdown hup
  exact ⟨hdown, hup⟩

/-- Whatever the phase. -/
theorem ptrackerTake_bounded {s : SpllPtrackerState} (h : TrackerBounded s) {delta : Int}
    (hdelta : InPeriod delta) : TrackerBounded (ptrackerTake s delta) := by
  obtain ⟨hphase, hsign, hsum⟩ := h
  have hadjusted := adjusted_bounded hdelta hsign
  have hperiod := hdelta
  unfold InPeriod at hperiod
  simp only [hpllN] at hperiod
  unfold ptrackerTake
  dsimp only
  rcases hsum with hzero | ⟨havg, hcount, hcount', hlow, hhigh⟩
  · -- without a number of samples, the quotient is that of a division by zero
    split_ifs
    · exact ⟨hphase, quadrant_sign hdelta, Or.inl hzero⟩
    · refine ⟨?_, hsign, Or.inl hzero⟩
      dsimp only
      rw [hzero, Int.tdiv_zero]
      omega
    · exact ⟨hphase, hsign, Or.inl hzero⟩
  · have hnext : i32 (s.avgCount + 1) = s.avgCount + 1 := i32_eq_self (by unfold InI32; omega)
    rw [i32_eq_self (x := delta + _) (by unfold InI32; omega),
      i32_eq_self (x := s.acc + _) (by unfold InI32; omega), hnext]
    simp only [ptrackerAverageSamples] at havg
    split_ifs with hfirst hfull
    · refine ⟨hphase, quadrant_sign hdelta, Or.inr ⟨havg, ?_, ?_, ?_, ?_⟩⟩ <;> dsimp only <;>
        omega
    · refine ⟨?_, hsign, Or.inr ⟨havg, le_refl _, by simp, le_refl _, le_refl _⟩⟩
      dsimp only
      rw [havg]
      exact tdiv_between (by decide) (by omega) (by omega)
    · refine ⟨hphase, hsign, Or.inr ⟨havg, ?_, ?_, ?_, ?_⟩⟩ <;> dsimp only <;> omega

theorem ptrackerStarted_bounded {s : SpllPtrackerState} (h : TrackerBounded s) :
    TrackerBounded (ptrackerStarted s) := by
  refine ⟨h.phaseVal, Or.inl rfl, ?_⟩
  cases h.sum with
  | inl hzero => exact Or.inl hzero
  | inr hsum => exact Or.inr ⟨hsum.1, by simp [ptrackerStarted]⟩

theorem ptrackerInit_bounded {s : SpllPtrackerState} (h : TrackerBounded s) (id : Int) :
    TrackerBounded (ptrackerInit s id ptrackerAverageSamples) :=
  ⟨h.phaseVal, h.preserveSign, Or.inr ⟨rfl, by simp [ptrackerInit]⟩⟩

theorem trackerBounded_default : TrackerBounded {} :=
  ⟨⟨by decide, by decide⟩, Or.inl rfl, Or.inl rfl⟩

section Runs

variable (board : Board)

theorem restarted_bounded {s : SoftpllState} (h : ∀ c, TrackerBounded (s.ptrackers c)) (c : Nat) :
    TrackerBounded (s.restarted c) := by
  unfold SoftpllState.restarted
  split_ifs
  · exact ptrackerStarted_bounded (h c)
  · exact h c

/-- A tag for trackers that are bounded. -/
theorem trackersHandle_bounded {nChanRef : Nat} {x : Trackers}
    (h : ∀ c, TrackerBounded (x.1 c)) (tag : Tag) (c : Nat) :
    TrackerBounded ((trackersHandle nChanRef x tag).1 c) := by
  unfold trackersHandle ptrackersUpdate
  split_ifs
  · exact h c
  · exact h c
  · by_cases hown : c = tag.chanId.toNat
    · subst hown
      dsimp only
      rw [Function.update_self, ptrackerSample_eq]
      exact ptrackerTake_bounded (h _) (phaseDelta_inPeriod _ _)
    · dsimp only
      rw [Function.update_of_ne hown]
      exact h c
  · exact h c

/-- Whatever happens, the trackers stay bounded. -/
theorem trackerBounded_step (s : SoftpllState) (e : Event)
    (h : ∀ c, TrackerBounded (s.ptrackers c)) (c : Nat) :
    TrackerBounded ((step board s e).ptrackers c) := by
  rw [step_ptrackers]
  cases e with
  | init mode slaveRefChannel alignPps hw =>
      unfold trackersNext
      dsimp only
      split_ifs
      · exact h c
      · dsimp only
        split_ifs
        · exact ptrackerInit_bounded (h c) c
        · exact h c
  | tag tag hw =>
      unfold trackersNext
      dsimp only
      split_ifs
      · exact trackersHandle_bounded (restarted_bounded h) tag c
      · exact restarted_bounded h c
      · exact h c
  | enablePtracker refChannel enable =>
      cases enable with
      | false => exact h c
      | true =>
          unfold trackersNext
          dsimp only
          by_cases hown : c = refChannel
          · rw [hown, Function.update_self]
            exact ptrackerStarted_bounded (h refChannel)
          · rw [Function.update_of_ne hown]
            exact h c
  | shutdown | startChannel _ | stopChannel _ | setPhaseShift _ _ | updateAuxClocks _ => exact h c

/-! ## What is read -/

/-- The phase in picoseconds, whether the tracker is enabled, and whether there is an
average. -/
def spllReadPtracker (s : SoftpllState) (channel : Nat) : Int × Bool × Bool :=
  let st := s.ptrackers channel
  let phase := st.phaseVal
  let phase :=
    if phase < 0 then i32 (phase + 2 ^ hpllN)
    else if phase ≥ 2 ^ hpllN then i32 (phase - 2 ^ hpllN)
    else phase
  let phase := if board.divideDmtdClocksBy2 then i32 (phase * 2) % 2 ^ hpllN else phase
  (toPicos board phase, s.ptrackerMask.getLsbD st.id.toNat, st.ready)

/-- A phase within one period is less than one clock period. -/
theorem toPicos_inPeriod {board : Board} (hboard : Supported board) {phase : Int}
    (h : InPeriod phase) : 0 ≤ toPicos board phase ∧
      toPicos board phase < board.clockPeriodPicoseconds := by
  unfold InPeriod at h
  unfold toPicos
  rw [Int.shiftRight_eq_div_pow]
  simp only [hpllN] at *
  cases hboard with
  | inl hwrc =>
      subst hwrc
      simp only [Board.wrc]
      rw [i32_eq_self (by unfold InI32; omega)]
      omega
  | inr hwrs =>
      subst hwrs
      simp only [Board.wrs]
      rw [i32_eq_self (by unfold InI32; omega)]
      omega

theorem spllReadPtracker_bounded {board : Board} (hboard : Supported board) {s : SoftpllState}
    {channel : Nat} (h : TrackerBounded (s.ptrackers channel)) :
    0 ≤ (spllReadPtracker board s channel).1 ∧
      (spllReadPtracker board s channel).1 < board.clockPeriodPicoseconds := by
  obtain ⟨hlow, hhigh⟩ := h.phaseVal
  refine toPicos_inPeriod hboard ?_
  have hhalved (phase : Int) : InPeriod (i32 (phase * 2) % 2 ^ hpllN) :=
    ⟨Int.emod_nonneg _ (by decide), Int.emod_lt_of_pos _ (by decide)⟩
  have hfits (x : Int) (hx : |x| ≤ 2 ^ 20) : i32 x = x := by
    have hx' := abs_le.mp hx
    exact i32_eq_self (by unfold InI32; omega)
  split_ifs with hdivide hneg hover
  · exact hhalved _
  · exact hhalved _
  · exact hhalved _
  all_goals simp only [hpllN] at *
  all_goals unfold InPeriod
  all_goals simp only [hpllN]
  · rw [hfits _ (abs_le.mpr ⟨by omega, by omega⟩)]
    omega
  · rw [hfits _ (abs_le.mpr ⟨by omega, by omega⟩)]
    omega
  · omega

end Runs

/-- For every number of samples and every block around its first phase: the average is the
mean of the representatives, cut towards zero, as long as an `int` holds their sum, which it
does up to 104862 samples.  And what is read of a tracker lies within one clock period,
after any calls and tags whatever. -/
theorem ptracker_average (board : Board) (hboard : Supported board) :
    (∀ (nChanRef c : Nat) (n : Int) (x : Trackers) (es : List (Int × Nat)) (us : List Int),
      2 ≤ n → n < 2 ^ 31 → AverageBlock nChanRef c n x es us →
        (((run (trackersStep nChanRef) x es).1 c).phaseVal = us.sum.tdiv n ↔ InI32 us.sum) ∧
        ((run (trackersStep nChanRef) x es).1 c).ready = true ∧
        (n ≤ 104862 → InI32 us.sum)) ∧
    ∀ (es : List Event) (channel : Nat),
      0 ≤ (spllReadPtracker board (run (step board) powerUp es) channel).1 ∧
        (spllReadPtracker board (run (step board) powerUp es) channel).1 <
          board.clockPeriodPicoseconds := by
  constructor
  · intro nChanRef c n x es us hn hn' hblock
    obtain ⟨hphase, hready⟩ := block_average hblock hn hn'
    exact ⟨hphase, hready, block_fits hblock hn⟩
  · intro es channel
    have hrun : ∀ c, TrackerBounded ((run (step board) powerUp es).ptrackers c) :=
      run_invariant (fun (s : SoftpllState) => ∀ c, TrackerBounded (s.ptrackers c))
        (trackerBounded_step board) (fun _ => trackerBounded_default) es
    exact spllReadPtracker_bounded hboard (hrun channel)

/-- A tracker at the start of a block of `n` samples, with the reference at `tagRef`. -/
def freshTrackers (n tagRef : Int) : Trackers := (fun _ => { enabled := true, nAvg := n }, tagRef)

/-- A block around zero: its phases are 1, 16383 and 16379. -/
theorem averageBlock_zero :
    AverageBlock 1 0 3 (freshTrackers 3 0) [(16383, 0), (1, 0), (5, 0)] [1, -1, -5] where
  own := by decide
  enabled := rfl
  fresh := rfl
  nAvg := rfl
  full := by decide
  near := by
    have hphases : phasesOf 1 0 (freshTrackers 3 0) [(16383, 0), (1, 0), (5, 0)] =
        [1, 16383, 16379] := by decide
    rw [hphases]
    intro first hfirst
    obtain rfl : 1 = first := Option.some_inj.mp hfirst
    refine .cons ?_ (.cons ?_ (.cons ?_ .nil)) <;> exact ⟨by decide, by decide⟩

/-- Its average is negative, cut towards zero. -/
theorem ptracker_average_zero :
    ((run (trackersStep 1) (freshTrackers 3 0) [(16383, 0), (1, 0), (5, 0)]).1 0).phaseVal = -1 ∧
      (spllReadPtracker Board.wrc (run (step Board.wrc) powerUp []) 0).1 <
        Board.wrc.clockPeriodPicoseconds := by
  obtain ⟨hblocks, hreads⟩ := ptracker_average Board.wrc (Or.inl rfl)
  obtain ⟨hphase, -, hfits⟩ := hblocks 1 0 3 _ _ _ (by decide) (by decide) averageBlock_zero
  exact ⟨hphase.mpr (hfits (by decide)), (hreads [] 0).2⟩

/-- The same tag again and again has one phase. -/
theorem phasesOf_replicate {nChanRef c : Nat} (hc : c ≠ nChanRef) (x : Trackers) (tag : Int)
    (k : Nat) : phasesOf nChanRef c x (List.replicate k (tag, c)) =
      List.replicate k (phaseDelta x.2 tag) := by
  induction k generalizing x with
  | zero => rfl
  | succ k ih =>
      have href : (trackersStep nChanRef x (tag, c)).2 = x.2 := by
        unfold trackersStep ptrackersUpdate
        dsimp only
        rw [if_neg hc]
        split_ifs <;> rfl
      rw [List.replicate_succ, List.replicate_succ, phasesOf, if_pos rfl, ih, href]

/-- A block of equal phases. -/
theorem averageBlock_replicate (k : Nat) :
    AverageBlock 1 0 k (freshTrackers k 16383) (List.replicate k (0, 0))
      (List.replicate k 16383) where
  own := by decide
  enabled := rfl
  fresh := rfl
  nAvg := rfl
  full := by rw [phasesOf_replicate (by decide), List.length_replicate]
  near := by
    intro first hfirst
    rw [phasesOf_replicate (by decide)] at hfirst ⊢
    obtain ⟨-, rfl⟩ := List.mem_replicate.mp (List.mem_of_head? hfirst)
    have hsame : ∀ j, List.Forall₂ (Represents (phaseDelta 16383 0))
        (List.replicate j (phaseDelta 16383 0)) (List.replicate j 16383) := by
      intro j
      induction j with
      | zero => exact .nil
      | succ j ih => exact .cons ⟨by decide, by decide⟩ ih
    exact hsame k

/-- With enough samples near the end of the period, the sum of the block overflows. -/
theorem average_overflows :
    ¬ ∀ (nChanRef c : Nat) (n : Int) (x : Trackers) (es : List (Int × Nat)) (us : List Int),
      2 ≤ n → n < 2 ^ 31 → AverageBlock nChanRef c n x es us →
        ((run (trackersStep nChanRef) x es).1 c).phaseVal = us.sum.tdiv n := by
  intro h
  have hblock := averageBlock_replicate 131088
  have haverage := h 1 0 131088 _ _ _ (by decide) (by decide) hblock
  have hsum := (block_average hblock (by decide) (by decide)).1.mp haverage
  rw [List.sum_replicate, nsmul_eq_mul] at hsum
  unfold InI32 at hsum
  omega

end Softpll
end WrpcSw
