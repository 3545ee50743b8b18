import WrpcSw.Lib.Run
import WrpcSw.Softpll.External

/-!
# The phase of the external reference

The bang-bang detector reports the low 16 bits of the phase and a bit that is set
when the phase has left its turn of `2 ^ 16`.  In which direction is not reported:
`external_update` infers it from two consecutive tags, which is enough for a phase
that moves by less than a turn.

* `externalUpdate_done` — what one tag of the detector leaves in the state; the
  realignment, which runs first, touches none of it.
* `tracksPhase_step` — the offset is the turn of the true phase, modulo `2 ^ 32`.
* `external_unwraps` — the regulator gets the true phase steps, in runs of any length.
-/

namespace WrpcSw
namespace Softpll

open CInt Run

/-! ## One tag of the detector -/

/-- The turns added up so far, with the tag of the detector. -/
def externalOffset (s : SpllExternalState) (tag : Int) : Int :=
  externalUnwrap s (tag % 2 ^ bbErrorBits) (decide (tag / 2 ^ bbErrorBits % 2 = 1))

/-- The unwrapped phase (`ph_err_d0` after the tag). -/
def externalPhase (s : SpllExternalState) (tag : Int) : Int :=
  i32 (tag % 2 ^ bbErrorBits + externalOffset s tag)

/-- The regulator behind the tag, and its output. -/
def externalPi (s : SpllExternalState) (tag : Int) : SpllPi × Int :=
  piUpdate s.pi (i32 (externalPhase s tag - s.phErrD0))

/-- The output of the short filter, or its stand-in while there is no reference (`y2`). -/
def externalOutput (hw : HwStatus) (s : SpllExternalState) (tag : Int) : Int :=
  if hw.extRefPresent then (lowpassUpdate s.lpShort (externalPi s tag).2).2 else 32000

/-- The lock detector as the tag finds it. -/
def externalDetector (hw : HwStatus) (s : SpllExternalState) : SpllLockDet :=
  if hw.extRefPresent then s.ld else ldInit s.ld

/-- The sample for the lock detector. -/
def externalDeviation (hw : HwStatus) (s : SpllExternalState) (tag : Int) : Int :=
  i32 (externalOutput hw s tag - (lowpassUpdate s.lpLong (externalPi s tag).2).2)

/-- What a tag of the detector leaves in the loop. -/
structure ExternalDone (hw : HwStatus) (s : SpllExternalState) (tag : Int)
    (t : SpllExternalState) : Prop where
  refSrc : t.refSrc = s.refSrc
  phErrOffset : t.phErrOffset = externalOffset s tag
  phRawD0 : t.phRawD0 = tag % 2 ^ bbErrorBits
  phErrD0 : t.phErrD0 = externalPhase s tag
  pi : t.pi = (externalPi s tag).1
  lpShort : t.lpShort = (lowpassUpdate s.lpShort (externalPi s tag).2).1
  lpLong : t.lpLong = (lowpassUpdate s.lpLong (externalPi s tag).2).1
  ld : t.ld = (ldUpdate (externalDetector hw s) (externalDeviation hw s tag)).1

/-- What the realignment leaves alone. -/
structure SameLoop (s t : SpllExternalState) : Prop where
  refSrc : t.refSrc = s.refSrc
  phErrOffset : t.phErrOffset = s.phErrOffset
  phRawD0 : t.phRawD0 = s.phRawD0
  phErrD0 : t.phErrD0 = s.phErrD0
  pi : t.pi = s.pi
  lpShort : t.lpShort = s.lpShort
  lpLong : t.lpLong = s.lpLong
  ld : t.ld = s.ld

section Tag

variable (board : Board) (hw : HwStatus) (s : SpllExternalState) (regs : ExternalRegs)

theorem realignFsm_sameLoop : SameLoop s (realignFsm board hw s regs).1 := by
  unfold realignFsm
  cases s.realignState with
  | none | stage1 | ppsInvalid | disabled | done =>
      exact ⟨rfl, rfl, rfl, rfl, rfl, rfl, rfl, rfl⟩
  | stage1Wait | stage2 | stage2Wait =>
      dsimp only
      split_ifs <;> exact ⟨rfl, rfl, rfl, rfl, rfl, rfl, rfl, rfl⟩

/-- A tag of the detector: the state, the word for the DAC and the return value. -/
theorem externalUpdate_done (tag : Int) :
    ExternalDone hw s tag (externalUpdate board hw s regs tag s.refSrc).1 ∧
      (externalUpdate board hw s regs tag s.refSrc).2.2 =
        (some (dacMainW (externalOutput hw s tag) 0),
          if (ldUpdate (externalDetector hw s) (externalDeviation hw s tag)).2 ≠ 0 then spllLocked
          else spllLocking) := by
  obtain ⟨href, hoffset, hraw, hphase, hpi, hshort, hlong, hld⟩ :=
    realignFsm_sameLoop board hw s regs
  unfold externalUpdate externalUnwrap
  simp only [if_true, href, hoffset, hraw, hphase, hpi, hshort, hlong, hld]
  exact ⟨⟨rfl, rfl, rfl, rfl, rfl, rfl, rfl, rfl⟩, rfl⟩

/-- A tag of another channel is ignored. -/
theorem externalUpdate_other {tag source : Int} (h : source ≠ s.refSrc) :
    externalUpdate board hw s regs tag source = (s, regs, none, spllLocking) := if_neg h

end Tag

/-! ## Runs -/

/-- One call of `external_update`, with what the hardware and the registers hold at it. -/
structure ExternalCall where
  hw : HwStatus
  regs : ExternalRegs
  tag : Int
  source : Int

/-- The external PLL with the number of tags of its detector so far. -/
structure ExternalRun where
  ext : SpllExternalState
  tags : Nat

/-- The call is a tag of the detector. -/
def ExternalRun.Takes (x : ExternalRun) (e : ExternalCall) : Prop := e.source = x.ext.refSrc

instance (x : ExternalRun) (e : ExternalCall) : Decidable (x.Takes e) :=
  inferInstanceAs (Decidable (_ = _))

def ExternalRun.step (board : Board) (x : ExternalRun) (e : ExternalCall) : ExternalRun where
  ext := (externalUpdate board e.hw x.ext e.regs e.tag e.source).1
  tags := if x.Takes e then x.tags + 1 else x.tags

section Unwrap

variable {P : Nat → Int}

/-- The phases `P n` move by less than a turn. -/
structure PhaseSequence (P : Nat → Int) : Prop where
  start : P 0 = 0
  step_lt : ∀ n, |P (n + 1) - P n| < 2 ^ bbErrorBits

/-- The tag for the phase `P (n + 1)`: its low bits, and whether it is in another turn than
the phase before. -/
structure ReportsPhase (P : Nat → Int) (n : Nat) (tag : Int) : Prop where
  low : tag % 2 ^ bbErrorBits = P (n + 1) % 2 ^ bbErrorBits
  wrap : tag / 2 ^ bbErrorBits % 2 = 1 ↔ P (n + 1) / 2 ^ bbErrorBits ≠ P n / 2 ^ bbErrorBits

/-- After the phase `P n`, the loop has its low bits, its turn and its value. -/
structure TracksPhase (P : Nat → Int) (n : Nat) (s : SpllExternalState) : Prop where
  raw : s.phRawD0 = P n % 2 ^ bbErrorBits
  offset : s.phErrOffset ≡ 2 ^ bbErrorBits * (P n / 2 ^ bbErrorBits) [ZMOD 2 ^ 32]
  phase : s.phErrD0 = i32 (P n)

theorem tracksPhase_start (hP : PhaseSequence P) {s : SpllExternalState}
    (hoffset : s.phErrOffset = 0) (hphase : s.phErrD0 = 0) (hraw : s.phRawD0 = 0) :
    TracksPhase P 0 s := by
  constructor
  · rw [hraw, hP.start, Int.zero_emod]
  · rw [hoffset, hP.start, Int.zero_ediv, mul_zero]
  · rw [hphase, hP.start, i32_zero]

/-- A turn is added or taken away as the phase has left its turn upwards or downwards. -/
theorem externalOffset_tracks (hP : PhaseSequence P) {n : Nat} {s : SpllExternalState}
    {tag : Int} (h : TracksPhase P n s) (htag : ReportsPhase P n tag) :
    externalOffset s tag ≡ 2 ^ bbErrorBits * (P (n + 1) / 2 ^ bbErrorBits) [ZMOD 2 ^ 32] := by
  unfold externalOffset externalUnwrap
  rw [htag.low, h.raw]
  by_cases hwrap : tag / 2 ^ bbErrorBits % 2 = 1
  · have hturn := ediv_step (hP.step_lt n) (htag.wrap.mp hwrap)
    simp only [hwrap, decide_true, if_true, gt_iff_lt]
    -- the low bits went up while the phase left its turn: one turn down
    by_cases hdown : P n % 2 ^ bbErrorBits < P (n + 1) % 2 ^ bbErrorBits
    · rw [if_pos hdown] at hturn
      rw [if_pos hdown, hturn, mul_sub, mul_one]
      exact (i32_modEq _).trans (h.offset.sub_right _)
    · rw [if_neg hdown] at hturn
      rw [if_neg hdown, hturn, mul_add, mul_one]
      exact (i32_modEq _).trans (h.offset.add_right _)
  · have hsame : P (n + 1) / 2 ^ bbErrorBits = P n / 2 ^ bbErrorBits := by
      by_contra hne
      exact hwrap (htag.wrap.mpr hne)
    simp only [hwrap, decide_false, Bool.false_eq_true, if_false, hsame]
    exact h.offset

/-- The unwrapped phase is the true one, as far as an `int` holds it. -/
theorem externalPhase_tracks (hP : PhaseSequence P) {n : Nat} {s : SpllExternalState}
    {tag : Int} (h : TracksPhase P n s) (htag : ReportsPhase P n tag) :
    externalPhase s tag = i32 (P (n + 1)) := by
  unfold externalPhase
  rw [i32_eq_iff, htag.low]
  calc P (n + 1) % 2 ^ bbErrorBits + externalOffset s tag
      ≡ P (n + 1) % 2 ^ bbErrorBits + 2 ^ bbErrorBits * (P (n + 1) / 2 ^ bbErrorBits)
          [ZMOD 2 ^ 32] := (externalOffset_tracks hP h htag).add_left _
    _ = P (n + 1) := Int.emod_add_mul_ediv _ _

/-- One tag keeps the loop on the phase, and gives the regulator the phase step. -/
theorem tracksPhase_step (hP : PhaseSequence P) {n : Nat} {s t : SpllExternalState}
    {hw : HwStatus} {tag : Int} (h : TracksPhase P n s) (htag : ReportsPhase P n tag)
    (hdone : ExternalDone hw s tag t) :
    TracksPhase P (n + 1) t ∧ t.pi.x = P (n + 1) - P n := by
  have hphase := externalPhase_tracks hP h htag
  refine ⟨⟨?_, ?_, ?_⟩, ?_⟩
  · rw [hdone.phRawD0, htag.low]
  · rw [hdone.phErrOffset]
    exact externalOffset_tracks hP h htag
  · rw [hdone.phErrD0, hphase]
  · have hmove := abs_lt.mp (hP.step_lt n)
    have hfits : InI32 (P (n + 1) - P n) := by
      unfold InI32
      simp only [bbErrorBits] at hmove
      omega
    rw [hdone.pi, externalPi, hphase, h.phase, i32_sub_i32 hfits]
    unfold piUpdate
    dsimp only
    split_ifs <;> rfl

/-- Each tag of the detector reports the next phase. -/
def ExternalRun.Reports (P : Nat → Int) (x : ExternalRun) (e : ExternalCall) : Prop :=
  x.Takes e → ReportsPhase P x.tags e.tag

/-- With each tag of the detector, the error for the regulator is the step of the phase, and
`ph_err_d0` is the phase, modulo the `2 ^ 32` values of an `int`. -/
def ExternalRun.Unwraps (P : Nat → Int) (board : Board) (x : ExternalRun) (e : ExternalCall) :
    Prop :=
  x.Takes e →
    (x.step board e).ext.pi.x = P (x.tags + 1) - P x.tags ∧
      (x.step board e).ext.phErrD0 ≡ P (x.tags + 1) [ZMOD 2 ^ 32]

/-- The external PLL in a run that has reported the phases `P 1`, …, `P tags`. -/
def ExternalRun.OnPhase (P : Nat → Int) (x : ExternalRun) : Prop := TracksPhase P x.tags x.ext

theorem onPhase_step (hP : PhaseSequence P) (board : Board) (x : ExternalRun) (e : ExternalCall)
    (h : x.OnPhase P) (he : x.Reports P e) :
    (x.step board e).OnPhase P ∧ x.Unwraps P board e := by
  unfold ExternalRun.OnPhase ExternalRun.Unwraps ExternalRun.step
  by_cases htakes : x.Takes e
  · have hsource : e.source = x.ext.refSrc := htakes
    have hdone := (externalUpdate_done board e.hw x.ext e.regs e.tag).1
    obtain ⟨htracks, herror⟩ := tracksPhase_step hP h (he htakes) hdone
    simp only [if_pos htakes, hsource]
    refine ⟨htracks, fun _ => ⟨herror, ?_⟩⟩
    rw [htracks.phase]
    exact i32_modEq _
  · simp only [if_neg htakes, externalUpdate_other board e.hw x.ext e.regs htakes]
    exact ⟨h, fun h' => absurd h' htakes⟩

/-- From an unwrapped phase of zero on, whatever other tags arrive in between and whatever
the hardware says: as long as the detector reports the phases `P n`, the regulator gets
their steps and `ph_err_d0` follows them. -/
theorem external_unwraps (board : Board) (hP : PhaseSequence P) (s : SpllExternalState)
    (hoffset : s.phErrOffset = 0) (hphase : s.phErrD0 = 0) (hraw : s.phRawD0 = 0)
    (es : List ExternalCall)
    (hes : Along (ExternalRun.step board) (ExternalRun.Reports P) ⟨s, 0⟩ es) :
    Along (ExternalRun.step board) (ExternalRun.Unwraps P board) ⟨s, 0⟩ es :=
  along_of_along (ExternalRun.OnPhase P)
    (fun x e h he => (onPhase_step hP board x e h he).1)
    (fun x e h he => (onPhase_step hP board x e h he).2)
    (s := ⟨s, 0⟩) (tracksPhase_start hP hoffset hphase hraw) hes

end Unwrap

/-- A phase that moves by 40000 with every tag. -/
def risingPhase (n : Nat) : Int := 40000 * n

theorem risingPhase_sequence : PhaseSequence risingPhase := by
  refine ⟨rfl, fun n => ?_⟩
  have hstep : risingPhase (n + 1) - risingPhase n = 40000 := by
    unfold risingPhase
    push_cast
    ring
  rw [hstep]
  decide

/-- Three tags of the detector, the second of them with the wrap bit, and a tag of another
channel between them. -/
def risingCalls : List ExternalCall :=
  [⟨{}, ⟨{}, {}⟩, 40000, 2⟩, ⟨{}, ⟨{}, {}⟩, 7, 0⟩, ⟨{}, ⟨{}, {}⟩, 80000, 2⟩,
    ⟨{}, ⟨{}, {}⟩, 54464, 2⟩]

theorem external_unwraps_rising :
    Along (ExternalRun.step Board.wrc) (ExternalRun.Unwraps risingPhase Board.wrc)
      ⟨externalInit {} 2 false, 0⟩ risingCalls := by
  refine external_unwraps Board.wrc risingPhase_sequence _ rfl rfl rfl risingCalls ?_
  refine ⟨fun _ => ⟨by decide, by decide⟩, fun h => absurd h (by decide),
    fun _ => ⟨?_, ?_⟩, fun _ => ⟨?_, ?_⟩, trivial⟩ <;> decide

end Softpll
end WrpcSw
