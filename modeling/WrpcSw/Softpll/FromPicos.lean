import WrpcSw.Softpll.SoftpllNg

/-!
# The two versions of `from_picos`

Built with `CONFIG_PPSI`, `from_picos` divides with `__div64_32` of the ppsi library
instead of the 64-bit division of libgcc.  `__div64_32` is not in the repository: it
is a parameter here, of which only the quotient it leaves in place is used.

The branch of a negative shift multiplies in `int`.  Its product is exact for shifts
above `-2 ^ 17`; below, it has lost whole turns of `2 ^ 32`, and the quotient is right
only where the clock period happens to divide the turns that are missing.
-/

namespace WrpcSw
namespace Softpll

open CInt

/-- What `__div64_32(&n, base)` leaves in `n`. -/
abbrev Div64By32 := Nat → Nat → Nat

/-- The division is in place, for every 64-bit operand and every base. -/
def Div64By32.Divides (div64By32 : Div64By32) : Prop :=
  ∀ n base, n < 2 ^ 64 → 0 < base → base < 2 ^ 32 → div64By32 n base = n / base

/-- The version of `from_picos` with `__div64_32`. -/
def fromPicosPpsi (div64By32 : Div64By32) (board : Board) (ps : Int) : Int :=
  let base := board.clockPeriodPicoseconds.toNat
  if ps ≥ 0 then
    let ups := u64 (u64 ps * 2 ^ hpllN)
    i32 (div64By32 ups base)
  else
    -- the product is an `int`, and is sign-extended to 64 bits
    let ups := u64 (i32 (i32 (-ps) * 2 ^ hpllN))
    i32 (u64 (-(div64By32 ups base : Int)))

/-- The turns of `2 ^ 32` that the product of a negative shift has lost. -/
def lostTurns (ps : Int) : Int :=
  (-ps * 2 ^ hpllN - i32 (i32 (-ps) * 2 ^ hpllN)) / 2 ^ 32

section Branches

variable {div64By32 : Div64By32} {ps : Int}

theorem u64_lt (x : Int) : u64 x < 2 ^ 64 := by
  unfold u64
  omega

/-- A shift that is not negative is converted exactly. -/
theorem fromPicosPpsi_nonneg (hdiv : div64By32.Divides) (hps : InI32 ps) (hnonneg : 0 ≤ ps) :
    fromPicosPpsi div64By32 Board.wrc ps = fromPicos Board.wrc ps := by
  have hself : (u64 ps : Int) = ps := u64_eq_self hnonneg (by unfold InI32 at hps; omega)
  have hproduct : (u64 (u64 ps * 2 ^ hpllN) : Int) = ps * 2 ^ hpllN := by
    rw [hself]
    unfold InI32 at hps
    exact u64_eq_self (by simp only [hpllN]; omega) (by simp only [hpllN]; omega)
  simp only [fromPicosPpsi, fromPicos, ge_iff_le, hnonneg, if_true]
  rw [hdiv _ _ (u64_lt _) (by decide) (by decide)]
  push_cast
  rw [hproduct, Int.tdiv_eq_ediv_of_nonneg (by simp only [hpllN]; omega)]
  rfl

/-- The product of a negative shift is short of whole turns. -/
theorem product_eq (ps : Int) :
    -ps * 2 ^ hpllN = lostTurns ps * 2 ^ 32 + i32 (i32 (-ps) * 2 ^ hpllN) := by
  unfold lostTurns i32
  simp only [hpllN]
  omega

/-- A negative shift is converted as in the other version exactly when the clock period
divides the lost turns, counted from the turn where the sign extension puts a negative
product. -/
theorem fromPicosPpsi_neg (hdiv : div64By32.Divides) (hneg : ps < 0) :
    fromPicosPpsi div64By32 Board.wrc ps = fromPicos Board.wrc ps ↔
      8000 ∣ (if i32 (i32 (-ps) * 2 ^ hpllN) < 0 then 2 ^ 32 else 0) - lostTurns ps := by
  have hplain : fromPicos Board.wrc ps = i32 (-((-ps * 2 ^ hpllN) / 8000)) := by
    unfold fromPicos
    rw [show ps * 2 ^ hpllN = -(-ps * 2 ^ hpllN) by ring, Int.neg_tdiv,
      Int.tdiv_eq_ediv_of_nonneg (by simp only [hpllN]; omega)]
    rfl
  have hoperand : (u64 (i32 (i32 (-ps) * 2 ^ hpllN)) : Int) =
      (if i32 (i32 (-ps) * 2 ^ hpllN) < 0 then 2 ^ 32 else 0) * 2 ^ 32 +
        i32 (i32 (-ps) * 2 ^ hpllN) := by
    have hrange := i32_inI32 (i32 (-ps) * 2 ^ hpllN)
    unfold InI32 at hrange
    split_ifs with hsign
    · rw [u64_neg hsign (by omega)]
      ring
    · rw [u64_eq_self (by omega) (by omega)]
      ring
  have hquotient : fromPicosPpsi div64By32 Board.wrc ps =
      i32 (-((u64 (i32 (i32 (-ps) * 2 ^ hpllN)) : Int) / 8000)) := by
    have hbranch : ¬ 0 ≤ ps := not_le.mpr hneg
    simp only [fromPicosPpsi, ge_iff_le, hbranch, if_false]
    rw [i32_u64, hdiv _ _ (u64_lt _) (by decide) (by decide)]
    push_cast
    rfl
  rw [hquotient, hplain, i32_eq_iff, Int.neg_modEq_neg, hoperand]
  rw [product_eq ps]
  constructor
  · intro h
    exact (ediv_modEq_iff (by decide) (by decide)).mp h.symm
  · intro h
    exact ((ediv_modEq_iff (by decide) (by decide)).mpr h).symm

end Branches

/-- The two versions agree on a shift exactly when it is above `-2 ^ 17`, or in one of the two
ranges where the period of 8000 divides the lost turns. -/
theorem fromPicosPpsi_eq_iff {div64By32 : Div64By32} (hdiv : div64By32.Divides) {ps : Int}
    (hps : InI32 ps) :
    fromPicosPpsi div64By32 Board.wrc ps = fromPicos Board.wrc ps ↔
      -131072 < ps ∨ (-2097283072 < ps ∧ ps ≤ -2097152000) ∨
        (-1912602624 < ps ∧ ps ≤ -1912471552) := by
  rcases lt_or_ge ps 0 with hneg | hnonneg
  · rw [fromPicosPpsi_neg hdiv hneg]
    have hproduct := product_eq ps
    have hrange := i32_inI32 (i32 (-ps) * 2 ^ hpllN)
    generalize i32 (i32 (-ps) * 2 ^ hpllN) = product at hproduct hrange ⊢
    generalize lostTurns ps = turns at hproduct ⊢
    simp only [InI32, hpllN] at *
    split_ifs with hsign <;> omega
  · rw [fromPicosPpsi_nonneg hdiv hps hnonneg]
    simp only [true_iff]
    omega

/-- The last shift for which the product fits. -/
theorem fromPicosPpsi_eq_iff_fits :
    fromPicosPpsi (fun n base => n / base) Board.wrc (-131071) = fromPicos Board.wrc (-131071) :=
  (fromPicosPpsi_eq_iff (fun _ _ _ _ _ => rfl) (by decide)).mpr (Or.inl (by decide))

/-- One picosecond further, the product is `-2 ^ 31`, and its sign extension is divided. -/
theorem fromPicosPpsi_ne :
    ¬ ∀ (div64By32 : Div64By32), div64By32.Divides → ∀ ps, InI32 ps →
      fromPicosPpsi div64By32 Board.wrc ps = fromPicos Board.wrc ps := by
  intro h
  have hagree := h (fun n base => n / base) (fun _ _ _ _ _ => rfl) (-131072) (by decide)
  exact absurd hagree (by decide)

end Softpll
end WrpcSw
