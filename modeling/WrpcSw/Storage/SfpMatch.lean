import WrpcSw.Storage.SfpDb
import WrpcSw.Storage.I2cEeprom

/-!
# Matching an SFP (`eeprom_match_sfp`)

Both drivers look for the record of an SFP with the same loop over `eeprom_get_sfp`.  It
keeps one record on the stack, its bound is the return value of the first call, cut to
eight bits, and its index is a signed byte.

`RecordReads` is what the calls find at the positions of the database, and
`RecordReads.buffer` what they leave in the record on the stack.

* `Row` — a driver finds that, call after call.
* `match_hit`, `match_exhausted`, `match_endless` — how the loop ends.
* `match_terminates_iff` — when it does, within 256 calls.
* `finds_iff_of_count`, `finds_iff_of_bound` — when it finds the first good record.
-/

namespace WrpcSw
namespace Storage

open Memory CInt

/-! ## Part numbers and calibration -/

namespace SfpInfo

variable (sfp db : SfpInfo)

def pn : List UInt8 := sfp.bytes.take 16
def alpha : List UInt8 := (sfp.bytes.drop 16).take 4
def dTx : List UInt8 := (sfp.bytes.drop 20).take 4
def dRx : List UInt8 := (sfp.bytes.drop 24).take 4

/-- The three calibration values of a record. -/
def calibration : List UInt8 × List UInt8 × List UInt8 := (sfp.dTx, sfp.dRx, sfp.alpha)

/-- `sfp->dTx = dbsfp.dTx; sfp->dRx = dbsfp.dRx; sfp->alpha = dbsfp.alpha;` -/
def withCalibration : SfpInfo where
  bytes := sfp.bytes.take 16 ++ (db.alpha ++ db.dTx ++ db.dRx) ++ sfp.bytes.drop 28
  size_eq := by
    simp [alpha, dTx, dRx, sfpInfoSize]

theorem calibration_withCalibration : (sfp.withCalibration db).calibration = db.calibration := by
  have hpn : (sfp.bytes.take 16).length = 16 := by simp [sfpInfoSize]
  have halpha : db.alpha.length = 4 := by simp [alpha, sfpInfoSize]
  have hdTx : db.dTx.length = 4 := by simp [dTx, sfpInfoSize]
  have hdRx : db.dRx.length = 4 := by simp [dRx, sfpInfoSize]
  have hbytes : (sfp.withCalibration db).bytes =
      sfp.bytes.take 16 ++ (db.alpha ++ (db.dTx ++ (db.dRx ++ sfp.bytes.drop 28))) := by
    simp [withCalibration]
  have hafter : ∀ n, (sfp.withCalibration db).bytes.drop (16 + n) =
      (db.alpha ++ (db.dTx ++ (db.dRx ++ sfp.bytes.drop 28))).drop n := by
    intro n
    rw [hbytes, ← List.drop_drop, List.drop_left' hpn]
  unfold calibration
  congr 1
  · show ((sfp.withCalibration db).bytes.drop (16 + 4)).take 4 = _
    rw [hafter, List.drop_left' halpha, List.take_left' hdTx]
  · congr 1
    · show ((sfp.withCalibration db).bytes.drop (16 + (4 + 4))).take 4 = _
      rw [hafter, ← List.drop_drop, List.drop_left' halpha, List.drop_left' hdTx,
        List.take_left' hdRx]
    · show ((sfp.withCalibration db).bytes.drop (16 + 0)).take 4 = _
      rw [hafter, List.drop_zero, List.take_left' halpha]

end SfpInfo

/-- `strncmp` over at most `n` characters. -/
def strncmp : Nat → List UInt8 → List UInt8 → Int
  | 0, _, _ => 0
  | n + 1, a, b =>
      let x := a.headD 0
      let y := b.headD 0
      if x ≠ y then (x.toNat : Int) - y.toNat
      else if x = 0 then 0
      else strncmp n a.tail b.tail

/-- The characters of a string in an array, up to the first zero. -/
def chars (a : List UInt8) : List UInt8 := a.takeWhile (· ≠ 0)

/-- Two arrays compare equal exactly if they hold the same string. -/
theorem strncmp_eq_zero_iff {n : Nat} {a b : List UInt8} (ha : a.length = n) (hb : b.length = n) :
    strncmp n a b = 0 ↔ chars a = chars b := by
  induction n generalizing a b with
  | zero =>
      rw [List.length_eq_zero_iff] at ha hb
      simp [strncmp, ha, hb]
  | succ n ih =>
      match a, b, ha, hb with
      | x :: a, y :: b, ha, hb =>
          rw [List.length_cons, Nat.add_right_cancel_iff] at ha hb
          have hih := ih ha hb
          have hstep : strncmp (n + 1) (x :: a) (y :: b) =
              if x ≠ y then (x.toNat : Int) - y.toNat
              else if x = 0 then 0
              else strncmp n a b := rfl
          rw [hstep]
          unfold chars at hih ⊢
          rw [List.takeWhile_cons, List.takeWhile_cons]
          by_cases hxy : x = y
          · subst hxy
            by_cases hx : x = 0
            · simp [hx]
            · simp [hx, hih]
          · have hne : (x.toNat : Int) - y.toNat ≠ 0 := by
              intro hzero
              exact hxy (UInt8.toNat_inj.mp (by omega))
            rw [if_pos hxy]
            simp only [hne, false_iff]
            by_cases hx : x = 0
            · have hy : y ≠ 0 := fun hy => hxy (hx.trans hy.symm)
              simp [hx, hy]
            · by_cases hy : y = 0
              · simp [hx, hy]
              · simp [hx, hy, hxy]

/-! ## The loop -/

section Match

variable {σ : Type*} (getSfp : σ → SfpInfo → Nat → σ × Int × SfpInfo)

/-- The loop of `eeprom_match_sfp` over `eeprom_get_sfp(.., &dbsfp, 0, i)`, which may be called
`calls` times.  `sfpcount` is an unsigned and `i` a signed byte. -/
def matchLoop (sfp : SfpInfo) : Nat → σ → SfpInfo → Int → Int → Option (σ × Int × SfpInfo)
  | 0, s, _, sfpcount, i => if i < sfpcount then none else some (s, 0, sfp)
  | calls + 1, s, dbsfp, sfpcount, i =>
      if i < sfpcount then
        let r := getSfp s dbsfp (i % 256).toNat
        let temp := i8 r.2.1
        let sfpcount := if i = 0 then temp % 256 else sfpcount
        if i = 0 ∧ (sfpcount = 0 ∨ sfpcount = 0xff) then some (r.1, 0, sfp)
        else if i = 0 ∧ sfpcount < 0 then some (r.1, i8 sfpcount, sfp)
        else if strncmp 16 r.2.2.pn sfp.pn = 0 then some (r.1, 1, sfp.withCalibration r.2.2)
        else matchLoop sfp calls r.1 r.2.2 sfpcount (i8 (i + 1))
      else some (s, 0, sfp)

/-- The return value and the caller's record, if at most `calls` calls of `eeprom_get_sfp` are
enough.  `dbsfp` is what happens to be on the stack. -/
def eepromMatchSfp (calls : Nat) (s : σ) (dbsfp sfp : SfpInfo) : Option (σ × Int × SfpInfo) :=
  matchLoop getSfp sfp calls s dbsfp 1 0

/-- More calls do not change a result. -/
theorem matchLoop_mono (sfp : SfpInfo) {calls calls' : Nat} (hle : calls ≤ calls') {s : σ}
    {dbsfp : SfpInfo} {sfpcount i : Int} {r : σ × Int × SfpInfo}
    (h : matchLoop getSfp sfp calls s dbsfp sfpcount i = some r) :
    matchLoop getSfp sfp calls' s dbsfp sfpcount i = some r := by
  induction calls generalizing calls' s dbsfp sfpcount i with
  | zero =>
      have hend : ¬ i < sfpcount := by
        intro hlt
        rw [matchLoop, if_pos hlt] at h
        cases h
      rw [matchLoop, if_neg hend] at h
      cases calls' with
      | zero => rw [matchLoop, if_neg hend, h]
      | succ calls' => rw [matchLoop, if_neg hend, h]
  | succ calls ih =>
      obtain ⟨n, rfl⟩ : ∃ n, calls' = n + 1 := ⟨calls' - 1, by omega⟩
      rw [matchLoop] at h ⊢
      by_cases hguard : i < sfpcount
      · rw [if_pos hguard] at h ⊢
        simp only at h ⊢
        generalize (if i = 0 then i8 (getSfp s dbsfp (i % 256).toNat).2.1 % 256 else sfpcount) =
          count at h ⊢
        by_cases hnone : i = 0 ∧ (count = 0 ∨ count = 0xff)
        · rwa [if_pos hnone] at h ⊢
        · rw [if_neg hnone] at h ⊢
          by_cases herror : i = 0 ∧ count < 0
          · rwa [if_pos herror] at h ⊢
          · rw [if_neg herror] at h ⊢
            by_cases hhit : strncmp 16 (getSfp s dbsfp (i % 256).toNat).2.2.pn sfp.pn = 0
            · rwa [if_pos hhit] at h ⊢
            · rw [if_neg hhit] at h ⊢
              exact ih (by omega) h
      · rwa [if_neg hguard] at h ⊢

/-- A loop that is never left: its bound is out of reach of the index, no record matches, and the
first position returns the same bound again. -/
theorem matchLoop_forever {I : σ → SfpInfo → Prop} {sfp : SfpInfo} {count : Int}
    (hlarge : 127 < count) (herror : count ≠ 0xff)
    (hcall : ∀ t buf pos, I t buf → I (getSfp t buf pos).1 (getSfp t buf pos).2.2 ∧
      strncmp 16 (getSfp t buf pos).2.2.pn sfp.pn ≠ 0 ∧
      (pos = 0 → i8 (getSfp t buf pos).2.1 % 256 = count))
    (calls : Nat) {t : σ} {buf : SfpInfo} (h : I t buf) {i : Int} (hlo : -128 ≤ i)
    (hhi : i ≤ 127) : matchLoop getSfp sfp calls t buf count i = none := by
  induction calls generalizing t buf i with
  | zero => rw [matchLoop, if_pos (by omega)]
  | succ calls ih =>
      obtain ⟨hkeep, hmiss, hfirst⟩ := hcall t buf (i % 256).toNat h
      have hcount : (if i = 0 then i8 (getSfp t buf (i % 256).toNat).2.1 % 256 else count) =
          count := by
        by_cases hzero : i = 0
        · rw [if_pos hzero, hfirst (by omega)]
        · rw [if_neg hzero]
      have hwrap : -128 ≤ i8 (i + 1) ∧ i8 (i + 1) ≤ 127 := by
        unfold i8
        omega
      rw [matchLoop, if_pos (by omega)]
      simp only [hcount]
      rw [if_neg (by omega), if_neg (by omega), if_neg hmiss]
      exact ih hkeep hwrap.1 hwrap.2

end Match

/-! ## What the calls find -/

/-- What a row of calls finds at the positions `0, 1, 2, ..`: the record there, how many of its
bytes arrive, and whether the whole call succeeds. -/
structure RecordReads where
  record : Nat → SfpInfo
  arrived : Nat → Nat
  whole : Nat → Bool
  whole_arrived : ∀ pos, whole pos = true → sfpInfoSize ≤ arrived pos
  behind : ∀ pos, sfpsMax ≤ pos → arrived pos = 0

namespace RecordReads

variable (v : RecordReads) (dbsfp sfp : SfpInfo)

def bytes (pos : Nat) : List UInt8 := (v.record pos).bytes.take (v.arrived pos)

/-- The record on the stack after the call for a position. -/
def buffer : Nat → SfpInfo
  | 0 => dbsfp.fill (v.bytes 0)
  | pos + 1 => (buffer pos).fill (v.bytes (pos + 1))

/-- The part number of a record is the one that is looked for. -/
def SamePn (r sfp : SfpInfo) : Prop := strncmp 16 r.pn sfp.pn = 0

instance (r sfp : SfpInfo) : Decidable (SamePn r sfp) := inferInstanceAs (Decidable (_ = _))

/-- The record at a position was read and its checksum is right. -/
def Intact (pos : Nat) : Prop :=
  v.whole pos = true ∧ (v.record pos).checksum = (v.record pos).chksum

instance (pos : Nat) : Decidable (v.Intact pos) := inferInstanceAs (Decidable (_ ∧ _))

/-- The position holds the record that is looked for. -/
def Good (pos : Nat) : Prop := v.Intact pos ∧ SamePn (v.record pos) sfp

/-- The record on the stack has the part number that is looked for. -/
def Hit (pos : Nat) : Prop := SamePn (v.buffer dbsfp pos) sfp

instance (pos : Nat) : Decidable (v.Hit dbsfp sfp pos) := inferInstanceAs (Decidable (SamePn _ _))

theorem bytes_behind {pos : Nat} (h : sfpsMax ≤ pos) : v.bytes pos = [] := by
  rw [bytes, v.behind pos h, List.take_zero]

theorem fill_nil (r : SfpInfo) : r.fill [] = r := by
  cases r
  rfl

/-- Behind the last position the record on the stack stays. -/
theorem buffer_behind {pos : Nat} (h : 3 ≤ pos) : v.buffer dbsfp pos = v.buffer dbsfp 3 := by
  induction pos, h using Nat.le_induction with
  | base => rfl
  | succ pos hpos ih => rw [buffer, v.bytes_behind (by unfold sfpsMax; omega), fill_nil, ih]

/-- A whole record is on the stack afterwards. -/
theorem buffer_whole {pos : Nat} (h : v.whole pos = true) : v.buffer dbsfp pos = v.record pos := by
  have hbytes : v.bytes pos = (v.record pos).bytes :=
    List.take_of_length_le (by rw [SfpInfo.length_bytes]; exact v.whole_arrived pos h)
  cases pos with
  | zero => rw [buffer, hbytes, SfpInfo.fill_bytes]
  | succ pos => rw [buffer, hbytes, SfpInfo.fill_bytes]

variable {v dbsfp sfp}

theorem Good.hit {pos : Nat} (h : v.Good sfp pos) : v.Hit dbsfp sfp pos := by
  unfold Hit
  rw [v.buffer_whole dbsfp h.1.1]
  exact h.2

/-- A hit behind the last position was one at the last position. -/
theorem Hit.clip {pos : Nat} (h : v.Hit dbsfp sfp pos) : v.Hit dbsfp sfp (min pos 3) := by
  rcases Nat.lt_or_ge pos 3 with hlt | hge
  · rwa [Nat.min_eq_left hlt.le]
  · rw [Nat.min_eq_right hge]
    unfold Hit at h ⊢
    rwa [v.buffer_behind dbsfp hge] at h

end RecordReads

/-! ## How the loop ends -/

section Row

variable {σ : Type*} {getSfp : σ → SfpInfo → Nat → σ × Int × SfpInfo}

/-- A driver goes through the states `st` while it is called for one position after the other,
finds what `v` says and returns `ret` in the first call. -/
structure Row (getSfp : σ → SfpInfo → Nat → σ × Int × SfpInfo) (v : RecordReads) (ret : Int)
    (st : Nat → σ) : Prop where
  first : ∀ buf, getSfp (st 0) buf 0 = (st 1, ret, buf.fill (v.bytes 0))
  later : ∀ pos, 0 < pos → ∀ buf,
    ∃ ret', getSfp (st pos) buf pos = (st (pos + 1), ret', buf.fill (v.bytes pos))

/-- The bound of the loop: the first return value, cut to eight bits. -/
def boundOf (ret : Int) : Int := i8 ret % 256

theorem boundOf_count (count : UInt8) : boundOf count.toNat = count.toNat := by
  have hlt := count.toNat_lt
  unfold boundOf i8
  omega

variable {v : RecordReads} {ret : Int} {st : Nat → σ} (h : Row getSfp v ret st) (dbsfp sfp : SfpInfo)

include h

/-- The first round. -/
theorem match_start (calls : Nat) :
    eepromMatchSfp getSfp (calls + 1) (st 0) dbsfp sfp =
      if boundOf ret = 0 ∨ boundOf ret = 0xff then some (st 1, 0, sfp)
      else if v.Hit dbsfp sfp 0 then some (st 1, 1, sfp.withCalibration (v.buffer dbsfp 0))
      else matchLoop getSfp sfp calls (st 1) (v.buffer dbsfp 0) (boundOf ret) 1 := by
  have hbound : ¬ boundOf ret < 0 := by
    unfold boundOf
    omega
  have hcall := h.first dbsfp
  unfold eepromMatchSfp
  rw [matchLoop, if_pos (by decide : (0 : Int) < 1)]
  simp only [show ((0 : Int) % 256).toNat = 0 from rfl, hcall, if_true, true_and]
  rw [show i8 ret % 256 = boundOf ret from rfl, if_neg hbound]
  rfl

/-- A later round. -/
theorem match_step {pos : Nat} (hpos : pos + 1 < 256) {count : Int}
    (hguard : i8 (pos + 1 : Nat) < count) (calls : Nat) :
    matchLoop getSfp sfp (calls + 1) (st (pos + 1)) (v.buffer dbsfp pos) count
        (i8 (pos + 1 : Nat)) =
      if v.Hit dbsfp sfp (pos + 1) then
        some (st (pos + 2), 1, sfp.withCalibration (v.buffer dbsfp (pos + 1)))
      else matchLoop getSfp sfp calls (st (pos + 2)) (v.buffer dbsfp (pos + 1)) count
        (i8 (pos + 2 : Nat)) := by
  have hindex : (i8 (pos + 1 : Nat) % 256).toNat = pos + 1 := by
    unfold i8
    omega
  have hnonzero : i8 (pos + 1 : Nat) ≠ 0 := by
    unfold i8
    omega
  have hnext : i8 (i8 (pos + 1 : Nat) + 1) = i8 (pos + 2 : Nat) := by
    unfold i8
    omega
  obtain ⟨ret', hcall⟩ := h.later (pos + 1) (Nat.succ_pos pos) (v.buffer dbsfp pos)
  rw [matchLoop, if_pos hguard]
  simp only [hindex, hcall, hnonzero, if_false, false_and, hnext]
  rfl

/-- The rounds up to a position, without a hit. -/
theorem match_scan {count : Int} (j : Nat) (hj : j < 256)
    (hscan : ∀ pos, pos < j → i8 (pos + 1 : Nat) < count ∧ ¬ v.Hit dbsfp sfp (pos + 1))
    (calls : Nat) :
    matchLoop getSfp sfp (calls + j) (st 1) (v.buffer dbsfp 0) count 1 =
      matchLoop getSfp sfp calls (st (j + 1)) (v.buffer dbsfp j) count (i8 (j + 1 : Nat)) := by
  induction j generalizing calls with
  | zero => rfl
  | succ j ih =>
      obtain ⟨hguard, hmiss⟩ := hscan j (Nat.lt_succ_self j)
      have hbefore := ih (by omega) (fun pos hpos => hscan pos (by omega)) (calls + 1)
      rw [show calls + 1 + j = calls + (j + 1) by ring] at hbefore
      rw [hbefore, match_step h dbsfp sfp hj hguard, if_neg hmiss]

/-- A first call that fails, or a count of zero. -/
theorem match_none (hnone : boundOf ret = 0 ∨ boundOf ret = 0xff) (calls : Nat) :
    eepromMatchSfp getSfp (calls + 1) (st 0) dbsfp sfp = some (st 1, 0, sfp) := by
  rw [match_start h, if_pos hnone]

variable {dbsfp sfp} (hbound : ¬ (boundOf ret = 0 ∨ boundOf ret = 0xff))

include hbound

/-- The first hit below the bound ends the loop. -/
theorem match_hit {pos : Nat} (hpos : pos < 4) (hlt : (pos : Int) < boundOf ret)
    (hhit : v.Hit dbsfp sfp pos) (hfirst : ∀ k, k < pos → ¬ v.Hit dbsfp sfp k) (calls : Nat) :
    eepromMatchSfp getSfp (calls + (pos + 1)) (st 0) dbsfp sfp =
      some (st (pos + 1), 1, sfp.withCalibration (v.buffer dbsfp pos)) := by
  rw [← Nat.add_assoc, match_start h, if_neg hbound]
  cases pos with
  | zero => rw [if_pos hhit]
  | succ pos =>
      rw [if_neg (hfirst 0 (Nat.succ_pos pos)), show calls + (pos + 1) = calls + 1 + pos by ring,
        match_scan h dbsfp sfp pos (by omega)
          (fun k hk => ⟨by unfold i8; omega, hfirst (k + 1) (by omega)⟩),
        match_step h dbsfp sfp (by omega) (by unfold i8; omega), if_pos hhit]

/-- Without a hit, a bound that the index can reach ends it. -/
theorem match_exhausted (hle : boundOf ret ≤ 127)
    (hmiss : ∀ k : Nat, (k : Int) < boundOf ret → ¬ v.Hit dbsfp sfp k) (calls : Nat) :
    eepromMatchSfp getSfp (calls + (boundOf ret).toNat) (st 0) dbsfp sfp =
      some (st (boundOf ret).toNat, 0, sfp) := by
  have hpos : 0 < boundOf ret := by
    have hne : boundOf ret ≠ 0 := fun hzero => hbound (Or.inl hzero)
    have hnonneg : 0 ≤ boundOf ret := by
      unfold boundOf
      omega
    omega
  obtain ⟨n, hn⟩ : ∃ n : Nat, boundOf ret = (n + 1 : Nat) := ⟨(boundOf ret).toNat - 1, by omega⟩
  have htoNat : (boundOf ret).toNat = n + 1 := by omega
  rw [htoNat, ← Nat.add_assoc, match_start h, if_neg hbound, if_neg (hmiss 0 hpos), hn,
    match_scan h dbsfp sfp n (by omega)
      (fun k hk => ⟨by unfold i8; omega, hmiss (k + 1) (by omega)⟩)]
  have hend : ¬ i8 (n + 1 : Nat) < ((n + 1 : Nat) : Int) := by
    unfold i8
    omega
  cases calls with
  | zero => rw [matchLoop, if_neg hend]
  | succ calls => rw [matchLoop, if_neg hend]

/-- Without a hit, a larger bound is not reached in 256 calls. -/
theorem match_endless (hlarge : 127 < boundOf ret) (hmiss : ∀ k < 256, ¬ v.Hit dbsfp sfp k) :
    eepromMatchSfp getSfp 256 (st 0) dbsfp sfp = none := by
  have hrounds : ∀ pos, pos < 255 →
      i8 (pos + 1 : Nat) < boundOf ret ∧ ¬ v.Hit dbsfp sfp (pos + 1) := fun pos hpos =>
    ⟨by unfold i8; omega, hmiss (pos + 1) (by omega)⟩
  have hscan := match_scan h dbsfp sfp 255 (by omega) hrounds 0
  have hwrapped : i8 ((255 + 1 : Nat) : Int) < boundOf ret := by
    unfold i8
    omega
  rw [match_start h, if_neg hbound, if_neg (hmiss 0 (by decide)), hscan, matchLoop,
    if_pos hwrapped]

omit hbound

/-- The loop ends within 256 calls exactly if its index can reach its bound, or one of the first
four rounds ends it. -/
theorem match_terminates_iff :
    (eepromMatchSfp getSfp 256 (st 0) dbsfp sfp).isSome ↔
      boundOf ret ≤ 127 ∨ boundOf ret = 255 ∨ ∃ pos < 4, v.Hit dbsfp sfp pos := by
  by_cases hnone : boundOf ret = 0 ∨ boundOf ret = 0xff
  · rw [match_none h dbsfp sfp hnone 255]
    simp only [Option.isSome_some, true_iff]
    omega
  · by_cases hsome : ∃ pos < 4, v.Hit dbsfp sfp pos ∧ (pos : Int) < boundOf ret
    · classical
      obtain ⟨hpos, hhit, hlt⟩ := Nat.find_spec hsome
      have hfirst : ∀ k, k < Nat.find hsome → ¬ v.Hit dbsfp sfp k := fun k hk hk' =>
        Nat.find_min hsome hk ⟨by omega, hk', by omega⟩
      have hend := match_hit h hnone hpos hlt hhit hfirst (256 - (Nat.find hsome + 1))
      rw [Nat.sub_add_cancel (by omega)] at hend
      rw [hend]
      simp only [Option.isSome_some, true_iff]
      exact Or.inr (Or.inr ⟨_, hpos, hhit⟩)
    · have hmiss : ∀ k : Nat, (k : Int) < boundOf ret → ¬ v.Hit dbsfp sfp k := by
        intro k hk hhit
        exact hsome ⟨min k 3, by omega, hhit.clip, by omega⟩
      by_cases hle : boundOf ret ≤ 127
      · have hend := match_exhausted h hnone hle hmiss (256 - (boundOf ret).toNat)
        rw [Nat.sub_add_cancel (by omega)] at hend
        rw [hend]
        simp only [Option.isSome_some, true_iff]
        exact Or.inl hle
      · rw [match_endless h hnone (by omega)
          (fun k _ hhit => hmiss (min k 3) (by omega) hhit.clip)]
        simp only [Option.isSome_none, Bool.false_eq_true, false_iff]
        rintro (hle' | h255 | ⟨pos, hpos, hhit⟩)
        · exact hle hle'
        · exact hnone (Or.inr h255)
        · exact hmiss pos (by omega) hhit

end Row

/-! ## Finding the valid record -/

/-- The search returns, and it finds exactly the first good record below the count `c`. -/
def Finds {σ : Type*} (v : RecordReads) (c : Nat) (sfp : SfpInfo)
    (search : Nat → Option (σ × Int × SfpInfo)) : Prop :=
  ∃ calls s' ret sfp', search calls = some (s', ret, sfp') ∧
    (ret = 1 ↔ ∃ pos < c, v.Good sfp pos) ∧
    (∀ pos < c, v.Good sfp pos → (∀ k < pos, ¬ v.Good sfp k) →
      sfp'.calibration = (v.record pos).calibration) ∧
    ((∀ pos < c, ¬ v.Good sfp pos) → sfp' = sfp)

/-- The first record below `bound` that shows the part number on the stack has the calibration of
the first good record, and there is one. -/
def Undisturbed (v : RecordReads) (bound c : Nat) (dbsfp sfp : SfpInfo) : Prop :=
  ∀ pos < bound, v.Hit dbsfp sfp pos → (∀ k < pos, ¬ v.Hit dbsfp sfp k) →
    ∃ good < c, v.Good sfp good ∧ (∀ k < good, ¬ v.Good sfp k) ∧
      (v.buffer dbsfp pos).calibration = (v.record good).calibration

section Finds

variable {σ : Type*} {getSfp : σ → SfpInfo → Nat → σ × Int × SfpInfo} {v : RecordReads} {c : Nat}
  {dbsfp sfp : SfpInfo} {s : σ}

/-- The search is judged by any of its results. -/
theorem finds_iff_of_result {calls : Nat} {s' : σ} {ret : Int} {sfp' : SfpInfo}
    (hresult : eepromMatchSfp getSfp calls s dbsfp sfp = some (s', ret, sfp')) :
    Finds v c sfp (fun calls => eepromMatchSfp getSfp calls s dbsfp sfp) ↔
      (ret = 1 ↔ ∃ pos < c, v.Good sfp pos) ∧
      (∀ pos < c, v.Good sfp pos → (∀ k < pos, ¬ v.Good sfp k) →
        sfp'.calibration = (v.record pos).calibration) ∧
      ((∀ pos < c, ¬ v.Good sfp pos) → sfp' = sfp) := by
  constructor
  · rintro ⟨calls', s'', ret', sfp'', hresult', hfinds⟩
    have hleft := matchLoop_mono getSfp sfp (Nat.le_max_left calls calls') hresult
    have hright := matchLoop_mono getSfp sfp (Nat.le_max_right calls calls') hresult'
    obtain ⟨-, rfl, rfl⟩ : s' = s'' ∧ ret = ret' ∧ sfp' = sfp'' := by
      have heq := hleft.symm.trans hright
      simpa using heq
    exact hfinds
  · intro hfinds
    exact ⟨calls, s', ret, sfp', hresult, hfinds⟩

/-- A search that gives up. -/
theorem finds_of_none {calls : Nat} {s' : σ}
    (hresult : eepromMatchSfp getSfp calls s dbsfp sfp = some (s', 0, sfp)) :
    Finds v c sfp (fun calls => eepromMatchSfp getSfp calls s dbsfp sfp) ↔
      ∀ pos < c, ¬ v.Good sfp pos := by
  rw [finds_iff_of_result hresult]
  constructor
  · rintro ⟨hret, -, -⟩ pos hpos hgood
    exact absurd (hret.mpr ⟨pos, hpos, hgood⟩) (by decide)
  · intro hnone
    refine ⟨⟨fun hret => absurd hret (by decide), ?_⟩, ?_, fun _ => rfl⟩
    · rintro ⟨pos, hpos, hgood⟩
      exact absurd hgood (hnone pos hpos)
    · intro pos hpos hgood
      exact absurd hgood (hnone pos hpos)

/-- A search that ends with a hit. -/
theorem finds_of_hit {calls pos : Nat} {s' : σ}
    (hresult : eepromMatchSfp getSfp calls s dbsfp sfp =
      some (s', 1, sfp.withCalibration (v.buffer dbsfp pos))) :
    Finds v c sfp (fun calls => eepromMatchSfp getSfp calls s dbsfp sfp) ↔
      ∃ good < c, v.Good sfp good ∧ (∀ k < good, ¬ v.Good sfp k) ∧
        (v.buffer dbsfp pos).calibration = (v.record good).calibration := by
  rw [finds_iff_of_result hresult, SfpInfo.calibration_withCalibration]
  constructor
  · rintro ⟨hret, hcalibration, -⟩
    classical
    have hsome := hret.mp rfl
    obtain ⟨hlt, hgood⟩ := Nat.find_spec hsome
    have hfirst : ∀ k < Nat.find hsome, ¬ v.Good sfp k := fun k hk hk' =>
      Nat.find_min hsome hk ⟨by omega, hk'⟩
    exact ⟨_, hlt, hgood, hfirst, hcalibration _ hlt hgood hfirst⟩
  · rintro ⟨good, hlt, hgood, hfirst, hcalibration⟩
    refine ⟨⟨fun _ => ⟨good, hlt, hgood⟩, fun _ => rfl⟩, ?_, ?_⟩
    · intro pos' hpos' hgood' hfirst'
      obtain rfl : pos' = good := by
        rcases Nat.lt_trichotomy pos' good with hless | heq | hmore
        · exact absurd hgood' (hfirst pos' hless)
        · exact heq
        · exact absurd hgood (hfirst' good hmore)
      exact hcalibration
    · intro hnone
      exact absurd hgood (hnone good hlt)

variable {st : Nat → σ} {ret : Int} (h : Row getSfp v ret st)

include h

/-- The search after a first call that returned a count or an error code as a bound. -/
theorem finds_iff_of_bound (hbound : ¬ (boundOf ret = 0 ∨ boundOf ret = 0xff)) {bound : Nat}
    (hbound' : (bound : Int) ≤ boundOf ret) (hmax : bound ≤ 4)
    (hsome : ∃ pos < bound, v.Hit dbsfp sfp pos) :
    Finds v c sfp (fun calls => eepromMatchSfp getSfp calls (st 0) dbsfp sfp) ↔
      Undisturbed v bound c dbsfp sfp := by
  classical
  obtain ⟨hlt, hhit⟩ := Nat.find_spec hsome
  have hfirst : ∀ k, k < Nat.find hsome → ¬ v.Hit dbsfp sfp k := fun k hk hk' =>
    Nat.find_min hsome hk ⟨by omega, hk'⟩
  rw [finds_of_hit (match_hit h hbound (by omega) (by omega) hhit hfirst 0)]
  constructor
  · intro hgood pos hpos hhit' hfirst'
    obtain rfl : pos = Nat.find hsome := by
      rcases Nat.lt_trichotomy pos (Nat.find hsome) with hless | heq | hmore
      · exact absurd hhit' (hfirst pos hless)
      · exact heq
      · exact absurd hhit (hfirst' _ hmore)
    exact hgood
  · intro hundisturbed
    exact hundisturbed _ hlt hhit hfirst

/-- The search after a first call that returned the count. -/
theorem finds_iff_of_count (hret : boundOf ret = c) (hpos : 0 < c) (hmax : c ≤ 4) :
    Finds v c sfp (fun calls => eepromMatchSfp getSfp calls (st 0) dbsfp sfp) ↔
      Undisturbed v c c dbsfp sfp := by
  have hbound : ¬ (boundOf ret = 0 ∨ boundOf ret = 0xff) := by omega
  by_cases hsome : ∃ pos < c, v.Hit dbsfp sfp pos
  · exact finds_iff_of_bound h hbound (by omega) hmax hsome
  · have hmiss : ∀ k : Nat, (k : Int) < boundOf ret → ¬ v.Hit dbsfp sfp k := fun k hk hhit =>
      hsome ⟨k, by omega, hhit⟩
    rw [finds_of_none (match_exhausted h hbound (by omega) hmiss 0)]
    constructor
    · intro _ pos hpos' hhit
      exact absurd ⟨pos, hpos', hhit⟩ hsome
    · intro _ pos hpos' hgood
      exact hsome ⟨pos, hpos', hgood.hit⟩

end Finds

end Storage
end WrpcSw
