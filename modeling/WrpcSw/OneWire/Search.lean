import Mathlib.Algebra.Group.Nat.Defs
import Mathlib.Data.Finset.Card
import WrpcSw.Lib.BitTrie

/-!
# One pass of the 1-wire search (`dev/w1.c`)

`__w1_scan_one` sends the search command and then, for each of the 64 bits of the ROM
codes, reads the bit and its complement and writes the bit to follow.  The code is
generic in the bus operations; the ideal bus answers with the conjunction of what its
devices send.

* `w1ScanOne_spec` — on the ideal bus, a pass ends at the device that the low half of
  the old code chooses, and marks the open branches on its way.
-/

namespace WrpcSw
namespace OneWire

open BitTrie

/-- `struct w1_ops`. -/
structure W1Ops (β : Type) where
  reset : β → Int × β
  readBit : β → Int × β
  writeBit : β → Int → β

section Code

variable {β : Type} (ops : W1Ops β)

def w1WriteByte (bus : β) (byte : Nat) : β :=
  (List.range 8).foldl (fun bus i => ops.writeBit bus (if byte.testBit i then 1 else 0)) bus

/-- `enum __bits`. -/
inductive Bits where
  | b0
  | b1
  | both
deriving DecidableEq

def getDibit (bus : β) (select : Int) : Bits × β :=
  let (a, bus) := ops.readBit bus
  let (b, bus) := ops.readBit bus
  if a ≠ b then (if a ≠ 0 then .b1 else .b0, ops.writeBit bus a)
  else (.both, ops.writeBit bus select)

/-- The variables of `__w1_scan_one`. -/
structure ScanState (β : Type) where
  rom : BitVec 64
  cmask : BitVec 64
  bus : β

/-- The body of the loop over the bits.  `select` is an `int`: it has the low half of
what it is computed from. -/
def scanBit (s : ScanState β) (mask : BitVec 64) : ScanState β :=
  let select : Int := ((s.rom &&& mask).setWidth 32).toInt
  let (b, bus) := getDibit ops s.bus select
  match b with
  | .b1 => { s with rom := s.rom ||| mask, bus := bus }
  | .b0 => { s with bus := bus }
  | .both => { s with cmask := if select = 0 then s.cmask ||| mask else s.cmask, bus := bus }

/-- The loop over the bits, which ends when `mask` has been shifted out. -/
def scanBits : Nat → BitVec 64 → ScanState β → ScanState β
  | 0, _, s => s
  | n + 1, mask, s => if mask = 0#64 then s else scanBits n (mask <<< 1) (scanBit ops s mask)

/-- The return value, and the state that is left. -/
def w1ScanOne (s : ScanState β) : Int × ScanState β :=
  let (present, bus) := ops.reset s.bus
  if present ≠ 1 then (-1, { s with bus := bus })
  else (0, scanBits ops 64 1#64 { s with cmask := 0#64, bus := w1WriteByte ops bus 0xf0 })

end Code

/-! ## The ideal bus -/

/-- What the devices expect: the bits of a command, or one of the three slots of a bit
of the search. -/
inductive BusPhase where
  | idle
  | command (count value : Nat)
  | bit (i : Nat)
  | complement (i : Nat)
  | direction (i : Nat)

/-- The devices on the bus, by their codes, and those that take part in the search. -/
structure IdealBus where
  devs : Finset (BitVec 64)
  active : Finset (BitVec 64)
  phase : BusPhase

/-- The bits of a code, the way the trie is searched. -/
def romBit (d : BitVec 64) (i : Nat) : Bool := d.getLsbD i

/-- The bus reads 1 when every participating device sends 1, or none sends. -/
def IdealBus.readBit (bus : IdealBus) : Int × IdealBus :=
  match bus.phase with
  | .bit i =>
      (if ∀ d ∈ bus.active, romBit d i = true then 1 else 0,
        { bus with phase := .complement i })
  | .complement i =>
      (if ∀ d ∈ bus.active, romBit d i = false then 1 else 0,
        { bus with phase := .direction i })
  | _ => (1, bus)

/-- A device drops out when its bit differs from the one written. -/
def IdealBus.writeBit (bus : IdealBus) (bit : Int) : IdealBus :=
  match bus.phase with
  | .command count value =>
      let value := value + if bit ≠ 0 then 2 ^ count else 0
      if count < 7 then { bus with phase := .command (count + 1) value }
      else if value = 0xf0 then { bus with phase := .bit 0, active := bus.devs }
      else { bus with phase := .idle }
  | .direction i =>
      { bus with
        active := bus.active.filter fun d => romBit d i = decide (bit ≠ 0)
        phase := if i < 63 then .bit (i + 1) else .idle }
  | _ => bus

def idealOps : W1Ops IdealBus where
  reset bus := (1, { bus with phase := .command 0 0 })
  readBit := IdealBus.readBit
  writeBit := IdealBus.writeBit

/-! ## The pass on the ideal bus -/

theorem romBit_injective : Function.Injective romBit := fun _ _ h =>
  BitVec.eq_of_getLsbD_eq fun i _ => congrFun h i

theorem key_injective : Function.Injective (key romBit) := fun _ _ h =>
  romBit_injective (toLex.injective h)

/-- The bits of the old code that reach `select`. -/
def selectBit (rom : BitVec 64) (i : Nat) : Bool := decide (i < 32) && rom.getLsbD i

theorem select_eq_zero {rom : BitVec 64} {k : Nat} :
    ((rom &&& BitVec.twoPow 64 k).setWidth 32).toInt = 0 ↔ selectBit rom k = false := by
  have hzero : ∀ x : BitVec 32, x.toInt = 0 ↔ x = 0#32 := fun x => by
    rw [← BitVec.toInt_inj, BitVec.toInt_zero]
  have hbit : ∀ i, ((rom &&& BitVec.twoPow 64 k).setWidth 32).getLsbD i =
      (decide (i < 32) && (rom.getLsbD i && (decide (k < 64) && decide (k = i)))) := fun i => by
    rw [BitVec.getLsbD_setWidth, BitVec.getLsbD_and, BitVec.getLsbD_twoPow]
  rw [hzero, selectBit]
  constructor
  · intro hselect
    have hk := hbit k
    rw [hselect, BitVec.getLsbD_zero] at hk
    cases hrom : rom.getLsbD k with
    | false => exact Bool.and_false _
    | true =>
        have hlt : k < 64 := BitVec.lt_of_getLsbD hrom
        rw [hrom, decide_eq_true hlt, decide_eq_true rfl] at hk
        exact hk.symm
  · intro hselect
    apply BitVec.eq_of_getLsbD_eq
    intro i hi
    rw [hbit i, BitVec.getLsbD_zero]
    by_cases hik : k = i
    · subst hik
      rw [← Bool.and_assoc, hselect, Bool.false_and]
    · simp [hik]

/-- The search command starts the search with all devices. -/
theorem w1WriteByte_search (bus : IdealBus) :
    w1WriteByte idealOps { bus with phase := .command 0 0 } 0xf0 =
      { bus with phase := .bit 0, active := bus.devs } := by
  rfl

/-- The bus after the three slots of bit `k`, when `v` was written. -/
def IdealBus.follow (bus : IdealBus) (k : Nat) (v : Bool) : IdealBus :=
  { bus with
    active := bus.active.filter fun d => romBit d k = v
    phase := if k < 63 then .bit (k + 1) else .idle }

section Dibit

variable {bus : IdealBus} {k : Nat} (hphase : bus.phase = .bit k)

include hphase

/-- The three slots of a bit: the bit, its complement, and the direction. -/
theorem getDibit_ideal (select : Int) :
    getDibit idealOps bus select =
      let a : Int := if ∀ d ∈ bus.active, romBit d k = true then 1 else 0
      let b : Int := if ∀ d ∈ bus.active, romBit d k = false then 1 else 0
      if a ≠ b then (if a ≠ 0 then .b1 else .b0, bus.follow k (decide (a ≠ 0)))
      else (.both, bus.follow k (decide (select ≠ 0))) := by
  obtain ⟨devs, active, phase⟩ := bus
  change phase = .bit k at hphase
  subst hphase
  simp only [getDibit, idealOps, IdealBus.readBit, IdealBus.writeBit, IdealBus.follow]

variable (hsome : bus.active.Nonempty) (select : Int)

include hsome

theorem getDibit_ones (hones : ∀ d ∈ bus.active, romBit d k = true) :
    getDibit idealOps bus select = (.b1, bus.follow k true) := by
  obtain ⟨d, hd⟩ := hsome
  have hzeros : ¬ ∀ d ∈ bus.active, romBit d k = false := fun h =>
    Bool.noConfusion ((h d hd).symm.trans (hones d hd))
  rw [getDibit_ideal hphase, if_pos hones, if_neg hzeros]
  rfl

theorem getDibit_zeros (hzeros : ∀ d ∈ bus.active, romBit d k = false) :
    getDibit idealOps bus select = (.b0, bus.follow k false) := by
  obtain ⟨d, hd⟩ := hsome
  have hones : ¬ ∀ d ∈ bus.active, romBit d k = true := fun h =>
    Bool.noConfusion ((hzeros d hd).symm.trans (h d hd))
  rw [getDibit_ideal hphase, if_neg hones, if_pos hzeros]
  rfl

omit hsome in
theorem getDibit_both (hones : ¬ ∀ d ∈ bus.active, romBit d k = true)
    (hzeros : ¬ ∀ d ∈ bus.active, romBit d k = false) :
    getDibit idealOps bus select = (.both, bus.follow k (decide (select ≠ 0))) := by
  rw [getDibit_ideal hphase, if_neg hones, if_neg hzeros]
  rfl

end Dibit

theorem romBit_or_twoPow {k : Nat} (hk : k < 64) (d : BitVec 64) (j : Nat) :
    romBit (d ||| BitVec.twoPow 64 k) j = if j = k then true else romBit d j := by
  rw [romBit, BitVec.getLsbD_or, BitVec.getLsbD_twoPow, decide_eq_true hk, Bool.true_and]
  by_cases hjk : j = k
  · rw [if_pos hjk, decide_eq_true hjk.symm, Bool.or_true]
  · rw [if_neg hjk, decide_eq_false (Ne.symm hjk), Bool.or_false, romBit]

/-- The loop over the bits, before bit `k`: the devices that participate are those on
the way of each of them, which has followed `select` where the set branches. -/
structure ScanInv (D : Finset (BitVec 64)) (rom₀ : BitVec 64) (k : Nat)
    (s : ScanState IdealBus) : Prop where
  devs : s.bus.devs = D
  phase : s.bus.phase = if k < 64 then .bit k else .idle
  nonempty : s.bus.active.Nonempty
  active : ∀ e ∈ s.bus.active, ∀ d, d ∈ s.bus.active ↔ d ∈ D ∧ Agree romBit k d e
  follows : ∀ e ∈ s.bus.active, ∀ j, j < k → Branches romBit D e j →
    romBit e j = selectBit rom₀ j
  rom : ∀ e ∈ s.bus.active, ∀ j, romBit s.rom j = (romBit rom₀ j || (decide (j < k) && romBit e j))
  cmask : ∀ e ∈ s.bus.active, ∀ j, romBit s.cmask j = true ↔ j < k ∧ OpenAt romBit D e j

/-- One bit more, when the devices with bit `v` stay: either all have it, or `select` is
`v`. -/
theorem ScanInv.next {D : Finset (BitVec 64)} {rom₀ : BitVec 64} {k : Nat}
    {s s' : ScanState IdealBus} (h : ScanInv D rom₀ k s) (hk : k < 64) (v : Bool)
    (hdevs : s'.bus.devs = s.bus.devs)
    (hphase : s'.bus.phase = if k < 63 then .bit (k + 1) else .idle)
    (hactive : s'.bus.active = s.bus.active.filter fun d => romBit d k = v)
    (hsome : ∃ d ∈ s.bus.active, romBit d k = v)
    (hchoice : (∃ d ∈ s.bus.active, romBit d k ≠ v) → v = selectBit rom₀ k)
    (hrom : ∀ j, romBit s'.rom j = if j = k then (romBit rom₀ k || v) else romBit s.rom j)
    (hcmask : ∀ j, romBit s'.cmask j = if j = k then
      decide (v = false ∧ ∃ d ∈ s.bus.active, romBit d k = true) else romBit s.cmask j) :
    ScanInv D rom₀ (k + 1) s' := by
  have hmem : ∀ d, d ∈ s'.bus.active ↔ d ∈ s.bus.active ∧ romBit d k = v := fun d => by
    rw [hactive, Finset.mem_filter]
  -- agreeing on one bit more is agreeing on that bit
  have hagree : ∀ d e, Agree romBit (k + 1) d e ↔ Agree romBit k d e ∧ romBit d k = romBit e k :=
    fun d e => by
      constructor
      · exact fun h => ⟨h.mono (Nat.le_succ k), h k (Nat.lt_succ_self k)⟩
      · rintro ⟨hlow, hbit⟩ j hj
        rcases Nat.lt_succ_iff_lt_or_eq.mp hj with h | rfl
        · exact hlow j h
        · exact hbit
  have hin : ∀ e ∈ s.bus.active, ∀ d ∈ D, Agree romBit k d e → d ∈ s.bus.active :=
    fun e he d hd hde => (h.active e he d).mpr ⟨hd, hde⟩
  refine ⟨hdevs.trans h.devs, ?_, ?_, ?_, ?_, ?_, ?_⟩
  · rw [hphase]
    exact if_congr (by omega) rfl rfl
  · obtain ⟨d, hd, hbit⟩ := hsome
    exact ⟨d, (hmem d).mpr ⟨hd, hbit⟩⟩
  · intro e he d
    obtain ⟨he, hebit⟩ := (hmem e).mp he
    rw [hmem, hagree, h.active e he d, hebit, and_assoc]
  · intro e he j hj hbranch
    obtain ⟨he, hebit⟩ := (hmem e).mp he
    rcases Nat.lt_succ_iff_lt_or_eq.mp hj with hlt | rfl
    · exact h.follows e he j hlt hbranch
    · obtain ⟨d, hd, hde, hdiff⟩ := hbranch
      rw [hebit] at hdiff ⊢
      exact hchoice ⟨d, hin e he d hd hde, hdiff⟩
  · intro e he j
    obtain ⟨he, hebit⟩ := (hmem e).mp he
    rw [hrom]
    by_cases hjk : j = k
    · subst hjk
      rw [if_pos rfl, hebit, decide_eq_true (Nat.lt_succ_self j), Bool.true_and]
    · have hlt : decide (j < k + 1) = decide (j < k) := decide_eq_decide.mpr (by omega)
      rw [if_neg hjk, h.rom e he, hlt]
  · intro e he j
    obtain ⟨he, hebit⟩ := (hmem e).mp he
    rw [hcmask]
    by_cases hjk : j = k
    · subst hjk
      rw [if_pos rfl, decide_eq_true_iff]
      constructor
      · rintro ⟨rfl, d, hd, hbit⟩
        obtain ⟨hdD, hde⟩ := (h.active e he d).mp hd
        exact ⟨Nat.lt_succ_self j, hebit, d, hdD, hde, hbit⟩
      · rintro ⟨-, hlow, d, hd, hde, hbit⟩
        exact ⟨hebit.symm.trans hlow, d, hin e he d hd hde, hbit⟩
    · rw [if_neg hjk, h.cmask e he]
      constructor
      · exact fun hopen => ⟨by omega, hopen.2⟩
      · exact fun hopen => ⟨by omega, hopen.2⟩

/-- On a conflict the pass follows `select`, and marks the bit when that is 0. -/
theorem scanBit_both {s : ScanState IdealBus} {k : Nat} (hphase : s.bus.phase = .bit k)
    (hones : ¬ ∀ d ∈ s.bus.active, romBit d k = true)
    (hzeros : ¬ ∀ d ∈ s.bus.active, romBit d k = false) :
    scanBit idealOps s (BitVec.twoPow 64 k) =
      { s with
        cmask := if selectBit s.rom k = false then s.cmask ||| BitVec.twoPow 64 k else s.cmask
        bus := s.bus.follow k (selectBit s.rom k) } := by
  rw [scanBit, getDibit_both hphase _ hones hzeros]
  cases hselect : selectBit s.rom k with
  | false =>
      simp only [select_eq_zero.mpr hselect, ne_eq, not_true_eq_false, decide_false, if_true]
  | true =>
      have hne : ((s.rom &&& BitVec.twoPow 64 k).setWidth 32).toInt ≠ 0 := fun h =>
        Bool.noConfusion (hselect.symm.trans (select_eq_zero.mp h))
      simp only [ne_eq, hne, not_false_eq_true, decide_true, Bool.true_eq_false,
        if_false]

/-- What the loop does for one bit. -/
theorem scanBit_inv {D : Finset (BitVec 64)} {rom₀ : BitVec 64} {k : Nat}
    {s : ScanState IdealBus} (h : ScanInv D rom₀ k s) (hk : k < 64) :
    ScanInv D rom₀ (k + 1) (scanBit idealOps s (BitVec.twoPow 64 k)) := by
  have hphase : s.bus.phase = .bit k := by rw [h.phase, if_pos hk]
  obtain ⟨e, he⟩ := h.nonempty
  have hromk : romBit s.rom k = romBit rom₀ k := by
    rw [h.rom e he, decide_eq_false (Nat.lt_irrefl k), Bool.false_and, Bool.or_false]
  have hcmaskk : romBit s.cmask k = false := by
    apply Bool.eq_false_iff.mpr
    intro hset
    exact Nat.lt_irrefl k ((h.cmask e he k).mp hset).1
  -- the two bits of the bus: all devices answer 1, all answer 0, or both
  by_cases hones : ∀ d ∈ s.bus.active, romBit d k = true
  · have hbody : scanBit idealOps s (BitVec.twoPow 64 k) =
        { s with rom := s.rom ||| BitVec.twoPow 64 k, bus := s.bus.follow k true } := by
      rw [scanBit, getDibit_ones hphase h.nonempty _ hones]
    rw [hbody]
    refine h.next hk true rfl rfl rfl ⟨e, he, hones e he⟩ ?_ (fun j => ?_) (fun j => ?_)
    · rintro ⟨d, hd, hdiff⟩
      exact absurd (hones d hd) hdiff
    · rw [romBit_or_twoPow hk, Bool.or_true]
    · by_cases hjk : j = k
      · rw [if_pos hjk, hjk, hcmaskk, decide_eq_false (fun hopen => Bool.noConfusion hopen.1)]
      · rw [if_neg hjk]
  by_cases hzeros : ∀ d ∈ s.bus.active, romBit d k = false
  · have hbody : scanBit idealOps s (BitVec.twoPow 64 k) =
        { s with bus := s.bus.follow k false } := by
      rw [scanBit, getDibit_zeros hphase h.nonempty _ hzeros]
    rw [hbody]
    refine h.next hk false rfl rfl rfl ⟨e, he, hzeros e he⟩ ?_ (fun j => ?_) (fun j => ?_)
    · rintro ⟨d, hd, hdiff⟩
      exact absurd (hzeros d hd) hdiff
    · by_cases hjk : j = k
      · rw [if_pos hjk, hjk, hromk, Bool.or_false]
      · rw [if_neg hjk]
    · have hnone : ¬ ∃ d ∈ s.bus.active, romBit d k = true := fun ⟨d, hd, hbit⟩ =>
        Bool.noConfusion ((hzeros d hd).symm.trans hbit)
      by_cases hjk : j = k
      · rw [if_pos hjk, hjk, hcmaskk, decide_eq_false (fun hopen => hnone hopen.2)]
      · rw [if_neg hjk]
  · have hbody := scanBit_both hphase hones hzeros
    have hselect : selectBit s.rom k = selectBit rom₀ k := by
      rw [selectBit, selectBit, show s.rom.getLsbD k = rom₀.getLsbD k from hromk]
    rw [hselect] at hbody
    rw [hbody]
    push Not at hones hzeros
    obtain ⟨d₀, hd₀, hlow⟩ := hones
    obtain ⟨d₁, hd₁, hhigh⟩ := hzeros
    rw [Ne, Bool.not_eq_true] at hlow
    rw [Ne, Bool.not_eq_false] at hhigh
    refine h.next hk (selectBit rom₀ k) rfl rfl rfl ?_ (fun _ => rfl) (fun j => ?_) (fun j => ?_)
    · cases selectBit rom₀ k with
      | false => exact ⟨d₀, hd₀, hlow⟩
      | true => exact ⟨d₁, hd₁, hhigh⟩
    · by_cases hjk : j = k
      · rw [if_pos hjk, hjk, hromk, selectBit, romBit]
        cases rom₀.getLsbD k <;> simp
      · rw [if_neg hjk]
    · cases selectBit rom₀ k with
      | false =>
          rw [if_pos rfl, romBit_or_twoPow hk, decide_eq_true ⟨rfl, d₁, hd₁, hhigh⟩]
      | true =>
          rw [if_neg Bool.noConfusion]
          by_cases hjk : j = k
          · rw [if_pos hjk, hjk, hcmaskk, decide_eq_false (fun hopen => Bool.noConfusion hopen.1)]
          · rw [if_neg hjk]

theorem twoPow_ne_zero {k : Nat} (hk : k < 64) : BitVec.twoPow 64 k ≠ 0#64 := fun h => by
  have hbit := congrArg (fun x => BitVec.getLsbD x k) h
  simp [hk] at hbit

theorem twoPow_shiftLeft (k : Nat) : BitVec.twoPow 64 k <<< 1 = BitVec.twoPow 64 (k + 1) := by
  rw [BitVec.twoPow_eq, BitVec.twoPow_eq, BitVec.shiftLeft_add]

theorem scanBits_inv {D : Finset (BitVec 64)} {rom₀ : BitVec 64} {n k : Nat} (hn : k + n = 64)
    {s : ScanState IdealBus} (h : ScanInv D rom₀ k s) :
    ScanInv D rom₀ 64 (scanBits idealOps n (BitVec.twoPow 64 k) s) := by
  induction n generalizing k s with
  | zero =>
      obtain rfl : k = 64 := hn
      exact h
  | succ n ih =>
      have hk : k < 64 := by omega
      rw [scanBits, if_neg (twoPow_ne_zero hk), twoPow_shiftLeft]
      exact ih (by omega) (scanBit_inv h hk)

/-- The pass ends at the device that `select` chooses wherever the codes branch.  The new
code has its bits beside those of the old one, and the mask has the branches that were
left open on the way. -/
theorem w1ScanOne_spec (s : ScanState IdealBus) (hdevs : s.bus.devs.Nonempty) :
    ∃ p, Follows romBit s.bus.devs (selectBit s.rom) p ∧
      (w1ScanOne idealOps s).1 = 0 ∧ (w1ScanOne idealOps s).2.bus.devs = s.bus.devs ∧
      (w1ScanOne idealOps s).2.rom = s.rom ||| p ∧
      ∀ j, romBit (w1ScanOne idealOps s).2.cmask j = true ↔ OpenAt romBit s.bus.devs p j := by
  -- the search command makes every device active
  have hstart : ScanInv s.bus.devs s.rom 0
      { s with cmask := 0#64, bus := { s.bus with phase := .bit 0, active := s.bus.devs } } := by
    refine ⟨rfl, rfl, hdevs, fun e _ d => ?_, fun _ _ j hj => absurd hj (Nat.not_lt_zero j),
      fun e _ j => ?_, fun e _ j => ?_⟩
    · exact ⟨fun hd => ⟨hd, fun j hj => absurd hj (Nat.not_lt_zero j)⟩, fun hd => hd.1⟩
    · rw [decide_eq_false (Nat.not_lt_zero j), Bool.false_and, Bool.or_false]
    · exact ⟨fun h => by simp [romBit] at h, fun h => absurd h.1 (Nat.not_lt_zero j)⟩
  have hpass : w1ScanOne idealOps s = (0, scanBits idealOps 64 1#64
      { s with cmask := 0#64, bus := { s.bus with phase := .bit 0, active := s.bus.devs } }) := by
    have hreset : idealOps.reset s.bus = (1, { s.bus with phase := .command 0 0 }) := rfl
    rw [w1ScanOne, hreset]
    simp only [ne_eq, not_true_eq_false, if_false, w1WriteByte_search]
  have hend := scanBits_inv (n := 64) rfl hstart
  have hone : 1#64 = BitVec.twoPow 64 0 := by decide
  rw [hone] at hpass
  -- after all bits a single device is left
  generalize scanBits idealOps 64 (BitVec.twoPow 64 0) _ = s' at hend hpass
  obtain ⟨p, hp⟩ := hend.nonempty
  have hpD := ((hend.active p hp p).mp hp).1
  have hbound : ∀ e j, romBit e j = true → j < 64 := fun e j h => BitVec.lt_of_getLsbD h
  refine ⟨p, ⟨hpD, fun j hbranch => ?_⟩, ?_, ?_, ?_, fun j => ?_⟩
  · have hj : j < 64 := by
      by_contra hge
      obtain ⟨d, -, -, hdiff⟩ := hbranch
      have hzero : ∀ e, romBit e j = false := fun e =>
        Bool.eq_false_iff.mpr fun h => hge (hbound e j h)
      exact hdiff ((hzero d).trans (hzero p).symm)
    exact hend.follows p hp j hj hbranch
  · rw [hpass]
  · rw [hpass]
    exact hend.devs
  · rw [hpass]
    apply BitVec.eq_of_getLsbD_eq
    intro j hj
    have hrom := hend.rom p hp j
    rw [decide_eq_true hj, Bool.true_and] at hrom
    rw [BitVec.getLsbD_or]
    exact hrom
  · rw [hpass, hend.cmask p hp]
    constructor
    · exact fun h => h.2
    · intro hopen
      obtain ⟨d, -, -, hhigh⟩ := hopen.2
      exact ⟨hbound d j hhigh, hopen⟩

end OneWire
end WrpcSw
