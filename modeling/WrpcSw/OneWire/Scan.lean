import Mathlib.Data.Set.Function
import WrpcSw.OneWire.Search

/-!
# The scan of the 1-wire bus (`dev/w1.c`)

`w1_scan_bus` runs the search once for each device.  Between two passes it goes back to
the last branch that the previous pass left open, and takes the other side.

* `w1ScanBus` — the loop over the devices.
* `Visited` and `Stuck` — its invariants: the codes found so far are the first ones in
  the order of the search, or the last open branch is in the upper half of the code,
  where `select` is always 0, and the same device is found again and again.
* `w1ScanBus_finds_iff` — the devices whose scan finds each of them once.
-/

namespace WrpcSw
namespace OneWire

open BitTrie

def W1_MAX_DEVICES : Nat := 8

/-- The codes of `bus->devs`, and the mask of `w1_scan_bus`. -/
structure ScanBus (β : Type) where
  devs : Nat → BitVec 64
  cmask : BitVec 64
  bus : β

/-- The loop over the conflicts, from the last one on; it ends when `mask` has been
shifted out.  Returns the code and the mask. -/
def resolveLast (cmask : BitVec 64) : Nat → BitVec 64 → BitVec 64 → BitVec 64 × BitVec 64
  | 0, mask, rom => (rom, mask)
  | n + 1, mask, rom =>
      if mask = 0#64 then (rom, mask)
      else
        -- the source forces this bit, since its compiler shifts with sign
        let mask := if mask &&& 1#64 <<< 62 ≠ 0#64 then 1#64 <<< 62 else mask
        if cmask &&& mask ≠ 0#64 then (rom, mask)
        else resolveLast cmask n (mask >>> 1) (rom &&& ~~~mask)

section Code

variable {β : Type} (ops : W1Ops β)

/-- What precedes a pass that is not the first: whether the scan ends, and the code to
start from. -/
def resolveConflict (s : ScanBus β) (i : Nat) : Bool × ScanBus β :=
  let (rom, mask) := resolveLast s.cmask 64 (1#64 <<< 63) (s.devs (i - 1))
  if mask = 0#64 then (true, { s with devs := Function.update s.devs i rom })
  else
    (false, { s with
      devs := Function.update s.devs i (rom ||| mask)
      cmask := s.cmask &&& ~~~mask })

/-- The loop over the devices, with `n` passes to go. -/
def w1ScanLoop : Nat → Nat → ScanBus β → Nat × ScanBus β
  | 0, i, s => (i, s)
  | n + 1, i, s =>
      let (stop, s) := if i = 0 then (false, s) else resolveConflict s i
      if stop then (i, s)
      else
        let (error, one) := w1ScanOne ops ⟨s.devs i, s.cmask, s.bus⟩
        let s := { devs := Function.update s.devs i one.rom, cmask := one.cmask, bus := one.bus }
        if error ≠ 0 then (i, s) else w1ScanLoop n (i + 1) s

/-- The operations always provide `reset`. -/
def w1ScanBus (bus : β) : Nat × ScanBus β :=
  w1ScanLoop ops W1_MAX_DEVICES 0 { devs := fun _ => 0, cmask := 0#64, bus := bus }

end Code

/-! ## One step of the loop -/

theorem twoPow_ushiftRight {k : Nat} (hk : k + 1 < 64) :
    BitVec.twoPow 64 (k + 1) >>> 1 = BitVec.twoPow 64 k := by
  apply BitVec.eq_of_getLsbD_eq
  intro j hj
  rw [BitVec.getLsbD_ushiftRight, BitVec.getLsbD_twoPow, BitVec.getLsbD_twoPow]
  have hcond : (k + 1 = 1 + j) ↔ k = j := by omega
  simp [hk, hcond, Nat.lt_of_succ_lt hk]

/-- The bit that the source forces is the one that is there. -/
theorem forced_mask {k : Nat} (hk : k < 64) :
    (if BitVec.twoPow 64 k &&& 1#64 <<< 62 ≠ 0#64 then 1#64 <<< 62 else BitVec.twoPow 64 k) =
      BitVec.twoPow 64 k := by
  rw [← BitVec.twoPow_eq, BitVec.and_twoPow, BitVec.getLsbD_twoPow]
  by_cases h : k = 62
  · subst h
    decide
  · simp [h]

theorem and_twoPow_ne_zero {k : Nat} (hk : k < 64) (x : BitVec 64) :
    x &&& BitVec.twoPow 64 k ≠ 0#64 ↔ romBit x k = true := by
  rw [BitVec.and_twoPow]
  unfold romBit
  cases x.getLsbD k with
  | false => simp
  | true => simp [twoPow_ne_zero hk]

theorem romBit_and_not_twoPow {k : Nat} (hk : k < 64) (d : BitVec 64) (j : Nat) :
    romBit (d &&& ~~~BitVec.twoPow 64 k) j = (romBit d j && decide (j ≠ k)) := by
  unfold romBit
  rw [BitVec.getLsbD_and, BitVec.getLsbD_not, BitVec.getLsbD_twoPow, decide_eq_true hk,
    Bool.true_and]
  cases hd : d.getLsbD j with
  | false => rw [Bool.false_and, Bool.false_and]
  | true =>
      have hj : j < 64 := BitVec.lt_of_getLsbD hd
      by_cases hjk : j = k
      · simp [hjk]
      · simp [hj, hjk, Ne.symm hjk]

theorem resolveLast_succ (cmask rom : BitVec 64) {k : Nat} (hk : k < 64) (n : Nat) :
    resolveLast cmask (n + 1) (BitVec.twoPow 64 k) rom =
      if romBit cmask k = true then (rom, BitVec.twoPow 64 k)
      else resolveLast cmask n (BitVec.twoPow 64 k >>> 1) (rom &&& ~~~BitVec.twoPow 64 k) := by
  rw [resolveLast, if_neg (twoPow_ne_zero hk)]
  simp only [forced_mask hk, and_twoPow_ne_zero hk]

/-- The outcome of the loop over the bits up to `k`: the mask of the last conflict, with the
bits above it cleared, or no mask. -/
def Resolved (cmask rom : BitVec 64) (k : Nat) (r : BitVec 64 × BitVec 64) : Prop :=
  ((∀ j, j ≤ k → romBit cmask j = false) ∧ r.2 = 0#64 ∧
      ∀ j, romBit r.1 j = (romBit rom j && decide (k < j))) ∨
    ∃ m, m ≤ k ∧ romBit cmask m = true ∧ (∀ j, m < j → j ≤ k → romBit cmask j = false) ∧
      r.2 = BitVec.twoPow 64 m ∧
      ∀ j, romBit r.1 j = (romBit rom j && decide (j ≤ m ∨ k < j))

theorem Resolved.here {cmask : BitVec 64} {k : Nat} (hset : romBit cmask k = true)
    (rom : BitVec 64) : Resolved cmask rom k (rom, BitVec.twoPow 64 k) := by
  refine .inr ⟨k, Nat.le_refl k, hset, fun j hj hjk => absurd hj (by omega), rfl, fun j => ?_⟩
  rw [decide_eq_true (by omega), Bool.and_true]

theorem resolveLast_spec (cmask rom : BitVec 64) {k : Nat} (hk : k < 64) :
    Resolved cmask rom k (resolveLast cmask (k + 1) (BitVec.twoPow 64 k) rom) := by
  induction k generalizing rom with
  | zero =>
      rw [resolveLast_succ cmask rom hk]
      by_cases hset : romBit cmask 0 = true
      · rw [if_pos hset]
        exact Resolved.here hset rom
      rw [if_neg hset]
      refine .inl ⟨fun j hj => ?_, ?_, fun j => ?_⟩
      · rw [Nat.le_zero.mp hj]
        exact Bool.eq_false_iff.mpr hset
      · have hout : BitVec.twoPow 64 0 >>> 1 = 0#64 := by decide
        rw [resolveLast, hout]
      · rw [resolveLast, romBit_and_not_twoPow hk]
        exact congrArg _ (decide_eq_decide.mpr (by omega))
  | succ k ih =>
      rw [resolveLast_succ cmask rom hk]
      -- an open branch ends the loop; otherwise it clears the bit and looks below
      by_cases hset : romBit cmask (k + 1) = true
      · rw [if_pos hset]
        exact Resolved.here hset rom
      rw [if_neg hset, twoPow_ushiftRight hk]
      have hclear : ∀ j, j ≠ k + 1 →
          romBit (rom &&& ~~~BitVec.twoPow 64 (k + 1)) j = romBit rom j := fun j hj => by
        rw [romBit_and_not_twoPow hk, decide_eq_true hj, Bool.and_true]
      have hzero : romBit (rom &&& ~~~BitVec.twoPow 64 (k + 1)) (k + 1) = false := by
        rw [romBit_and_not_twoPow hk, decide_eq_false (by simp), Bool.and_false]
      have hlow : ∀ j, j ≤ k + 1 → (j ≤ k → romBit cmask j = false) → romBit cmask j = false :=
        fun j hj hbelow => by
          rcases Nat.le_succ_iff.mp hj with h | rfl
          · exact hbelow h
          · exact Bool.eq_false_iff.mpr hset
      rcases ih (rom &&& ~~~BitVec.twoPow 64 (k + 1)) (by omega) with
        ⟨hclosed, hmask, hrom⟩ | ⟨m, hmk, hopen, hlast, hmask, hrom⟩
      · refine .inl ⟨fun j hj => hlow j hj (hclosed j), hmask, fun j => ?_⟩
        rw [hrom]
        by_cases hj : j = k + 1
        · rw [hj, hzero, decide_eq_false (by omega : ¬ k + 1 < k + 1), Bool.and_false,
            Bool.false_and]
        · rw [hclear j hj]
          exact congrArg _ (decide_eq_decide.mpr (by omega))
      · refine .inr ⟨m, by omega, hopen, fun j hj hjk => hlow j hjk (hlast j hj), hmask,
          fun j => ?_⟩
        rw [hrom]
        by_cases hj : j = k + 1
        · rw [hj, hzero, decide_eq_false (by omega : ¬ (k + 1 ≤ m ∨ k + 1 < k + 1)),
            Bool.and_false, Bool.false_and]
        · rw [hclear j hj]
          exact congrArg _ (decide_eq_decide.mpr (by omega))

/-- The start of the loop over all bits. -/
theorem resolveLast_top (cmask rom : BitVec 64) :
    Resolved cmask rom 63 (resolveLast cmask 64 (1#64 <<< 63) rom) := by
  rw [← BitVec.twoPow_eq]
  exact resolveLast_spec cmask rom (by decide)

theorem romBit_ge (d : BitVec 64) {j : Nat} (hj : 64 ≤ j) : romBit d j = false :=
  BitVec.getLsbD_of_ge d j hj

/-- Without an open branch the scan ends, and the entry is cleared. -/
theorem w1ScanLoop_closed {s : ScanBus IdealBus} {i : Nat} (hi : i ≠ 0) (n : Nat)
    (hclosed : ∀ j, romBit s.cmask j = false) :
    w1ScanLoop idealOps (n + 1) i s =
      (i, { s with devs := Function.update s.devs i 0#64 }) := by
  rcases resolveLast_top s.cmask (s.devs (i - 1)) with ⟨-, hmask, hrom⟩ | ⟨m, -, hopen, -⟩
  · have hzero : (resolveLast s.cmask 64 (1#64 <<< 63) (s.devs (i - 1))).1 = 0#64 := by
      apply BitVec.eq_of_getLsbD_eq
      intro j hj
      have hbit := hrom j
      rw [decide_eq_false (by omega), Bool.and_false] at hbit
      rw [BitVec.getLsbD_zero]
      exact hbit
    rw [w1ScanLoop, if_neg hi, resolveConflict]
    simp only [hmask, hzero, if_true]
  · rw [hclosed m] at hopen
    exact Bool.noConfusion hopen

/-- With a last open branch `m`, the next pass starts from the code with its upper side. -/
theorem w1ScanLoop_open {s : ScanBus IdealBus} (hdevs : s.bus.devs.Nonempty) {i m : Nat}
    (hi : i ≠ 0) (n : Nat) (hopen : romBit s.cmask m = true)
    (hlast : ∀ j, m < j → romBit s.cmask j = false) :
    ∃ rom p s', (∀ j, romBit rom j = upper romBit (s.devs (i - 1)) m j) ∧
      Follows romBit s.bus.devs (selectBit rom) p ∧
      w1ScanLoop idealOps (n + 1) i s = w1ScanLoop idealOps n (i + 1) s' ∧
      s'.bus.devs = s.bus.devs ∧ s'.devs = Function.update s.devs i (rom ||| p) ∧
      ∀ j, romBit s'.cmask j = true ↔ OpenAt romBit s.bus.devs p j := by
  rcases resolveLast_top s.cmask (s.devs (i - 1)) with
    ⟨hclosed, -⟩ | ⟨m', hm', hopen', hlast', hmask, hrom⟩
  · have hm : m < 64 := BitVec.lt_of_getLsbD hopen
    rw [hclosed m (by omega)] at hopen
    exact Bool.noConfusion hopen
  -- the loop stops at the highest open branch
  have hm : m' = m := by
    rcases Nat.lt_trichotomy m' m with h | h | h
    · have hm : m < 64 := BitVec.lt_of_getLsbD hopen
      rw [hlast' m h (by omega)] at hopen
      exact Bool.noConfusion hopen
    · exact h
    · rw [hlast m' h] at hopen'
      exact Bool.noConfusion hopen'
  subst hm
  have hm : m' < 64 := by omega
  have hpair : resolveLast s.cmask 64 (1#64 <<< 63) (s.devs (i - 1)) =
      ((resolveLast s.cmask 64 (1#64 <<< 63) (s.devs (i - 1))).1, BitVec.twoPow 64 m') :=
    Prod.ext rfl hmask
  generalize (resolveLast s.cmask 64 (1#64 <<< 63) (s.devs (i - 1))).1 = low at hrom hpair
  -- the pass starts from the code with only its upper side of the branch
  obtain ⟨p, hfollows, herror, hbus, hcode, hcmask⟩ := w1ScanOne_spec
    ⟨low ||| BitVec.twoPow 64 m', s.cmask &&& ~~~BitVec.twoPow 64 m', s.bus⟩ hdevs
  generalize hone : w1ScanOne idealOps ⟨low ||| BitVec.twoPow 64 m',
    s.cmask &&& ~~~BitVec.twoPow 64 m', s.bus⟩ = one at herror hbus hcode hcmask
  refine ⟨low ||| BitVec.twoPow 64 m', p, ⟨Function.update s.devs i one.2.rom, one.2.cmask,
    one.2.bus⟩, fun j => ?_, hfollows, ?_, hbus,
    congrArg (Function.update s.devs i) hcode, hcmask⟩
  · rw [romBit_or_twoPow hm, hrom, upper]
    by_cases hj : j < 64
    · rcases Nat.lt_trichotomy j m' with h | rfl | h
      · rw [if_neg (by omega), if_pos h, decide_eq_true (by omega), Bool.and_true]
      · rw [if_pos rfl, if_neg (by omega), decide_eq_true rfl]
      · rw [if_neg (by omega), if_neg (by omega), decide_eq_false (by omega),
          decide_eq_false (by omega), Bool.and_false]
    · rw [if_neg (by omega), if_neg (by omega), romBit_ge _ (by omega), Bool.false_and,
        decide_eq_false (by omega)]
  · rw [w1ScanLoop, if_neg hi, resolveConflict, hpair]
    simp only [if_neg (twoPow_ne_zero hm), Bool.false_eq_true, if_false, Function.update_self,
      hone, herror, Function.update_idem, ne_eq, not_true_eq_false]

/-- The first pass starts from the code 0. -/
theorem w1ScanLoop_first (bus : IdealBus) (hdevs : bus.devs.Nonempty) (n : Nat) :
    ∃ p s', Follows romBit bus.devs (selectBit 0#64) p ∧
      w1ScanLoop idealOps (n + 1) 0 { devs := fun _ => 0#64, cmask := 0#64, bus := bus } =
        w1ScanLoop idealOps n 1 s' ∧
      s'.bus.devs = bus.devs ∧ s'.devs = Function.update (fun _ => 0#64) 0 p ∧
      ∀ j, romBit s'.cmask j = true ↔ OpenAt romBit bus.devs p j := by
  obtain ⟨p, hfollows, herror, hbus, hcode, hcmask⟩ := w1ScanOne_spec ⟨0#64, 0#64, bus⟩ hdevs
  generalize hone : w1ScanOne idealOps ⟨0#64, 0#64, bus⟩ = one at herror hbus hcode hcmask
  have hp : one.2.rom = p := hcode.trans BitVec.zero_or
  refine ⟨p, ⟨Function.update (fun _ => 0#64) 0 one.2.rom, one.2.cmask, one.2.bus⟩, hfollows, ?_,
    hbus, congrArg (Function.update _ 0) hp, hcmask⟩
  rw [w1ScanLoop, if_pos rfl]
  simp only [Bool.false_eq_true, if_false, hone, herror, ne_eq, not_true_eq_false]

/-! ## The invariants of the loop -/

/-- The entries below `n` are the first codes of `D` in the order of the search, and up to
the last of them only branches in the lower half were left open. -/
structure Enumerates (D : Finset (BitVec 64)) (n : Nat) (devs : Nat → BitVec 64) : Prop where
  mem : ∀ j, j < n → devs j ∈ D
  increasing : ∀ j k, j < k → k < n → key romBit (devs j) < key romBit (devs k)
  complete : ∀ d ∈ D, key romBit d ≤ key romBit (devs (n - 1)) → ∃ j, j < n ∧ devs j = d
  low : ∀ j, j + 1 < n → ∀ m, OpenAt romBit D (devs j) m → m < 32

/-- Every pass so far has found the next device. -/
structure Visited (D : Finset (BitVec 64)) (i : Nat) (s : ScanBus IdealBus) : Prop where
  pos : 0 < i
  devs : s.bus.devs = D
  enum : Enumerates D i s.devs
  follows : ∃ rom, Follows romBit D (selectBit rom) (s.devs (i - 1))
  cmask : ∀ j, romBit s.cmask j = true ↔ OpenAt romBit D (s.devs (i - 1)) j
  rest : ∀ j, i ≤ j → s.devs j = 0#64

/-- The pass `k` has found a device whose last open branch `m` is in the upper half; all
passes after it have found the same device, and have recorded it with the bit `m` set. -/
structure Stuck (D : Finset (BitVec 64)) (k m i : Nat) (s : ScanBus IdealBus) : Prop where
  pos : 0 < k
  le : k ≤ i
  devs : s.bus.devs = D
  enum : Enumerates D k s.devs
  openAt : OpenAt romBit D (s.devs (k - 1)) m
  last : ∀ j, m < j → ¬ OpenAt romBit D (s.devs (k - 1)) j
  high : 32 ≤ m
  follows : ∃ rom, Follows romBit D (selectBit rom) (s.devs (k - 1))
  cmask : ∀ j, romBit s.cmask j = true ↔ OpenAt romBit D (s.devs (k - 1)) j
  rest : ∀ j, k ≤ j → j < i → s.devs j = s.devs (k - 1) ||| BitVec.twoPow 64 m

theorem Enumerates.congr {D : Finset (BitVec 64)} {n : Nat} {devs devs' : Nat → BitVec 64}
    (h : Enumerates D n devs) (hn : 0 < n) (heq : ∀ j, j < n → devs' j = devs j) :
    Enumerates D n devs' := by
  refine ⟨fun j hj => ?_, fun j k hjk hk => ?_, fun d hd hle => ?_, fun j hj m hopen => ?_⟩
  · rw [heq j hj]
    exact h.mem j hj
  · rw [heq j (by omega), heq k hk]
    exact h.increasing j k hjk hk
  · rw [heq (n - 1) (by omega)] at hle
    obtain ⟨j, hj, rfl⟩ := h.complete d hd hle
    exact ⟨j, hj, heq j hj⟩
  · rw [heq j (by omega)] at hopen
    exact h.low j hj m hopen

/-- The next device is one more of the first codes. -/
theorem Enumerates.snoc {D : Finset (BitVec 64)} {n : Nat} {devs : Nat → BitVec 64}
    (h : Enumerates D n devs) (hn : 0 < n) {b : BitVec 64} (hb : b ∈ D)
    (hlt : key romBit (devs (n - 1)) < key romBit b)
    (hnext : ∀ d ∈ D, key romBit (devs (n - 1)) < key romBit d → key romBit b ≤ key romBit d)
    (hlow : ∀ m, OpenAt romBit D (devs (n - 1)) m → m < 32) :
    Enumerates D (n + 1) (Function.update devs n b) := by
  have hold : ∀ j, j < n → Function.update devs n b j = devs j := fun j hj =>
    Function.update_of_ne (by omega) _ _
  have hnew : Function.update devs n b n = b := Function.update_self ..
  refine ⟨fun j hj => ?_, fun j k hjk hk => ?_, fun d hd hle => ?_, fun j hj m hopen => ?_⟩
  · rcases Nat.lt_succ_iff_lt_or_eq.mp hj with h' | rfl
    · rw [hold j h']
      exact h.mem j h'
    · rwa [hnew]
  · rw [hold j (by omega)]
    rcases Nat.lt_succ_iff_lt_or_eq.mp hk with h' | rfl
    · rw [hold k h']
      exact h.increasing j k hjk h'
    · rw [hnew]
      rcases Nat.lt_or_ge j (k - 1) with h' | h'
      · exact (h.increasing j (k - 1) h' (by omega)).trans hlt
      · obtain rfl : j = k - 1 := by omega
        exact hlt
  -- a code up to the new one is an old one, or is the new one
  · rw [Nat.add_sub_cancel, hnew] at hle
    rcases le_or_gt (key romBit d) (key romBit (devs (n - 1))) with hdle | hdlt
    · obtain ⟨j, hj, rfl⟩ := h.complete d hd hdle
      exact ⟨j, by omega, hold j hj⟩
    · refine ⟨n, Nat.lt_succ_self n, ?_⟩
      rw [hnew]
      exact key_injective (le_antisymm (hnext d hd hdlt) hle)
  · rw [hold j (by omega)] at hopen
    rcases Nat.lt_or_ge (j + 1) n with h' | h'
    · exact h.low j h' m hopen
    · obtain rfl : j = n - 1 := by omega
      exact hlow m hopen

/-- Only the bits below 32 reach `select`. -/
theorem selectBit_upper {rom a : BitVec 64} {m : Nat}
    (hrom : ∀ j, romBit rom j = upper romBit a m j) (j : Nat) :
    selectBit rom j = (decide (j < 32) && upper romBit a m j) := by
  rw [selectBit, ← hrom j, romBit]

/-- From a last open branch in the lower half, the pass finds the next device. -/
theorem Visited.next {D : Finset (BitVec 64)} {i m : Nat} {s s' : ScanBus IdealBus}
    (h : Visited D i s) (hopen : OpenAt romBit D (s.devs (i - 1)) m)
    (hlast : ∀ j, m < j → ¬ OpenAt romBit D (s.devs (i - 1)) j) (hm : m < 32)
    {rom p : BitVec 64} (hrom : ∀ j, romBit rom j = upper romBit (s.devs (i - 1)) m j)
    (hfollows : Follows romBit D (selectBit rom) p) (hdevs : s'.bus.devs = D)
    (hcodes : s'.devs = Function.update s.devs i (rom ||| p))
    (hcmask : ∀ j, romBit s'.cmask j = true ↔ OpenAt romBit D p j) : Visited D (i + 1) s' := by
  -- below 32, `select` takes the upper side at the branch
  have hchoice : selectBit rom = upper romBit (s.devs (i - 1)) m := by
    funext j
    rw [selectBit_upper hrom]
    by_cases hj : j < 32
    · rw [decide_eq_true hj, Bool.true_and]
    · rw [decide_eq_false hj, Bool.false_and, upper, if_neg (by omega), decide_eq_false (by omega)]
  have ha : s.devs (i - 1) ∈ D := h.enum.mem _ (by have := h.pos; omega)
  have hupper : Follows romBit D (upper romBit (s.devs (i - 1)) m) p := hchoice ▸ hfollows
  obtain ⟨hlt, hnext⟩ := hupper.succ ha hopen hlast
  -- what the entry holds already is part of the new code
  have hcode : rom ||| p = p := by
    apply BitVec.eq_of_getLsbD_eq
    intro j _
    rw [BitVec.getLsbD_or]
    change (romBit rom j || romBit p j) = romBit p j
    rw [hrom, upper]
    rcases Nat.lt_trichotomy j m with hj | rfl | hj
    · rw [if_pos hj, hupper.agree ha j hj, Bool.or_self]
    · rw [hupper.high ha hopen, Bool.or_true]
    · rw [if_neg (by omega), decide_eq_false (by omega), Bool.false_or]
  have hlow : ∀ j, OpenAt romBit D (s.devs (i - 1)) j → j < 32 := fun j hj => by
    by_contra hge
    exact hlast j (by omega) hj
  have hself : s'.devs (i + 1 - 1) = p := by
    rw [Nat.add_sub_cancel, hcodes, hcode, Function.update_self]
  refine ⟨Nat.succ_pos i, hdevs, ?_, ⟨rom, hself ▸ hfollows⟩, hself ▸ hcmask, fun j hj => ?_⟩
  · rw [hcodes, hcode]
    exact h.enum.snoc h.pos hfollows.1 hlt hnext hlow
  · rw [hcodes, Function.update_of_ne (by omega)]
    exact h.rest j (by omega)

theorem Stuck.lt {D : Finset (BitVec 64)} {k m i : Nat} {s : ScanBus IdealBus}
    (h : Stuck D k m i s) : m < 64 := by
  obtain ⟨-, d, -, -, hhigh⟩ := h.openAt
  exact BitVec.lt_of_getLsbD hhigh

/-- The bits below `m` of the last entry are still those of the device. -/
theorem Stuck.upper_eq {D : Finset (BitVec 64)} {k m i : Nat} {s : ScanBus IdealBus}
    (h : Stuck D k m i s) (j : Nat) :
    upper romBit (s.devs (i - 1)) m j = upper romBit (s.devs (k - 1)) m j := by
  have hpos := h.pos
  have hle := h.le
  rcases Nat.eq_or_lt_of_le hle with rfl | hlt
  · rfl
  · rw [h.rest (i - 1) (by omega) (by omega), upper, upper]
    by_cases hj : j < m
    · rw [if_pos hj, if_pos hj, romBit_or_twoPow h.lt, if_neg (by omega)]
    · rw [if_neg hj, if_neg hj]

/-- From a last open branch in the upper half, the pass finds the same device again. -/
theorem Stuck.next {D : Finset (BitVec 64)} {k m i : Nat} {s s' : ScanBus IdealBus}
    (h : Stuck D k m i s)
    {rom p : BitVec 64} (hrom : ∀ j, romBit rom j = upper romBit (s.devs (i - 1)) m j)
    (hfollows : Follows romBit D (selectBit rom) p) (hdevs : s'.bus.devs = D)
    (hcodes : s'.devs = Function.update s.devs i (rom ||| p))
    (hcmask : ∀ j, romBit s'.cmask j = true ↔ OpenAt romBit D p j) : Stuck D k m (i + 1) s' := by
  have hpos := h.pos
  have hle := h.le
  have hhigh := h.high
  simp only [h.upper_eq] at hrom
  obtain ⟨rom₀, hfirst⟩ := h.follows
  -- `select` does not see the branch, so the pass takes the same way
  have hagain : Follows romBit D (selectBit rom) (s.devs (k - 1)) := by
    refine ⟨hfirst.1, fun j hbranch => ?_⟩
    rw [selectBit_upper hrom]
    by_cases hj : j < 32
    · rw [decide_eq_true hj, Bool.true_and, upper, if_pos (by omega)]
    · have hzero := hfirst.2 j hbranch
      rw [selectBit, decide_eq_false hj, Bool.false_and] at hzero
      rw [hzero, decide_eq_false hj, Bool.false_and]
  obtain rfl : p = s.devs (k - 1) := hfollows.unique romBit_injective hagain
  -- only the branch bit is added to the code that was found
  have hcode : rom ||| s.devs (k - 1) = s.devs (k - 1) ||| BitVec.twoPow 64 m := by
    apply BitVec.eq_of_getLsbD_eq
    intro j _
    rw [BitVec.getLsbD_or]
    change (romBit rom j || romBit (s.devs (k - 1)) j) = romBit _ j
    rw [romBit_or_twoPow h.lt, hrom, upper]
    rcases Nat.lt_trichotomy j m with hj | rfl | hj
    · rw [if_pos hj, if_neg (by omega), Bool.or_self]
    · rw [if_neg (by omega), if_pos rfl, decide_eq_true rfl, Bool.true_or]
    · rw [if_neg (by omega), if_neg (by omega), decide_eq_false (by omega), Bool.false_or]
  have hold : ∀ j, j < i → s'.devs j = s.devs j := fun j hj => by
    rw [hcodes, Function.update_of_ne (by omega)]
  have hk := hold (k - 1) (by omega)
  refine ⟨hpos, by omega, hdevs, ?_, hk ▸ h.openAt, hk ▸ h.last, hhigh, ⟨rom₀, hk ▸ hfirst⟩,
    hk ▸ hcmask, fun j hkj hj => ?_⟩
  · exact h.enum.congr hpos fun j hj => hold j (by omega)
  · rw [hk]
    rcases Nat.lt_succ_iff_lt_or_eq.mp hj with hlt | rfl
    · rw [hold j hlt, h.rest j hkj hlt]
    · rw [hcodes, Function.update_self, hcode]

/-! ## The outcome of a scan -/

/-- A mask is empty or has a last bit. -/
theorem exists_last (cmask : BitVec 64) : (∀ j, romBit cmask j = false) ∨
    ∃ m, romBit cmask m = true ∧ ∀ j, m < j → romBit cmask j = false := by
  rcases resolveLast_top cmask 0#64 with ⟨hclosed, -⟩ | ⟨m, -, hset, hlast, -⟩
  · apply Or.inl
    intro j
    rcases Nat.lt_or_ge j 64 with hj | hj
    · exact hclosed j (by omega)
    · exact romBit_ge _ hj
  · refine .inr ⟨m, hset, fun j hmj => ?_⟩
    rcases Nat.lt_or_ge j 64 with hj | hj
    · exact hlast j hmj (by omega)
    · exact romBit_ge _ hj

theorem Stuck.run {D : Finset (BitVec 64)} (hD : D.Nonempty) {k m n : Nat} :
    ∀ {i : Nat} {s : ScanBus IdealBus}, Stuck D k m i s →
      (w1ScanLoop idealOps n i s).1 = i + n ∧
        Stuck D k m (i + n) (w1ScanLoop idealOps n i s).2 := by
  induction n with
  | zero => exact fun h => ⟨rfl, h⟩
  | succ n ih =>
      intro i s h
      have hpos := h.pos
      have hle := h.le
      have hdevs : s.bus.devs.Nonempty := h.devs ▸ hD
      have hopen := (h.cmask m).mpr h.openAt
      have hlast : ∀ j, m < j → romBit s.cmask j = false := fun j hj =>
        Bool.eq_false_iff.mpr fun hset => h.last j hj ((h.cmask j).mp hset)
      obtain ⟨rom, p, s', hrom, hfollows, hloop, hbus, hcodes, hcmask⟩ :=
        w1ScanLoop_open hdevs (i := i) (by omega) n hopen hlast
      rw [h.devs] at hfollows hbus hcmask
      have hnext := ih (h.next hrom hfollows hbus hcodes hcmask)
      rw [hloop, ← Nat.add_assoc, Nat.add_right_comm]
      exact hnext

/-- A scan that finds every device: its last one has no open branch. -/
structure Complete (D : Finset (BitVec 64)) (n : Nat) (devs : Nat → BitVec 64) : Prop where
  pos : 0 < n
  le : n ≤ W1_MAX_DEVICES
  enum : Enumerates D n devs
  closed : ∀ j, ¬ OpenAt romBit D (devs (n - 1)) j
  rest : ∀ j, n ≤ j → devs j = 0#64

section Enumerates

variable {D : Finset (BitVec 64)} {n : Nat} {devs : Nat → BitVec 64} (h : Enumerates D n devs)

include h

theorem Enumerates.injOn : Set.InjOn devs (Set.Iio n) := by
  intro j hj k hk heq
  rcases Nat.lt_trichotomy j k with hjk | rfl | hjk
  · exact absurd (congrArg (key romBit) heq) (h.increasing j k hjk hk).ne
  · rfl
  · exact absurd (congrArg (key romBit) heq) (h.increasing k j hjk hj).ne'

theorem Enumerates.le_last {j : Nat} (hj : j < n) :
    key romBit (devs j) ≤ key romBit (devs (n - 1)) := by
  rcases Nat.eq_or_lt_of_le (Nat.le_sub_one_of_lt hj) with heq | hlt
  · rw [heq]
  · exact (h.increasing j (n - 1) hlt (by omega)).le

theorem Enumerates.image_subset : (Finset.range n).image devs ⊆ D := by
  intro d hd
  obtain ⟨j, hj, rfl⟩ := Finset.mem_image.mp hd
  exact h.mem j (Finset.mem_range.mp hj)

/-- The entries are different codes. -/
theorem Enumerates.card_image : ((Finset.range n).image devs).card = n := by
  rw [Finset.card_image_of_injOn, Finset.card_range]
  rw [Finset.coe_range]
  exact h.injOn

/-- With a larger code left, there are more codes than entries. -/
theorem Enumerates.lt_card {d : BitVec 64} (hd : d ∈ D)
    (hlt : key romBit (devs (n - 1)) < key romBit d) : n < D.card := by
  have hnew : d ∉ (Finset.range n).image devs := by
    intro hmem
    obtain ⟨j, hj, rfl⟩ := Finset.mem_image.mp hmem
    exact absurd hlt (not_lt.mpr (h.le_last (Finset.mem_range.mp hj)))
  have hsubset : insert d ((Finset.range n).image devs) ⊆ D :=
    Finset.insert_subset hd h.image_subset
  have hcard := Finset.card_le_card hsubset
  rw [Finset.card_insert_of_notMem hnew, h.card_image] at hcard
  exact hcard

end Enumerates

theorem Visited.run {D : Finset (BitVec 64)} (hD : D.Nonempty)
    (hcard : D.card ≤ W1_MAX_DEVICES) {n : Nat} :
    ∀ {i : Nat} {s : ScanBus IdealBus}, Visited D i s → i + n = W1_MAX_DEVICES →
      Complete D (w1ScanLoop idealOps n i s).1 (w1ScanLoop idealOps n i s).2.devs ∨
        (w1ScanLoop idealOps n i s).1 = W1_MAX_DEVICES ∧
          ∃ k m, k < W1_MAX_DEVICES ∧
            Stuck D k m W1_MAX_DEVICES (w1ScanLoop idealOps n i s).2 := by
  induction n with
  | zero =>
      intro i s h hi
      -- the table is full: an open branch would be one device too many
      obtain rfl : i = W1_MAX_DEVICES := hi
      refine .inl ⟨h.pos, Nat.le_refl _, h.enum, fun j hopen => ?_, h.rest⟩
      obtain ⟨d, hd, -, -, hlt⟩ := hopen.key_lt
      exact absurd (h.enum.lt_card hd hlt) (Nat.not_lt.mpr hcard)
  | succ n ih =>
      intro i s h hi
      have hpos := h.pos
      have hdevs : s.bus.devs.Nonempty := h.devs ▸ hD
      rcases exists_last s.cmask with hclosed | ⟨m, hopen, hlast⟩
      -- no open branch: the scan ends
      · have hsame : Function.update s.devs i 0#64 = s.devs := by
          rw [Function.update_eq_self_iff]
          exact (h.rest i (Nat.le_refl i)).symm
        rw [w1ScanLoop_closed (by omega) n hclosed, hsame]
        refine .inl ⟨hpos, by omega, h.enum, fun j hset => ?_, h.rest⟩
        have hbit := (h.cmask j).mpr hset
        rw [hclosed j] at hbit
        exact Bool.noConfusion hbit
      have hopenAt := (h.cmask m).mp hopen
      have hlastAt : ∀ j, m < j → ¬ OpenAt romBit D (s.devs (i - 1)) j := fun j hj hset => by
        have hbit := (h.cmask j).mpr hset
        rw [hlast j hj] at hbit
        exact Bool.noConfusion hbit
      rcases Nat.lt_or_ge m 32 with hm | hm
      -- an open branch that `select` sees: one more device
      · obtain ⟨rom, p, s', hrom, hfollows, hloop, hbus, hcodes, hcmask⟩ :=
          w1ScanLoop_open hdevs (i := i) (by omega) n hopen hlast
        rw [h.devs] at hfollows hbus hcmask
        have hnext := h.next hopenAt hlastAt hm hrom hfollows hbus hcodes hcmask
        rw [hloop]
        exact ih hnext (by omega)
      -- an open branch that it does not see: stuck to the end of the table
      · have hstuck : Stuck D i m i s :=
          ⟨hpos, Nat.le_refl i, h.devs, h.enum, hopenAt, hlastAt, hm, h.follows, h.cmask,
            fun j hij hji => absurd hji (by omega)⟩
        have hrun := hstuck.run hD (n := n + 1)
        rw [hi] at hrun
        exact .inr ⟨hrun.1, i, m, by omega, hrun.2⟩

/-- The first pass finds the first device. -/
theorem visited_first {D : Finset (BitVec 64)} {p : BitVec 64} {s : ScanBus IdealBus}
    (hfollows : Follows romBit D (selectBit 0#64) p) (hbus : s.bus.devs = D)
    (hcodes : s.devs = Function.update (fun _ => 0#64) 0 p)
    (hcmask : ∀ j, romBit s.cmask j = true ↔ OpenAt romBit D p j) : Visited D 1 s := by
  have hzero : ∀ j, selectBit 0#64 j = false := fun j => by
    rw [selectBit, BitVec.getLsbD_zero, Bool.and_false]
  have hself : s.devs 0 = p := by rw [hcodes, Function.update_self]
  refine ⟨Nat.one_pos, hbus, ⟨fun j hj => ?_, fun j k hjk hk => absurd hjk (by omega),
    fun d hd hle => ⟨0, Nat.one_pos, ?_⟩, fun j hj => absurd hj (by omega)⟩,
    ⟨0#64, hself ▸ hfollows⟩, hself ▸ hcmask, fun j hj => ?_⟩
  · obtain rfl : j = 0 := by omega
    exact hself ▸ hfollows.1
  · rw [Nat.sub_self, hself] at hle
    exact hself.trans (key_injective (le_antisymm (hfollows.le hzero hd) hle))
  · rw [hcodes, Function.update_of_ne (by omega)]

/-- Every scan finds all devices, or gets stuck. -/
theorem w1ScanBus_cases (bus : IdealBus) (hdevs : bus.devs.Nonempty)
    (hcard : bus.devs.card ≤ W1_MAX_DEVICES) :
    Complete bus.devs (w1ScanBus idealOps bus).1 (w1ScanBus idealOps bus).2.devs ∨
      (w1ScanBus idealOps bus).1 = W1_MAX_DEVICES ∧
        ∃ k m, k < W1_MAX_DEVICES ∧
          Stuck bus.devs k m W1_MAX_DEVICES (w1ScanBus idealOps bus).2 := by
  obtain ⟨p, s, hfollows, hloop, hbus, hcodes, hcmask⟩ := w1ScanLoop_first bus hdevs 7
  have hrun := (visited_first hfollows hbus hcodes hcmask).run hdevs hcard (n := 7) rfl
  rw [← hloop] at hrun
  exact hrun

/-! ## The devices that the scan finds -/

/-- The scan returns the number of devices, and leaves each of their codes once and zero
in the other entries. -/
def Finds (D : Finset (BitVec 64)) (r : Nat × ScanBus IdealBus) : Prop :=
  r.1 = D.card ∧ Set.BijOn r.2.devs (Set.Iio r.1) D ∧
    ∀ j, r.1 ≤ j → j < W1_MAX_DEVICES → r.2.devs j = 0#64

/-- The codes differ in their low halves. -/
def LowDistinct (D : Finset (BitVec 64)) : Prop :=
  ∀ d ∈ D, ∀ e ∈ D, d.setWidth 32 = e.setWidth 32 → d = e

/-- There are as many devices as entries, and only the last one in the order of the search
has the low half of another one, from which it differs in a single bit. -/
def LastPair (D : Finset (BitVec 64)) : Prop :=
  D.card = W1_MAX_DEVICES ∧ ∃ a ∈ D, ∃ m, 32 ≤ m ∧ m < 64 ∧ romBit a m = false ∧
    a ||| BitVec.twoPow 64 m ∈ D ∧
    (∀ d ∈ D, key romBit d ≤ key romBit (a ||| BitVec.twoPow 64 m)) ∧
    LowDistinct (D.erase (a ||| BitVec.twoPow 64 m))

theorem setWidth_eq_iff {d e : BitVec 64} :
    d.setWidth 32 = e.setWidth 32 ↔ Agree romBit 32 d e := by
  constructor
  · intro h j hj
    have hbit := congrArg (fun x => BitVec.getLsbD x j) h
    simpa [hj, romBit] using hbit
  · intro h
    apply BitVec.eq_of_getLsbD_eq
    intro j hj
    rw [BitVec.getLsbD_setWidth, BitVec.getLsbD_setWidth]
    exact congrArg _ (h j hj)

/-- Two codes with the same low half are not both found before the last entry. -/
theorem Enumerates.low_apart {D : Finset (BitVec 64)} {n : Nat} {devs : Nat → BitVec 64}
    (h : Enumerates D n devs) {j : Nat} (hj : j + 1 < n) {e : BitVec 64} (he : e ∈ D)
    (hlt : key romBit (devs j) < key romBit e) : ¬ Agree romBit 32 (devs j) e := by
  intro hagree
  obtain ⟨m, hopen, -, hhigh⟩ := openAt_of_key_lt he hlt
  have hlow := hagree m (h.low j hj m hopen)
  rw [hopen.1, hhigh] at hlow
  exact Bool.noConfusion hlow

/-- A set of codes has distinct low halves when no two of them, in order, share theirs. -/
theorem lowDistinct_of_lt {D : Finset (BitVec 64)}
    (h : ∀ d ∈ D, ∀ e ∈ D, key romBit d < key romBit e → ¬ Agree romBit 32 d e) :
    LowDistinct D := by
  intro d hd e he hsame
  have hagree := setWidth_eq_iff.mp hsame
  by_contra hne
  rcases lt_or_gt_of_ne (fun heq => hne (key_injective heq)) with hlt | hlt
  · exact h d hd e he hlt hagree
  · exact h e he d hd hlt hagree.symm

section Complete

variable {D : Finset (BitVec 64)} {n : Nat} {devs : Nat → BitVec 64} (h : Complete D n devs)

include h

theorem Complete.surj {d : BitVec 64} (hd : d ∈ D) : ∃ j, j < n ∧ devs j = d :=
  h.enum.complete d hd (key_le_of_closed h.closed hd)

theorem Complete.finds {s : ScanBus IdealBus} (hs : s.devs = devs) : Finds D (n, s) := by
  subst hs
  have hall : (Finset.range n).image s.devs = D := by
    apply Finset.Subset.antisymm h.enum.image_subset
    intro d hd
    obtain ⟨j, hj, rfl⟩ := h.surj hd
    exact Finset.mem_image_of_mem _ (Finset.mem_range.mpr hj)
  refine ⟨?_, ⟨fun j hj => h.enum.mem j hj, h.enum.injOn, fun d hd => h.surj hd⟩,
    fun j hj _ => h.rest j hj⟩
  exact h.enum.card_image.symm.trans (congrArg Finset.card hall)

theorem Complete.lowDistinct : LowDistinct D := by
  apply lowDistinct_of_lt
  intro d hd e he hlt
  obtain ⟨j, hj, rfl⟩ := h.surj hd
  have hle := key_le_of_closed h.closed he
  have hlast : j ≠ n - 1 := by
    rintro rfl
    exact absurd hlt (not_lt.mpr hle)
  exact h.enum.low_apart (by omega) he hlt

end Complete

section Stuck

variable {D : Finset (BitVec 64)} {k m : Nat} {s : ScanBus IdealBus}
  (h : Stuck D k m W1_MAX_DEVICES s) (hk : k < W1_MAX_DEVICES)

include h

/-- What a stuck scan records comes after the device in the order of the search. -/
theorem Stuck.key_lt : key romBit (s.devs (k - 1)) <
    key romBit (s.devs (k - 1) ||| BitVec.twoPow 64 m) := by
  refine key_lt_iff.mpr ⟨m, fun j hj => ?_, h.openAt.1, ?_⟩
  · rw [romBit_or_twoPow h.lt, if_neg (by omega)]
  · rw [romBit_or_twoPow h.lt, if_pos rfl]

theorem Stuck.not_lowDistinct : ¬ LowDistinct D := by
  intro hdistinct
  obtain ⟨d, hd, hagree, -, hlt⟩ := h.openAt.key_lt
  have hsame := hdistinct d hd _ (h.enum.mem (k - 1) (by have := h.pos; omega))
    (setWidth_eq_iff.mpr (hagree.mono h.high))
  rw [hsame] at hlt
  exact lt_irrefl _ hlt

include hk

/-- A stuck scan that finds every device is stuck for its last entry only. -/
theorem Stuck.lastPair (hfinds : Finds D (W1_MAX_DEVICES, s)) : LastPair D := by
  obtain ⟨hcard, hbij, -⟩ := hfinds
  have hpos := h.pos
  have hsix : (6 : Nat) ∈ Set.Iio W1_MAX_DEVICES := Set.mem_Iio.mpr (by decide)
  have hseven : (7 : Nat) ∈ Set.Iio W1_MAX_DEVICES := Set.mem_Iio.mpr (by decide)
  unfold W1_MAX_DEVICES at hk hcard
  -- two entries behind the stuck one would be the same device
  obtain rfl : k = 7 := by
    by_contra hne
    have hsame : s.devs 6 = s.devs 7 := by
      rw [h.rest 6 (by omega) hsix, h.rest 7 (by omega) hseven]
    exact absurd (hbij.injOn hsix hseven hsame) (by decide)
  have hlast : s.devs 7 = s.devs 6 ||| BitVec.twoPow 64 m := h.rest 7 (Nat.le_refl 7) hseven
  have hlt := h.key_lt
  rw [← hlast] at hlt
  -- every device is in the table, the last one at its end
  have hfound : ∀ d ∈ D, d = s.devs 7 ∨ ∃ j, j < 7 ∧ d = s.devs j := fun d hd => by
    obtain ⟨j, hj, rfl⟩ := hbij.surjOn hd
    rcases Nat.lt_or_ge j 7 with hj' | hj'
    · exact .inr ⟨j, hj', rfl⟩
    · have hj8 : j < 8 := hj
      obtain rfl : j = 7 := by omega
      exact .inl rfl
  have hmem := h.enum.mem 6 (by omega)
  refine ⟨hcard.symm, s.devs 6, hmem, m, h.high, h.lt, h.openAt.1, ?_, ?_, ?_⟩
  · rw [← hlast]
    exact hbij.mapsTo hseven
  · intro d hd
    rw [← hlast]
    rcases hfound d hd with rfl | ⟨j, hj, rfl⟩
    · exact le_refl _
    · exact (h.enum.le_last hj).trans hlt.le
  · rw [← hlast]
    apply lowDistinct_of_lt
    intro d hd e he hde
    obtain ⟨hdne, hdD⟩ := Finset.mem_erase.mp hd
    obtain ⟨hene, heD⟩ := Finset.mem_erase.mp he
    obtain ⟨j, hj, rfl⟩ := (hfound d hdD).resolve_left hdne
    obtain ⟨l, hl, rfl⟩ := (hfound e heD).resolve_left hene
    have hjl : j < l := by
      by_contra hge
      rcases Nat.eq_or_lt_of_le (Nat.not_lt.mp hge) with rfl | hlt'
      · exact lt_irrefl _ hde
      · exact lt_asymm hde (h.enum.increasing l j hlt' hj)
    exact h.enum.low_apart (by omega) heD hde

omit hk in
/-- In a last pair, the scan is stuck at the first device of the pair, and what it records
is the second one. -/
theorem Stuck.pair_eq (hpair : LastPair D) :
    s.devs (k - 1) ||| BitVec.twoPow 64 m ∈ D ∧
      ∀ d ∈ D, key romBit (s.devs (k - 1)) < key romBit d →
        d = s.devs (k - 1) ||| BitVec.twoPow 64 m := by
  obtain ⟨-, a, ha, m', hm', hm64, halow, hbD, hmax, hdistinct⟩ := hpair
  generalize hb : a ||| BitVec.twoPow 64 m' = b at hbD hmax hdistinct
  have hsame : ∀ d e, d ∈ D → d ≠ b → e ∈ D → e ≠ b → Agree romBit 32 d e → d = e :=
    fun d e hd hdb he heb hagree => hdistinct d (Finset.mem_erase.mpr ⟨hdb, hd⟩) e
      (Finset.mem_erase.mpr ⟨heb, he⟩) (setWidth_eq_iff.mpr hagree)
  have hmem : s.devs (k - 1) ∈ D := h.enum.mem (k - 1) (by have := h.pos; omega)
  have hbelow : ∀ d ∈ D, key romBit (s.devs (k - 1)) < key romBit d → s.devs (k - 1) ≠ b :=
    fun d hd hlt heq => absurd (hmax d hd) (not_le.mpr (heq ▸ hlt))
  obtain ⟨d, hd, hagree, hhigh, hlt⟩ := h.openAt.key_lt
  have hne := hbelow d hd hlt
  have hlow := hagree.mono h.high
  -- the device above the branch shares the low bits of the entry, as only the pair's does
  obtain rfl : d = b := by
    by_contra hdb
    exact absurd (hsame d _ hd hdb hmem hne hlow) (fun heq => lt_irrefl _ (heq ▸ hlt))
  have hbit : ∀ j, romBit d j = if j = m' then true else romBit a j := fun j => by
    rw [← hb, romBit_or_twoPow hm64]
  have hab : a ≠ d := fun heq => by
    have hset := hbit m'
    rw [if_pos rfl, ← heq, halow] at hset
    exact Bool.noConfusion hset
  have had : Agree romBit 32 a d := fun j hj => by
    rw [hbit, if_neg (by omega)]
  -- so the scan is stuck at its lower device
  obtain rfl : a = s.devs (k - 1) := hsame _ _ ha hab hmem hne (had.trans hlow)
  obtain rfl : m = m' := by
    by_contra hmm
    have hset := hbit m
    rw [if_neg hmm, hhigh, h.openAt.1] at hset
    exact Bool.noConfusion hset
  refine ⟨hb ▸ hd, fun e he hae => ?_⟩
  rw [hb]
  by_contra hed
  have hbetween := had.between hae.le (hmax e he)
  exact absurd (hsame _ _ hmem hne he hed hbetween) (fun heq => lt_irrefl _ (heq ▸ hae))

/-- With a last pair, a stuck scan finds every device. -/
theorem Stuck.finds (hpair : LastPair D) : Finds D (W1_MAX_DEVICES, s) := by
  obtain ⟨hlastD, hlast⟩ := h.pair_eq hpair
  have hcard := hpair.1
  -- every device is found before the scan is stuck, or is the pair's upper one
  have hcover : D ⊆ insert (s.devs (k - 1) ||| BitVec.twoPow 64 m)
      ((Finset.range k).image s.devs) := fun d hd => by
    rcases le_or_gt (key romBit d) (key romBit (s.devs (k - 1))) with hle | hlt
    · obtain ⟨j, hj, rfl⟩ := h.enum.complete d hd hle
      exact Finset.mem_insert_of_mem (Finset.mem_image_of_mem _ (Finset.mem_range.mpr hj))
    · exact Finset.mem_insert.mpr (.inl (hlast d hd hlt))
  have hcount := (Finset.card_le_card hcover).trans (Finset.card_insert_le _ _)
  rw [h.enum.card_image, hcard] at hcount
  unfold W1_MAX_DEVICES at hk hcount
  -- counting the eight devices leaves one entry for it
  obtain rfl : k = 7 := by omega
  have hseven : s.devs 7 = s.devs 6 ||| BitVec.twoPow 64 m :=
    h.rest 7 (Nat.le_refl 7) (by decide)
  have hlt : ∀ j, j < 7 → key romBit (s.devs j) < key romBit (s.devs 7) := fun j hj =>
    hseven ▸ (h.enum.le_last hj).trans_lt h.key_lt
  have hfresh : ∀ j, j < 7 → s.devs j ≠ s.devs 7 := fun j hj heq =>
    absurd (congrArg (key romBit) heq) (hlt j hj).ne
  refine ⟨hcard.symm, ⟨fun j hj => ?_, fun j hj l hl heq => ?_, fun d hd => ?_⟩,
    fun j hj hj' => absurd hj' (Nat.not_lt.mpr hj)⟩
  · have hj8 : j < 8 := hj
    rcases Nat.lt_or_ge j 7 with hj7 | hj7
    · exact h.enum.mem j hj7
    · obtain rfl : j = 7 := by omega
      exact hseven ▸ hlastD
  · have hj8 : j < 8 := hj
    have hl8 : l < 8 := hl
    rcases Nat.lt_or_ge j 7 with hj7 | hj7
    · rcases Nat.lt_or_ge l 7 with hl7 | hl7
      · exact h.enum.injOn hj7 hl7 heq
      · obtain rfl : l = 7 := by omega
        exact absurd heq (hfresh j hj7)
    · obtain rfl : j = 7 := by omega
      rcases Nat.lt_or_ge l 7 with hl7 | hl7
      · exact absurd heq.symm (hfresh l hl7)
      · omega
  · rcases Finset.mem_insert.mp (hcover hd) with rfl | hfound
    · exact ⟨7, (by decide : 7 < 8), hseven⟩
    · obtain ⟨j, hj, rfl⟩ := Finset.mem_image.mp hfound
      have hj7 := Finset.mem_range.mp hj
      exact ⟨j, (Nat.lt_succ_of_lt hj7 : j < 8), rfl⟩

end Stuck

/-- The scan finds every device, each of them once, exactly when the codes differ in their
low halves, or only those of a last pair do not. -/
theorem w1ScanBus_finds_iff (bus : IdealBus) (hdevs : bus.devs.Nonempty)
    (hcard : bus.devs.card ≤ W1_MAX_DEVICES) :
    Finds bus.devs (w1ScanBus idealOps bus) ↔ LowDistinct bus.devs ∨ LastPair bus.devs := by
  rcases w1ScanBus_cases bus hdevs hcard with hcomplete | ⟨hn, k, m, hk, hstuck⟩
  · exact ⟨fun _ => .inl hcomplete.lowDistinct, fun _ => hcomplete.finds rfl⟩
  · have hpair : w1ScanBus idealOps bus = (W1_MAX_DEVICES, (w1ScanBus idealOps bus).2) :=
      Prod.ext hn rfl
    rw [hpair]
    constructor
    · exact fun hfinds => .inr (hstuck.lastPair hk hfinds)
    · rintro (hdistinct | hlast)
      · exact absurd hdistinct hstuck.not_lowDistinct
      · exact hstuck.finds hk hlast

/-- Two EEPROMs, with the serial numbers 1 and 2. -/
def distinctEeproms : IdealBus where
  devs := {0xb700000000000143, 0xee00000000000243}
  active := ∅
  phase := .idle

theorem w1ScanBus_finds_iff_distinct :
    Finds distinctEeproms.devs (w1ScanBus idealOps distinctEeproms) ↔
      LowDistinct distinctEeproms.devs ∨ LastPair distinctEeproms.devs :=
  w1ScanBus_finds_iff distinctEeproms (by decide) (by decide)

/-- Two EEPROMs, with the serial numbers 1 and 0x1000001. -/
def similarEeproms : IdealBus where
  devs := {0xb700000000000143, 0x1c00000100000143}
  active := ∅
  phase := .idle

/-- Their scan reports eight devices. -/
theorem w1ScanBus_misses :
    ¬ Finds similarEeproms.devs (w1ScanBus idealOps similarEeproms) := by
  have hsimilar : ¬ LowDistinct similarEeproms.devs := fun h =>
    absurd (h 0xb700000000000143 (by decide) 0x1c00000100000143 (by decide) (by decide)) (by decide)
  have hcount : similarEeproms.devs.card = 2 := by decide
  rintro ⟨hcard, -, -⟩
  rcases w1ScanBus_cases similarEeproms (by decide) (by decide) with hcomplete | ⟨hn, -⟩
  · exact hsimilar hcomplete.lowDistinct
  · rw [hn, hcount] at hcard
    exact absurd hcard (by decide)

end OneWire
end WrpcSw
